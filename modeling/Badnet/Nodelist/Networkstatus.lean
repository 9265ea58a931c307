/-
  Badnet.Nodelist.Networkstatus — a consensus in use (`feature/nodelist/networkstatus.c`): the lookup of an entry by its
  identity digest and the copy of what is known about the relays of the old consensus into the new one.

  Both take the entries to be in the order of their digests, which the reader of the documents does not check. The
  lookup finds the digests exactly if each has a position the probes of a halving search lead to
  (`lookup_complete_iff`); the copy reaches every relay of both documents once exactly if each of these stands once in
  either document, after smaller digests only (`copy_complete_iff`).
-/

import Mathlib.Algebra.Ring.Nat
import Mathlib.Order.Nat
import Badnet.Container.Smartlist
import Badnet.Dirparse.Sri

namespace Badnet.Nodelist

open Lib Encoding Dirparse Container

/-! ## Digests -/

/-- `tor_memcmp` (`lib/ctime/di_ops.c`): from the end of the arrays to the start, the
    difference of the last unequal bytes seen. -/
def torMemcmp (a b : Bytes) (len : Nat) : Int :=
  ((a.zip b).take len).foldr (fun p retval => if p.1 = p.2 then retval else p.1.toNat - p.2.toNat) 0

/-- The bytes as the digits of a number, the first one the highest. -/
def digestValue : Bytes → Nat
  | [] => 0
  | b :: bs => b.toNat * 256 ^ bs.length + digestValue bs

theorem digestValue_lt (bs : Bytes) : digestValue bs < 256 ^ bs.length := by
  induction bs with
  | nil => exact Nat.one_pos
  | cons b bs ih =>
    have hb : b.toNat + 1 ≤ 256 := b.toNat_lt
    have hmul := Nat.mul_le_mul_right (256 ^ bs.length) hb
    rw [Nat.add_mul] at hmul
    rw [digestValue, List.length_cons, Nat.pow_succ]
    omega

theorem torMemcmp_cons (x y : UInt8) (a b : Bytes) (n : Nat) :
    torMemcmp (x :: a) (y :: b) (n + 1) = if x = y then torMemcmp a b n else (x.toNat : Int) - y.toNat := rfl

variable {a b : Bytes}

/-- A higher first digit decides. -/
theorem digestValue_lt_of_head {x y : UInt8} (hlen : a.length = b.length) (h : x.toNat < y.toNat) :
    digestValue (x :: a) < digestValue (y :: b) := by
  have ha := digestValue_lt a
  have hmul := Nat.mul_le_mul_right (256 ^ b.length) (Nat.succ_le_of_lt h)
  rw [Nat.succ_mul] at hmul
  rw [digestValue, digestValue, hlen]
  rw [hlen] at ha
  omega

theorem torMemcmp_trichotomy {n : Nat} (ha : a.length = n) (hb : b.length = n) :
    (digestValue a < digestValue b ∧ torMemcmp a b n < 0) ∨ (a = b ∧ torMemcmp a b n = 0) ∨
      (digestValue b < digestValue a ∧ 0 < torMemcmp a b n) := by
  induction n generalizing a b with
  | zero =>
    rw [List.length_eq_zero_iff.mp ha, List.length_eq_zero_iff.mp hb]
    exact .inr (.inl ⟨rfl, rfl⟩)
  | succ n ih =>
    obtain ⟨x, a, rfl⟩ := List.exists_cons_of_length_eq_add_one ha
    obtain ⟨y, b, rfl⟩ := List.exists_cons_of_length_eq_add_one hb
    replace ha : a.length = n := Nat.succ.inj ha
    replace hb : b.length = n := Nat.succ.inj hb
    rw [torMemcmp_cons]
    by_cases hxy : x = y
    · subst hxy
      rw [if_pos rfl, digestValue, digestValue, ha, hb, List.cons.injEq]
      rcases ih ha hb with ⟨hv, hc⟩ | ⟨he, hc⟩ | ⟨hv, hc⟩
      · exact .inl ⟨by omega, hc⟩
      · exact .inr (.inl ⟨⟨rfl, he⟩, hc⟩)
      · exact .inr (.inr ⟨by omega, hc⟩)
    · rw [if_neg hxy]
      rcases Nat.lt_trichotomy x.toNat y.toNat with h | h | h
      · exact .inl ⟨digestValue_lt_of_head (ha.trans hb.symm) h, by omega⟩
      · exact absurd (UInt8.toNat_inj.mp h) hxy
      · exact .inr (.inr ⟨digestValue_lt_of_head (hb.trans ha.symm) h, by omega⟩)

/-- The comparison is that of the numbers, which are equal for equal digests only. -/
theorem torMemcmp_iff {n : Nat} (ha : a.length = n) (hb : b.length = n) :
    (torMemcmp a b n = 0 ↔ digestValue a = digestValue b) ∧ (torMemcmp a b n < 0 ↔ digestValue a < digestValue b) ∧
      (0 < torMemcmp a b n ↔ digestValue b < digestValue a) ∧ (digestValue a = digestValue b ↔ a = b) := by
  rcases torMemcmp_trichotomy ha hb with ⟨hv, hc⟩ | ⟨rfl, hc⟩ | ⟨hv, hc⟩
  · exact ⟨by omega, by omega, by omega, fun h => by omega, fun h => by rw [h]⟩
  · exact ⟨by omega, by omega, by omega, fun _ => rfl, fun _ => rfl⟩
  · exact ⟨by omega, by omega, by omega, fun h => by omega, fun h => by rw [h]⟩

/-! ## What the reader accepts -/

section

variable {rsa : Rsa}

theorem length_digestFromBase64 {len : Nat} {d64 : Text} {digest : Bytes}
    (h : digestFromBase64 len d64 = some digest) : digest.length = len := by
  unfold digestFromBase64 at h
  rw [Option.filter_eq_some_iff] at h
  simpa using h.2

/-- A check of a `do` block that lets the rest go on. -/
theorem guard_ok {α β : Type} {c : Prop} [Decidable c] {e : String} {k : α → Except String β} {x : Except String β}
    {b : β} : (if c then Except.error e >>= k else x) = .ok b ↔ ¬ c ∧ x = .ok b := by
  by_cases hc : c
  · rw [if_pos hc]
    exact ⟨nofun, fun h => absurd hc h.1⟩
  · rw [if_neg hc]
    exact ⟨fun h => ⟨hc, h⟩, fun h => h.2⟩

variable {flav : Flavor} {s : Text} {ns : NetworkStatus}

theorem routerstatusOf_digest {tokens : List (Token rsa)} {rs : RouterStatus}
    (h : routerstatusOf rsa flav tokens = .ok rs) : rs.identityDigest.length = DIGEST_LEN := by
  unfold routerstatusOf at h
  obtain ⟨-, h⟩ := guard_ok.mp h
  obtain ⟨tok, -, h⟩ := bind_ok.mp h
  obtain ⟨-, h⟩ := guard_ok.mp h
  obtain ⟨-, h⟩ := guard_ok.mp h
  obtain ⟨digest, hdigest, h⟩ := bind_ok.mp h
  obtain ⟨ip, -, h⟩ := bind_ok.mp h
  obtain ⟨md, -, h⟩ := bind_ok.mp h
  cases h
  cases hd : digestFromBase64 DIGEST_LEN (tok.args.getD 1 []) with
  | none =>
    rw [hd] at hdigest
    cases hdigest
  | some d =>
    rw [hd] at hdigest
    cases hdigest
    exact length_digestFromBase64 hd

theorem routerstatusParse_digest {method : Nat} {rs : RouterStatus}
    (h : (routerstatusParseEntryFromString rsa s method flav).1 = .ok rs) : rs.identityDigest.length = DIGEST_LEN := by
  unfold routerstatusParseEntryFromString at h
  simp only at h
  split at h
  · cases h
  · exact routerstatusOf_digest h

/-- What holds of the entries that are read, from the last one up. -/
theorem routerstatusLoop_ok {method : Nat} {list : List RouterStatus} {P : Text → List RouterStatus → Prop}
    (hstop : ∀ s, ¬ ['r', ' '] <+: s → P s [])
    (hentry : ∀ s rs rest, ['r', ' '] <+: s → (routerstatusParseEntryFromString rsa s method flav).1 = .ok rs →
      P (s.drop (findStartOfNextRouterstatus s)) rest → P s (rs :: rest))
    (h : routerstatusLoop rsa method flav s = .ok list) : P s list := by
  induction hn : s.length using Nat.strongRecOn generalizing s list with
  | ind n ih =>
    rw [routerstatusLoop] at h
    by_cases hr : ['r', ' '] <+: s
    · rw [dif_pos hr] at h
      have hne : s ≠ [] := fun e => absurd (e ▸ hr) (by decide)
      have hpos := findStart_pos hne
      have hlen := List.length_pos_of_ne_nil hne
      cases hp : (routerstatusParseEntryFromString rsa s method flav).1 with
      | error e =>
        simp only [hp] at h
        cases h
      | ok rs =>
        simp only [hp] at h
        cases hrest : routerstatusLoop rsa method flav (routerstatusParseEntryFromString rsa s method flav).2 with
        | error e =>
          rw [hrest] at h
          cases h
        | ok rest =>
          rw [hrest] at h
          cases h
          refine hentry s rs rest hr hp (ih _ ?_ hrest rfl)
          show (s.drop (findStartOfNextRouterstatus s)).length < n
          rw [List.length_drop]
          omega
    · rw [dif_neg hr] at h
      cases h
      exact hstop s hr

theorem routerstatusLoop_digest {method : Nat} {list : List RouterStatus} :
    routerstatusLoop rsa method flav s = .ok list → ∀ rs ∈ list, rs.identityDigest.length = DIGEST_LEN :=
  routerstatusLoop_ok (P := fun _ list => ∀ rs ∈ list, rs.identityDigest.length = DIGEST_LEN) (by simp)
    fun _ _ _ _ hp hrest => List.forall_mem_cons.mpr ⟨routerstatusParse_digest hp, hrest⟩

/-- Every entry of an accepted document has a digest of 20 bytes. -/
theorem accepted_digest (h : networkstatusParseVoteFromString rsa s .CONSENSUS = .ok ns) :
    ∀ rs ∈ ns.routerstatusList, rs.identityDigest.length = DIGEST_LEN := by
  rw [networkstatusParse_eq] at h
  cases hl : routerstatusLoop rsa 29 .MICRODESC s with
  | error e =>
    rw [hl] at h
    cases h
  | ok list =>
    rw [hl] at h
    cases h
    exact routerstatusLoop_digest hl

/-! ## The lookup -/

def compareDigestToRouterstatusEntry (key : Bytes) (rs : RouterStatus) : Int :=
  torMemcmp key rs.identityDigest DIGEST_LEN

/-- `networkstatus_vote_find_entry`: the entry, `some none` for NULL. -/
def networkstatusVoteFindEntry (ns : NetworkStatus) (digest : BytesN DIGEST_LEN) : Option (Option RouterStatus) :=
  smartlistBsearch compareDigestToRouterstatusEntry digest.1 ns.routerstatusList

def digestValues (ns : NetworkStatus) : List Nat :=
  ns.routerstatusList.map fun rs => digestValue rs.identityDigest

section

variable (hns : ∀ rs ∈ ns.routerstatusList, rs.identityDigest.length = DIGEST_LEN) (d : BytesN DIGEST_LEN)
include hns d

theorem compares_digest :
    Compares compareDigestToRouterstatusEntry d.1 (digestValue d.1) (fun rs => digestValue rs.identityDigest)
      ns.routerstatusList := by
  intro rs hrs
  obtain ⟨h0, -, hpos, -⟩ := torMemcmp_iff d.2 (hns rs hrs)
  exact ⟨h0.trans eq_comm, hpos⟩

/-- The lookup never fails an assertion, and finds a digest exactly if the probes lead to
    it. -/
theorem findEntry_found :
    ∃ r, networkstatusVoteFindEntry ns d = some r ∧
      (∀ rs, r = some rs → rs ∈ ns.routerstatusList ∧ rs.identityDigest = d.1) ∧
      (r.isSome ↔ Reaches (digestValues ns) (digestValue d.1) 0 (digestValues ns).length) := by
  obtain ⟨r, hr, hmem, hiff⟩ := smartlistBsearch_found (compares_digest hns d)
  refine ⟨r, hr, fun rs hrs => ?_, ?_⟩
  · obtain ⟨hin, hv⟩ := hmem rs hrs
    exact ⟨hin, (torMemcmp_iff (hns rs hin) d.2).2.2.2.mp hv⟩
  · unfold digestValues
    rw [List.length_map]
    exact hiff

end

/-- Every digest of an accepted document is found, and no other, exactly if the halving
    search is led to each; for distinct digests exactly if they ascend. -/
theorem lookup_complete_iff (rsa : Rsa) (s : Text) (ns : NetworkStatus)
    (h : networkstatusParseVoteFromString rsa s .CONSENSUS = .ok ns) :
    ((∀ d : BytesN DIGEST_LEN,
        (∃ rs, networkstatusVoteFindEntry ns d = some (some rs) ∧ rs.identityDigest = d.1) ↔
          ∃ rs ∈ ns.routerstatusList, rs.identityDigest = d.1) ↔
      BisectOrdered (digestValues ns)) ∧
    ((digestValues ns).Nodup →
      (BisectOrdered (digestValues ns) ↔ (digestValues ns).Pairwise (· < ·))) := by
  have hns := accepted_digest h
  refine ⟨⟨fun hall v hv => ?_, fun hord d => ⟨?_, ?_⟩⟩, bisectOrdered_iff_sorted⟩
  · obtain ⟨rs, hrs, rfl⟩ := List.mem_map.mp hv
    obtain ⟨r, hr, -, hiff⟩ := findEntry_found hns ⟨rs.identityDigest, hns rs hrs⟩
    obtain ⟨rs', hrs', -⟩ := (hall ⟨rs.identityDigest, hns rs hrs⟩).mpr ⟨rs, hrs, rfl⟩
    rw [hr] at hrs'
    cases hrs'
    exact reaches_all.mp (hiff.mp rfl)
  · rintro ⟨rs, hrs, hd⟩
    obtain ⟨r, hr, hmem, -⟩ := findEntry_found hns d
    rw [hr] at hrs
    cases hrs
    exact ⟨rs, (hmem rs rfl).1, hd⟩
  · rintro ⟨rs, hrs, hd⟩
    obtain ⟨r, hr, hmem, hiff⟩ := findEntry_found hns d
    have hv : digestValue d.1 ∈ digestValues ns := hd ▸ List.mem_map_of_mem hrs
    obtain ⟨rs', rfl⟩ := Option.isSome_iff_exists.mp (hiff.mpr (reaches_all.mpr (hord _ hv)))
    exact ⟨rs', hr, (hmem rs' rfl).2⟩

end

/-- A relay whose identity digest is one byte, twenty times. -/
def relayAt (b : UInt8) : RouterInfo := { relayRecord ['r'] 9001 with identityDigest := ⟨List.replicate 20 b, rfl⟩ }

/-- What the relays upload, in the order given. -/
def uploaded (bs : List UInt8) : Text := (bs.map relayAt).flatMap RouterInfo.entry

theorem uploaded_accepted (bs : List UInt8) : ∃ ns, networkstatusParseVoteFromString rsa1024 (uploaded bs) .CONSENSUS = .ok ns ∧
    ns.routerstatusList = bs.map fun b => (relayAt b).status := by
  have hkey : ∃ k : rsa1024.Key, derFirst ++ List.replicate 128 0xd3 ++ derLast = rsa1024.asn1Encode k :=
    ⟨⟨List.replicate 128 0xd3, List.length_replicate, 0xd3, rfl, by decide⟩, rfl⟩
  obtain ⟨k, hk⟩ := hkey
  have hv : ∀ ri ∈ bs.map relayAt, ri.Valid rsa1024 := by
    intro ri hri
    obtain ⟨b, -, rfl⟩ := List.mem_map.mp hri
    exact ⟨show isLegalNickname ['r'] = true by decide, k, hk, rfl, rfl, rfl⟩
  rw [uploaded, networkstatusParse_eq, routerstatusLoop_entries rsa1024_lawful hv, List.map_map]
  exact ⟨_, rfl, rfl⟩

/-- Two relays in descending order: the second one is in the document and not found. -/
theorem a_relay_after_a_greater_one_is_not_found :
    ∃ ns, networkstatusParseVoteFromString rsa1024 (uploaded [2, 1]) .CONSENSUS = .ok ns ∧
      ¬ ((∃ rs, networkstatusVoteFindEntry ns ⟨List.replicate 20 1, rfl⟩ = some (some rs) ∧
            rs.identityDigest = List.replicate 20 1) ↔
          ∃ rs ∈ ns.routerstatusList, rs.identityDigest = List.replicate 20 1) := by
  obtain ⟨ns, hns, hlist⟩ := uploaded_accepted [2, 1]
  refine ⟨ns, hns, fun hiff => ?_⟩
  have hmiss : networkstatusVoteFindEntry ns ⟨List.replicate 20 1, rfl⟩ = some none := by
    unfold networkstatusVoteFindEntry smartlistBsearch smartlistBsearchIdx
    rw [hlist, if_neg (by simp), bsearchLoop]
    rfl
  obtain ⟨rs, hrs, -⟩ := hiff.mpr ⟨(relayAt 1).status, by rw [hlist]; simp, rfl⟩
  rw [hmiss] at hrs
  cases hrs

theorem lookup_complete_ascending :
    ∃ ns, networkstatusParseVoteFromString rsa1024 (uploaded [1, 2]) .CONSENSUS = .ok ns ∧
      ∀ d : BytesN DIGEST_LEN,
        (∃ rs, networkstatusVoteFindEntry ns d = some (some rs) ∧ rs.identityDigest = d.1) ↔
          ∃ rs ∈ ns.routerstatusList, rs.identityDigest = d.1 := by
  obtain ⟨ns, hns, hlist⟩ := uploaded_accepted [1, 2]
  refine ⟨ns, hns, (lookup_complete_iff rsa1024 _ ns hns).1.mpr (bisectOrdered_of_sorted ?_)⟩
  rw [digestValues, hlist]
  decide

/-! ## The copy into the next consensus -/

/-- `download_status_t`. -/
structure DownloadStatus where
  nextAttemptAt : Int := 0
  nDownloadFailures : UInt8 := 0
  nDownloadAttempts : UInt8 := 0
  schedule : UInt8 := 0
  wantAuthority : Bool := false
  incrementOn : Bool := false
  lastBackoffPosition : UInt8 := 0
  lastDelayUsed : Int := 0
  deriving DecidableEq, Repr

/-- An entry of a consensus in use, with what is learnt about the relay meanwhile. The
    reader leaves `descriptor_digest` as it allocates it. -/
structure ConsensusEntry where
  rs : RouterStatus
  descriptorDigest : Bytes := List.replicate DIGEST256_LEN 0
  lastDir503At : Int := 0
  dlStatus : DownloadStatus := {}
  deriving DecidableEq, Repr

variable (ns : NetworkStatus)

/-- The entries as the reader leaves them. -/
def freshEntries : List ConsensusEntry := ns.routerstatusList.map fun rs => { rs }

/-- The entries of the document with anything learnt about their relays. -/
def EntriesOf (entries : List ConsensusEntry) : Prop :=
  entries.map (·.rs) = ns.routerstatusList ∧ ∀ e ∈ entries, e.descriptorDigest = List.replicate DIGEST256_LEN 0

/-- The body of the join. -/
def copyEntryInfo (rsOld rsNew : ConsensusEntry) : ConsensusEntry :=
  let rsNew := { rsNew with lastDir503At := rsOld.lastDir503At }
  if rsOld.descriptorDigest = rsNew.descriptorDigest then { rsNew with dlStatus := rsOld.dlStatus } else rsNew

/-- For each entry of the new consensus, the old one the join comes to it with. -/
def consensusJoin (newC oldC : List ConsensusEntry) : List (Option ConsensusEntry × ConsensusEntry) :=
  foreachJoin (fun rsOld rsNew => torMemcmp rsOld.rs.identityDigest rsNew.rs.identityDigest DIGEST_LEN) oldC newC

/-- What becomes of an entry of the new consensus. -/
def copied (p : Option ConsensusEntry × ConsensusEntry) : ConsensusEntry := p.1.elim p.2 (copyEntryInfo · p.2)

/-- The two consensuses are two objects: the test `old_c == new_c` fails. -/
def networkstatusCopyOldConsensusInfo (newC : List ConsensusEntry) (oldC : Option (List ConsensusEntry)) :
    List ConsensusEntry :=
  match oldC with
  | none => newC
  | some oldC =>
    if oldC.length = 0 then newC
    else (consensusJoin newC oldC).map copied

/-- Each relay of both documents keeps what the old consensus knew, and is visited at one
    position of the new one. -/
def CopyComplete (old new : NetworkStatus) : Prop :=
  ∀ olds, EntriesOf old olds →
    (∀ rsNew ∈ networkstatusCopyOldConsensusInfo (freshEntries new) (some olds), ∀ rsOld ∈ olds,
      rsOld.rs.identityDigest = rsNew.rs.identityDigest → rsNew.lastDir503At = rsOld.lastDir503At) ∧
    (∀ d, (∃ rs ∈ old.routerstatusList, rs.identityDigest = d) → (∃ rs ∈ new.routerstatusList, rs.identityDigest = d) →
      ∃! k : Nat, ∃ rsOld rsNew : ConsensusEntry, (consensusJoin (freshEntries new) olds)[k]? = some (some rsOld, rsNew) ∧
        rsNew.rs.identityDigest = d)

/-- The number stands in the list once, after smaller numbers only. -/
def StandsOnce (l : List Nat) (v : Nat) : Prop := ∃ pre post, l = pre ++ v :: post ∧ (∀ x ∈ pre, x < v) ∧ v ∉ post

theorem standsOnce_split {pre post : List Nat} {v : Nat} (h : StandsOnce (pre ++ v :: post) v) :
    (∀ x ∈ pre, x < v) ∧ v ∉ post := by
  obtain ⟨pre', post', he, hlt, hpost⟩ := h
  have hpre : v ∉ pre' := fun hv => absurd (hlt v hv) (Nat.lt_irrefl v)
  obtain ⟨rfl, -, rfl⟩ := (List.append_cons_inj_of_notMem hpre hpost).mp he.symm
  exact ⟨hlt, hpost⟩

def ConsensusEntry.value (e : ConsensusEntry) : Nat := digestValue e.rs.identityDigest

section

variable {old new : NetworkStatus} {olds : List ConsensusEntry}

theorem EntriesOf.values (h : EntriesOf old olds) : olds.map ConsensusEntry.value = digestValues old := by
  unfold digestValues
  rw [← h.1, List.map_map]
  rfl

variable {e rsOld : ConsensusEntry} {pre post : List ConsensusEntry}

theorem EntriesOf.rs_mem (h : EntriesOf old olds) (he : e ∈ olds) : e.rs ∈ old.routerstatusList :=
  h.1 ▸ List.mem_map_of_mem he

theorem entriesOf_fresh (ns : NetworkStatus) : EntriesOf ns (freshEntries ns) := by
  unfold freshEntries
  refine ⟨by rw [List.map_map]; exact List.map_id _, fun e he => ?_⟩
  obtain ⟨rs, -, rfl⟩ := List.mem_map.mp he
  rfl

/-- Both documents have digests of 20 bytes. -/
structure Digests20 (old new : NetworkStatus) : Prop where
  old : ∀ rs ∈ old.routerstatusList, rs.identityDigest.length = DIGEST_LEN
  new : ∀ rs ∈ new.routerstatusList, rs.identityDigest.length = DIGEST_LEN

theorem value_inj {a b : ConsensusEntry} (ha : a.rs.identityDigest.length = DIGEST_LEN)
    (hb : b.rs.identityDigest.length = DIGEST_LEN) : a.value = b.value ↔ a.rs.identityDigest = b.rs.identityDigest :=
  (torMemcmp_iff ha hb).2.2.2

section

variable (h : Digests20 old new) (ho : EntriesOf old olds)
include h ho

theorem joinCompares_entries :
    JoinCompares (fun rsOld rsNew : ConsensusEntry => torMemcmp rsOld.rs.identityDigest rsNew.rs.identityDigest DIGEST_LEN)
      ConsensusEntry.value ConsensusEntry.value olds (freshEntries new) := by
  intro a ha b hb
  obtain ⟨h0, hneg, -, -⟩ := torMemcmp_iff (h.old _ (ho.rs_mem ha)) (h.new _ ((entriesOf_fresh new).rs_mem hb))
  exact ⟨h0, hneg⟩

theorem consensusJoin_at (he : freshEntries new = pre ++ e :: post) :
    (consensusJoin (freshEntries new) olds)[pre.length]? =
      some (joinMatch ConsensusEntry.value ConsensusEntry.value olds pre e, e) := by
  have hc := joinCompares_entries h ho
  rw [he] at hc
  unfold consensusJoin
  rw [he]
  exact foreachJoin_at hc

theorem consensusJoin_cases {k : Nat} {p : Option ConsensusEntry × ConsensusEntry}
    (hp : (consensusJoin (freshEntries new) olds)[k]? = some p) :
    ∃ pre e post, freshEntries new = pre ++ e :: post ∧ pre.length = k ∧
      p = (joinMatch ConsensusEntry.value ConsensusEntry.value olds pre e, e) := by
  have hsnd : (freshEntries new)[k]? = some p.2 := by
    rw [← foreachJoin_snd _ olds (freshEntries new), List.getElem?_map]
    exact congrArg _ hp
  obtain ⟨hlt, hget⟩ := List.getElem?_eq_some_iff.mp hsnd
  have hsplit : freshEntries new = (freshEntries new).take k ++ p.2 :: (freshEntries new).drop (k + 1) := by
    rw [← hget, List.getElem_cons_drop, List.take_append_drop]
  have hlen : ((freshEntries new).take k).length = k := by
    rw [List.length_take]
    omega
  have hat := consensusJoin_at h ho hsplit
  rw [hlen, hp] at hat
  exact ⟨_, _, _, hsplit, hlen, Option.some.inj hat⟩

end

/-- The old entry that a relay with one place in either document is matched with. -/
theorem joinMatch_standsOnce (ho : EntriesOf old olds)
    (he : freshEntries new = pre ++ e :: post) (hmem : rsOld ∈ olds) (hval : rsOld.value = e.value)
    (hold : StandsOnce (digestValues old) e.value) (hnew : StandsOnce (digestValues new) e.value) :
    joinMatch ConsensusEntry.value ConsensusEntry.value olds pre e = some rsOld := by
  obtain ⟨as, bs, hsplit⟩ := List.append_of_mem hmem
  rw [← ho.values, hsplit, List.map_append, List.map_cons, hval] at hold
  rw [← (entriesOf_fresh new).values, he, List.map_append, List.map_cons] at hnew
  have hlt := (standsOnce_split hold).1
  have hle := (standsOnce_split hnew).1
  refine joinMatch_eq_some.mpr ⟨fun p hp => ?_, hval, as, bs, hsplit, fun a ha => ?_⟩
  · exact Nat.le_of_lt (hle _ (List.mem_map_of_mem hp))
  · exact hlt _ (List.mem_map_of_mem ha)

@[simp] theorem copyEntryInfo_rs (a b : ConsensusEntry) : (copyEntryInfo a b).rs = b.rs := by
  unfold copyEntryInfo
  dsimp only
  split
  · rfl
  · rfl

@[simp] theorem copyEntryInfo_lastDir503At (a b : ConsensusEntry) :
    (copyEntryInfo a b).lastDir503At = a.lastDir503At := by
  unfold copyEntryInfo
  dsimp only
  split
  · rfl
  · rfl

theorem copied_rs (p : Option ConsensusEntry × ConsensusEntry) : (copied p).rs = p.2.rs := by
  rcases p with ⟨_ | x, e⟩
  · rfl
  · exact copyEntryInfo_rs x e

theorem copy_eq {news : List ConsensusEntry} (h : olds ≠ []) :
    networkstatusCopyOldConsensusInfo news (some olds) = (consensusJoin news olds).map copied := by
  simp [networkstatusCopyOldConsensusInfo, h]

/-! ## When the copy is complete -/

theorem copyComplete_of_standsOnce (h : Digests20 old new)
    (hc : ∀ v ∈ digestValues old, v ∈ digestValues new → StandsOnce (digestValues old) v ∧ StandsOnce (digestValues new) v) :
    CopyComplete old new := by
  intro olds ho
  have hfresh := entriesOf_fresh new
  have hmatch : ∀ {pre post : List ConsensusEntry} {e rsOld : ConsensusEntry}, freshEntries new = pre ++ e :: post →
      rsOld ∈ olds → rsOld.rs.identityDigest = e.rs.identityDigest →
      joinMatch ConsensusEntry.value ConsensusEntry.value olds pre e = some rsOld := by
    intro pre post e rsOld he hmem hd
    have hval : rsOld.value = e.value := congrArg digestValue hd
    have hv : e.value ∈ digestValues old := hval ▸ ho.values ▸ List.mem_map_of_mem hmem
    have hv' : e.value ∈ digestValues new := hfresh.values ▸ List.mem_map_of_mem (by rw [he]; simp)
    exact joinMatch_standsOnce ho he hmem hval (hc _ hv hv').1 (hc _ hv hv').2
  constructor
  · intro rsNew hnew rsOld hmem hd
    rw [copy_eq (List.ne_nil_of_mem hmem)] at hnew
    obtain ⟨p, hp, rfl⟩ := List.mem_map.mp hnew
    obtain ⟨k, hk⟩ := List.getElem?_of_mem hp
    obtain ⟨pre, e, post, he, -, rfl⟩ := consensusJoin_cases h ho hk
    rw [copied_rs] at hd
    rw [hmatch he hmem hd]
    exact copyEntryInfo_lastDir503At rsOld e
  · rintro d ⟨rs, hrs, rfl⟩ ⟨rs', hrs', hd⟩
    obtain ⟨rsOld, hmem, rfl⟩ := List.mem_map.mp (ho.1 ▸ hrs)
    obtain ⟨e, hemem, rfl⟩ := List.mem_map.mp (hfresh.1 ▸ hrs')
    obtain ⟨pre, post, he⟩ := List.append_of_mem hemem
    refine ⟨pre.length, ⟨rsOld, e, ?_, hd⟩, ?_⟩
    · rw [consensusJoin_at h ho he, hmatch he hmem hd.symm]
    · rintro k ⟨x, e', hk, hd'⟩
      obtain ⟨pre', e'', post', he', rfl, hp⟩ := consensusJoin_cases h ho hk
      obtain ⟨-, rfl⟩ := Prod.mk.inj hp
      -- the digest has one place in the new document
      have hv : e.value ∈ digestValues old := by
        rw [← ho.values, show e.value = rsOld.value from congrArg digestValue hd]
        exact List.mem_map_of_mem hmem
      have hv' : e.value ∈ digestValues new := hfresh.values ▸ List.mem_map_of_mem hemem
      have honce := (hc _ hv hv').2
      have hsplit : (pre.map ConsensusEntry.value) ++ e.value :: post.map ConsensusEntry.value =
          (pre'.map ConsensusEntry.value) ++ e.value :: post'.map ConsensusEntry.value := by
        have : e.value = e'.value := congrArg digestValue (hd.trans hd'.symm)
        nth_rewrite 2 [this]
        rw [← List.map_cons, ← List.map_cons, ← List.map_append, ← List.map_append, ← he, ← he']
      rw [← hfresh.values, he, List.map_append, List.map_cons] at honce
      obtain ⟨hlt, hpost⟩ := standsOnce_split honce
      rw [hsplit] at honce
      obtain ⟨hlt', hpost'⟩ := standsOnce_split honce
      have hnot : e.value ∉ pre'.map ConsensusEntry.value := fun hm => Nat.lt_irrefl _ (hlt' _ hm)
      have hpre := ((List.append_cons_inj_of_notMem hnot hpost').mp hsplit.symm).1
      simpa using congrArg List.length hpre

/-- The entries of a document, each with its position as the time of its last 503. -/
def numberedEntries : List ConsensusEntry :=
  ns.routerstatusList.mapIdx fun i rs => { rs, lastDir503At := i + 1 }

theorem entriesOf_numbered (ns : NetworkStatus) : EntriesOf ns (numberedEntries ns) := by
  unfold numberedEntries
  refine ⟨?_, fun e he => ?_⟩
  · apply List.ext_getElem?
    intro i
    rw [List.getElem?_map, List.getElem?_mapIdx, Option.map_map]
    exact congrFun Option.map_id _
  · obtain ⟨i, -, -, rfl⟩ := List.mem_mapIdx.mp he
    rfl

theorem numberedEntries_getElem? {ns : NetworkStatus} {i : Nat}
    (h : (numberedEntries ns)[i]? = some e) : e.lastDir503At = i + 1 := by
  unfold numberedEntries at h
  rw [List.getElem?_mapIdx] at h
  obtain ⟨rs, -, rfl⟩ := Option.map_eq_some_iff.mp h
  rfl

theorem numberedEntries_pos {ns : NetworkStatus} (h : e ∈ numberedEntries ns) : 0 < e.lastDir503At := by
  obtain ⟨i, hi⟩ := List.getElem?_of_mem h
  rw [numberedEntries_getElem? hi]
  omega

section

variable (h : Digests20 old new) (hc : CopyComplete old new)
include h hc

/-- A complete copy of numbered entries matches each relay of both documents, with an entry
    whose time every old entry of the relay has. -/
theorem matched_of_copyComplete (he : freshEntries new = pre ++ e :: post) (hmem : rsOld ∈ numberedEntries old)
    (hval : rsOld.value = e.value) :
    ∃ x, joinMatch ConsensusEntry.value ConsensusEntry.value (numberedEntries old) pre e = some x ∧
      ∀ o ∈ numberedEntries old, o.value = e.value → x.lastDir503At = o.lastDir503At := by
  have ho := entriesOf_numbered old
  have hemem : e ∈ freshEntries new := by rw [he]; simp
  have hres := List.mem_map_of_mem (f := copied) (List.mem_of_getElem? (consensusJoin_at h ho he))
  rw [← copy_eq (List.ne_nil_of_mem hmem)] at hres
  have hsame : ∀ o ∈ numberedEntries old, o.value = e.value →
      (copied (joinMatch ConsensusEntry.value ConsensusEntry.value (numberedEntries old) pre e, e)).lastDir503At =
        o.lastDir503At := by
    intro o hom hov
    refine (hc _ ho).1 _ hres o hom ?_
    rw [copied_rs]
    exact (value_inj (h.old _ (ho.rs_mem hom)) (h.new _ ((entriesOf_fresh new).rs_mem hemem))).mp hov
  cases hj : joinMatch ConsensusEntry.value ConsensusEntry.value (numberedEntries old) pre e with
  | none =>
    -- an entry that is not matched keeps the time 0
    have h0 := hsame rsOld hmem hval
    have hpos := numberedEntries_pos hmem
    obtain ⟨rs, -, rfl⟩ := List.mem_map.mp hemem
    rw [← h0, hj] at hpos
    exact absurd hpos (Int.lt_irrefl 0)
  | some x =>
    refine ⟨x, rfl, fun o hom hov => ?_⟩
    rw [← hsame o hom hov, hj]
    exact (copyEntryInfo_lastDir503At x e).symm

/-- A relay of both documents has one place in the new one. -/
theorem one_place_of_copyComplete (hmem : rsOld ∈ numberedEntries old) {pre' post' : List ConsensusEntry}
    {e' : ConsensusEntry} (he : freshEntries new = pre ++ e :: post) (hval : rsOld.value = e.value)
    (he' : freshEntries new = pre' ++ e' :: post') (hval' : rsOld.value = e'.value) : pre'.length = pre.length := by
  have ho := entriesOf_numbered old
  have hfresh := entriesOf_fresh new
  have hemem : e ∈ freshEntries new := by rw [he]; simp
  have hemem' : e' ∈ freshEntries new := by rw [he']; simp
  have hd : ∀ a ∈ freshEntries new, rsOld.value = a.value → a.rs.identityDigest = rsOld.rs.identityDigest :=
    fun a ha hav => (value_inj (h.new _ (hfresh.rs_mem ha)) (h.old _ (ho.rs_mem hmem))).mp hav.symm
  obtain ⟨x, hx, -⟩ := matched_of_copyComplete h hc he hmem hval
  obtain ⟨x', hx', -⟩ := matched_of_copyComplete h hc he' hmem hval'
  obtain ⟨k, -, huniq⟩ := (hc _ ho).2 rsOld.rs.identityDigest ⟨_, ho.rs_mem hmem, rfl⟩
    ⟨_, hfresh.rs_mem hemem, hd e hemem hval⟩
  have h1 := huniq _ ⟨x, e, by rw [consensusJoin_at h ho he, hx], hd e hemem hval⟩
  have h2 := huniq _ ⟨x', e', by rw [consensusJoin_at h ho he', hx'], hd e' hemem' hval'⟩
  exact h2.trans h1.symm

theorem standsOnce_of_copyComplete {v : Nat} (hv : v ∈ digestValues old) (hv' : v ∈ digestValues new) :
    StandsOnce (digestValues old) v ∧ StandsOnce (digestValues new) v := by
  have ho := entriesOf_numbered old
  have hfresh := entriesOf_fresh new
  rw [← ho.values] at hv
  rw [← hfresh.values] at hv'
  obtain ⟨rsOld, hmem, hval⟩ := List.mem_map.mp hv
  obtain ⟨e, hemem, rfl⟩ := List.mem_map.mp hv'
  obtain ⟨pre, post, he⟩ := List.append_of_mem hemem
  obtain ⟨x, hx, hsame⟩ := matched_of_copyComplete h hc he hmem hval
  obtain ⟨hle, hxv, as, bs, hsplit, has⟩ := joinMatch_eq_some.mp hx
  constructor
  · refine ⟨as.map ConsensusEntry.value, bs.map ConsensusEntry.value, ?_, ?_, fun hb => ?_⟩
    · rw [← ho.values, hsplit, List.map_append, List.map_cons, hxv]
    · intro y hy
      obtain ⟨a, ha, rfl⟩ := List.mem_map.mp hy
      exact has a ha
    · -- two old entries of the relay have two times
      obtain ⟨y, hy, hyv⟩ := List.mem_map.mp hb
      obtain ⟨j, hj⟩ := List.getElem?_of_mem hy
      have hxat : (numberedEntries old)[as.length]? = some x := by simp [hsplit]
      have hyat : (numberedEntries old)[as.length + (j + 1)]? = some y := by
        rw [hsplit, List.getElem?_append_right (by omega), Nat.add_sub_cancel_left, List.getElem?_cons_succ, hj]
      have heq := hsame y (List.mem_of_getElem? hyat) hyv
      rw [numberedEntries_getElem? hxat, numberedEntries_getElem? hyat] at heq
      omega
  · refine ⟨pre.map ConsensusEntry.value, post.map ConsensusEntry.value, ?_, ?_, fun hb => ?_⟩
    · rw [← hfresh.values, he, List.map_append, List.map_cons]
    · intro y hy
      obtain ⟨a, ha, rfl⟩ := List.mem_map.mp hy
      refine Nat.lt_of_le_of_ne (hle a ha) fun hav => ?_
      obtain ⟨as', bs', rfl⟩ := List.append_of_mem ha
      have he' : freshEntries new = as' ++ a :: (bs' ++ e :: post) := by rw [he]; simp
      have := one_place_of_copyComplete h hc hmem he hval he' (hval.trans hav.symm)
      rw [List.length_append, List.length_cons] at this
      omega
    · obtain ⟨a, ha, hav⟩ := List.mem_map.mp hb
      obtain ⟨as', bs', rfl⟩ := List.append_of_mem ha
      have he' : freshEntries new = (pre ++ e :: as') ++ a :: bs' := by rw [he]; simp
      have := one_place_of_copyComplete h hc hmem he hval he' (hval.trans hav.symm)
      rw [List.length_append, List.length_cons] at this
      omega

end

end

/-- Replacing an accepted document by an accepted document loses nothing exactly if every
    relay of both stands once in either, after smaller digests only. -/
theorem copy_complete_iff (rsa : Rsa) (sOld sNew : Text) (old new : NetworkStatus)
    (hold : networkstatusParseVoteFromString rsa sOld .CONSENSUS = .ok old)
    (hnew : networkstatusParseVoteFromString rsa sNew .CONSENSUS = .ok new) :
    CopyComplete old new ↔
      ∀ v ∈ digestValues old, v ∈ digestValues new → StandsOnce (digestValues old) v ∧ StandsOnce (digestValues new) v :=
  have h : Digests20 old new := ⟨accepted_digest hold, accepted_digest hnew⟩
  ⟨fun hc _ hv hv' => standsOnce_of_copyComplete h hc hv hv', copyComplete_of_standsOnce h⟩

/-- A document with two relays in descending order, replaced by itself. -/
theorem a_descending_pair_is_not_carried_over :
    ∃ ns, networkstatusParseVoteFromString rsa1024 (uploaded [2, 1]) .CONSENSUS = .ok ns ∧ ¬ CopyComplete ns ns := by
  obtain ⟨ns, hns, hlist⟩ := uploaded_accepted [2, 1]
  refine ⟨ns, hns, fun hc => ?_⟩
  have hvalues : digestValues ns = [digestValue (List.replicate 20 2)] ++ digestValue (List.replicate 20 1) :: [] := by
    rw [digestValues, hlist]
    rfl
  have hmem : digestValue (List.replicate 20 1) ∈ digestValues ns := by
    rw [hvalues]
    simp
  obtain ⟨honce, -⟩ := standsOnce_of_copyComplete ⟨accepted_digest hns, accepted_digest hns⟩ hc hmem hmem
  rw [hvalues] at honce
  exact absurd ((standsOnce_split honce).1 _ List.mem_cons_self) (by decide)

theorem copy_complete_ascending :
    ∃ old new, networkstatusParseVoteFromString rsa1024 (uploaded [1, 3]) .CONSENSUS = .ok old ∧
      networkstatusParseVoteFromString rsa1024 (uploaded [2, 3]) .CONSENSUS = .ok new ∧ CopyComplete old new := by
  obtain ⟨old, hold, holds⟩ := uploaded_accepted [1, 3]
  obtain ⟨new, hnew, hnews⟩ := uploaded_accepted [2, 3]
  refine ⟨old, new, hold, hnew, (copy_complete_iff rsa1024 _ _ old new hold hnew).mpr fun v hv hv' => ?_⟩
  rw [digestValues, holds] at hv
  rw [digestValues, hnews] at hv'
  have hboth : v = digestValue (List.replicate 20 3) := by
    rcases List.mem_pair.mp hv with rfl | rfl
    · exact absurd hv' (by decide)
    · rfl
  subst hboth
  constructor
  · exact ⟨[digestValue (List.replicate 20 1)], [], by rw [digestValues, holds]; rfl, by decide, by decide⟩
  · exact ⟨[digestValue (List.replicate 20 2)], [], by rw [digestValues, hnews]; rfl, by decide, by decide⟩

end Badnet.Nodelist
