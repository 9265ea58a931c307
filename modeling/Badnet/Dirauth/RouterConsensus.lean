/-
  Badnet.Dirauth.RouterConsensus — which of the entries that the votes have for one router goes into the consensus
  (`compute_routerstatus_consensus`).

  The entries are sorted and the runs of entries that compare equal are counted; the longest run wins, and of two the
  one that was published later. None of it depends on the order of the votes, or on where the sort puts entries that
  compare equal (`routerstatus_consensus_order_free`).
-/

import Badnet.Container.MostFrequent
import Badnet.Lib.Lexicographic
import Badnet.Net.AddressOrder
import Badnet.Nodelist.Networkstatus
import Badnet.Versions.VersionOrder

namespace Badnet.Dirauth

open Lib Encoding Dirparse Nodelist Net Protover Versions Container

/-- An entry of a vote, `vote_routerstatus_t`. -/
structure VoteRouterstatus where
  identityDigest : BytesN 20
  descriptorDigest : BytesN 20
  publishedOn : Int64
  nickname : Text
  ipv4Addr : TorAddr
  ipv4Orport : UInt16
  ipv4Dirport : UInt16
  ipv6Addr : TorAddr
  ipv6Orport : UInt16
  /-- The hash lines of the list `microdesc`. -/
  microdesc : List Text
  deriving DecidableEq

structure TorAddrPort where
  addr : TorAddr
  port : UInt16
  deriving DecidableEq

/-! ## The comparisons -/

/-- `CMP_FIELD(uint64_t, int64_t, published_on)`: the later one first, by the wrapped difference. -/
def cmpPublished (a b : VoteRouterstatus) : Int := (b.publishedOn - a.publishedOn).toInt.sign

/-- `CMP_FIELD(unsigned, int, ..)` of a port. -/
def cmpPort (a b : UInt16) : Int := (b.toUInt32 - a.toUInt32).toInt32.toInt.sign

def cmpIdentity (a b : VoteRouterstatus) : Int := Nodelist.torMemcmp a.identityDigest.1 b.identityDigest.1 20

def cmpDescriptor (a b : VoteRouterstatus) : Int := Nodelist.torMemcmp a.descriptorDigest.1 b.descriptorDigest.1 20

/-- The names are compared the other way around. -/
def cmpNickname (a b : VoteRouterstatus) : Int := strcmp b.nickname a.nickname

def cmpAddr (a b : VoteRouterstatus) : Int := torAddrCompare a.ipv4Addr b.ipv4Addr .CMP_EXACT

def compareVoteRs (a b : VoteRouterstatus) : Int :=
  if cmpIdentity a b ≠ 0 then cmpIdentity a b
  else if cmpDescriptor a b ≠ 0 then cmpDescriptor a b
  else if cmpPublished a b ≠ 0 then cmpPublished a b
  else if cmpNickname a b ≠ 0 then cmpNickname a b
  else if cmpAddr a b ≠ 0 then cmpAddr a b
  else if cmpPort a.ipv4Orport b.ipv4Orport ≠ 0 then cmpPort a.ipv4Orport b.ipv4Orport
  else cmpPort a.ipv4Dirport b.ipv4Dirport

def compareOrports (a b : TorAddrPort) : Int :=
  if torAddrCompare a.addr b.addr .CMP_EXACT ≠ 0 then torAddrCompare a.addr b.addr .CMP_EXACT
  else (b.port.toNat : Int) - a.port.toNat

/-- `compare_digests256_`. -/
def compareDigests256 (a b : BytesN 32) : Int := Nodelist.torMemcmp a.1 b.1 32

/-! ## The microdescriptor digest -/

/-- `strstr`: the text from the first place on where the other stands. -/
def strstr : Text → Text → Option Text
  | [], needle => if needle = [] then some [] else none
  | c :: s, needle => if needle.isPrefixOf (c :: s) then some (c :: s) else strstr s needle

/-- The text from the method on, if it is in the list of numbers at the start of the line. -/
def findMethod (mstr cp : Text) : Option Text :=
  let num := cp.takeWhile Char.isDigit
  if num = mstr then some cp
  else if num = [] ∨ cp[num.length]? ≠ some ',' then none
  else findMethod mstr (cp.drop (num.length + 1))
termination_by cp.length
decreasing_by
  next h =>
    have hsome : cp[(cp.takeWhile Char.isDigit).length]? = some ',' := not_not.mp fun hn => h (.inr hn)
    have hlen := (List.getElem?_eq_some_iff.mp hsome).1
    rw [List.length_drop]
    omega

/-- `vote_routerstatus_find_microdesc_hash` for SHA-256: the first line with the method decides. -/
def findMicrodescHash (vrs : VoteRouterstatus) (method : Nat) : Option (BytesN 32) := do
  let cp ← vrs.microdesc.findSome? (findMethod (decimal method))
  let cp ← strstr cp " sha256=".toList
  let digest ← digestFromBase64 32 ((cp.drop 8).take 43)
  if h : digest.length = 32 then some ⟨digest, h⟩ else none

/-! ## The consensus -/

/-- The scan: the winner so far with the length and the date of its run, and the run at hand. -/
structure RsScan where
  most : Option VoteRouterstatus
  mostN : Nat
  mostPublished : Int64
  cur : Option VoteRouterstatus
  curN : Nat

def RsScan.start : RsScan := { most := none, mostN := 0, mostPublished := 0, cur := none, curN := 0 }

/-- The run at hand is over. -/
def RsScan.settle (s : RsScan) : RsScan :=
  match s.cur with
  | none => s
  | some cur =>
    if s.curN > s.mostN ∨ (s.curN = s.mostN ∧ cur.publishedOn > s.mostPublished) then
      { s with most := some cur, mostN := s.curN, mostPublished := cur.publishedOn }
    else s

def RsScan.step (s : RsScan) (rs : VoteRouterstatus) : RsScan :=
  match s.cur with
  | none => { s with cur := some rs, curN := 1 }
  | some cur =>
    if compareVoteRs cur rs = 0 then { s with curN := s.curN + 1 } else { s.settle with cur := some rs, curN := 1 }

/-- The calls of `smartlist_sort`. Entries are sorted only if the comparison orders them. -/
structure Sorts where
  entries : List VoteRouterstatus → List VoteRouterstatus
  orports : List TorAddrPort → List TorAddrPort
  digests : List (BytesN 32) → List (BytesN 32)
  entries_sorted : IsQsort compareVoteRs entries
  orports_sorted : IsSort compareOrports orports
  digests_sorted : IsSort compareDigests256 digests

structure RouterConsensus where
  most : VoteRouterstatus
  bestAltOrport : Option TorAddrPort
  microdescDigest256 : Option (BytesN 32)

variable (most : VoteRouterstatus)

/-- The OR ports of the entries that are the same as the winner. -/
def altOrports (votes : List VoteRouterstatus) : List TorAddrPort :=
  votes.filterMap fun rs =>
    if compareVoteRs most rs = 0 ∧ ¬ torAddrIsNull rs.ipv6Addr ∧ rs.ipv6Orport ≠ 0 then
      some { addr := rs.ipv6Addr, port := rs.ipv6Orport }
    else none

def microdescDigests (method : Nat) (votes : List VoteRouterstatus) : List (BytesN 32) :=
  votes.filterMap fun rs => if compareVoteRs rs most ≠ 0 then none else findMicrodescHash rs method

/-- `none` is the assertion that there is a winner. -/
def computeRouterstatusConsensus (sorts : Sorts) (votes : List VoteRouterstatus) (method : Nat) :
    Option RouterConsensus := do
  let votes := sorts.entries votes
  let most ← (votes.foldl RsScan.step .start).settle.most
  some
    { most := most
      bestAltOrport := (smartlistGetMostFrequent compareOrports (sorts.orports (altOrports most votes))).1
      microdescDigest256 :=
        (smartlistGetMostFrequent compareDigests256 (sorts.digests (microdescDigests most method votes))).1 }

/-! ## The order of the entries -/

section
variable {a b : VoteRouterstatus} {D : VoteRouterstatus → Prop}

theorem cmpPort_eq (x y : UInt16) : cmpPort x y = ((y.toNat : Int) - x.toNat).sign := by
  have hx := x.toNat_lt
  have hy := y.toNat_lt
  have hint : ∀ u : UInt32, u.toInt32.toInt = (u.toNat : Int).bmod (2 ^ 32) := fun u =>
    BitVec.toInt_eq_toNat_bmod u.toBitVec
  have hdiff : ((y.toUInt32 - x.toUInt32).toNat : Int).bmod (2 ^ 32) = (y.toNat : Int) - x.toNat := by
    rw [UInt32.toNat_sub, UInt16.toNat_toUInt32, UInt16.toNat_toUInt32, Int.bmod_def]
    omega
  rw [cmpPort, hint, hdiff]

theorem cmpPort_totalPreorderOn (f : VoteRouterstatus → UInt16) : TotalPreorderOn D fun a b => cmpPort (f a) (f b) := by
  have hby : ComparesBy D (fun a b => cmpPort (f a) (f b)) fun a => -((f a).toNat : Int) := by
    intro a b _ _
    dsimp only
    rw [cmpPort_eq]
    exact ⟨Int.sign_neg_iff.trans (by omega), Int.sign_pos_iff.trans (by omega)⟩
  exact hby.totalPreorderOn (by omega)

theorem cmpPublished_totalPreorderOn
    (h : ∀ a b, D a → D b → a.publishedOn.toInt - b.publishedOn.toInt < 9223372036854775808) :
    TotalPreorderOn D cmpPublished := by
  have hby : ComparesBy D cmpPublished fun a => -a.publishedOn.toInt := by
    intro a b ha hb
    have hab := h a b ha hb
    have hba := h b a hb ha
    have hdiff : (b.publishedOn - a.publishedOn).toInt = b.publishedOn.toInt - a.publishedOn.toInt := by
      rw [Int64.toInt_sub, Int.bmod_eq_of_le (by omega) (by omega)]
    dsimp only
    rw [cmpPublished, hdiff]
    exact ⟨Int.sign_neg_iff.trans (by omega), Int.sign_pos_iff.trans (by omega)⟩
  exact hby.totalPreorderOn (by omega)

theorem digest_totalPreorderOn (f : VoteRouterstatus → BytesN 20) :
    TotalPreorderOn D fun a b => Nodelist.torMemcmp (f a).1 (f b).1 20 := by
  have hby : ComparesBy D (fun a b => Nodelist.torMemcmp (f a).1 (f b).1 20) fun a => digestValue (f a).1 := by
    intro a b _ _
    obtain ⟨-, hlt, hgt, -⟩ := torMemcmp_iff (f a).2 (f b).2
    exact ⟨hlt, hgt⟩
  exact hby.totalPreorderOn (by omega)

theorem cmpNickname_totalPreorderOn : TotalPreorderOn D cmpNickname where
  opposite a b _ _ := strcmp_totalPreorder.opposite b.nickname a.nickname trivial trivial
  trans _ _ _ _ _ _ hab hbc := strcmp_trans hbc hab

theorem cmpAddr_totalPreorderOn : TotalPreorderOn D cmpAddr := by
  have hby : ComparesBy D cmpAddr fun a => exactKey a.ipv4Addr := fun a b _ _ => exact_compares _ _
  exact hby.totalPreorderOn (by omega)

theorem compareVoteRs_eq : compareVoteRs = andThen cmpIdentity (andThen cmpDescriptor (andThen cmpPublished
    (andThen cmpNickname (andThen cmpAddr (andThen (fun a b => cmpPort a.ipv4Orport b.ipv4Orport)
      fun a b => cmpPort a.ipv4Dirport b.ipv4Dirport))))) :=
  rfl

/-- Entries with dates that are not too far apart are put in an order. -/
theorem compareVoteRs_totalPreorderOn
    (h : ∀ a b, D a → D b → a.publishedOn.toInt - b.publishedOn.toInt < 9223372036854775808) :
    TotalPreorderOn D compareVoteRs := by
  rw [compareVoteRs_eq]
  refine (digest_totalPreorderOn (·.identityDigest)).andThen fun _ _ => ?_
  refine (digest_totalPreorderOn (·.descriptorDigest)).andThen fun _ _ => ?_
  refine (cmpPublished_totalPreorderOn fun a b ha hb => h a b ha.1.1 hb.1.1).andThen fun _ _ => ?_
  refine cmpNickname_totalPreorderOn.andThen fun _ _ => ?_
  refine cmpAddr_totalPreorderOn.andThen fun _ _ => ?_
  exact (cmpPort_totalPreorderOn _).andThen fun _ _ => cmpPort_totalPreorderOn _

theorem andThen_eq_zero {α : Type} {c c' : α → α → Int} {x y : α} : andThen c c' x y = 0 ↔ c x y = 0 ∧ c' x y = 0 := by
  by_cases h : c x y = 0
  · rw [andThen_of_zero h]
    exact ⟨fun h' => ⟨h, h'⟩, fun h' => h'.2⟩
  · rw [andThen_of_ne h]
    exact ⟨fun h' => absurd h' h, fun h' => h'.1⟩

theorem exactKey_injective {x y : TorAddr} (h : exactKey x = exactKey y) : x = y := by
  have hcmp := exact_compares x y
  have hzero : torAddrCompare x y .CMP_EXACT = 0 := by
    have hlt := hcmp.1
    have hgt := hcmp.2
    omega
  cases x with
  | unspec =>
    cases y with
    | unspec => rfl
    | inet v | inet6 v => simp only [exactKey] at h; omega
  | inet u =>
    have hu := u.toNat_lt
    cases y with
    | unspec => simp only [exactKey] at h; omega
    | inet v =>
      simp only [exactKey] at h
      rw [UInt32.toNat_inj.mp (show u.toNat = v.toNat by omega)]
    | inet6 v => simp only [exactKey] at h; omega
  | inet6 u =>
    cases y with
    | unspec => simp only [exactKey] at h; omega
    | inet v =>
      have hv := v.toNat_lt
      simp only [exactKey] at h
      omega
    | inet6 v =>
      simp only [exactKey] at h
      have horders := @torMemcmp_orders u.toList v.toList (by rw [Vector.length_toList, Vector.length_toList])
      have hval : ofBE u.toList = ofBE v.toList := by
        rw [ipv6Value, ipv6Value] at h
        omega
      have hlt := horders.1
      have hgt := horders.2
      have hmem : Net.torMemcmp u.toList v.toList = 0 := by omega
      rw [torMemcmp_eq_zero (by rw [Vector.length_toList, Vector.length_toList])] at hmem
      rw [Vector.toList_inj.mp hmem]

theorem torAddrCompare_zero_iff {x y : TorAddr} : torAddrCompare x y .CMP_EXACT = 0 ↔ x = y := by
  have hcmp := exact_compares x y
  have hlt := hcmp.1
  have hgt := hcmp.2
  constructor
  · intro h
    exact exactKey_injective (by omega)
  · rintro rfl
    omega

theorem cmpPort_zero_iff {x y : UInt16} : cmpPort x y = 0 ↔ x = y := by
  rw [cmpPort_eq, Int.sign_eq_zero_iff_zero, ← UInt16.toNat_inj]
  omega

theorem cmpPublished_zero_iff : cmpPublished a b = 0 ↔ a.publishedOn = b.publishedOn := by
  rw [cmpPublished, Int.sign_eq_zero_iff_zero, ← Int64.toInt_zero, Int64.toInt_inj]
  constructor
  · intro h
    have hback := Int64.sub_add_cancel b.publishedOn a.publishedOn
    rw [h, Int64.zero_add] at hback
    exact hback
  · intro h
    rw [h, Int64.sub_self]

/-- Entries that compare equal are the same in every field that is compared. -/
theorem compareVoteRs_zero_iff : compareVoteRs a b = 0 ↔
    a.identityDigest = b.identityDigest ∧ a.descriptorDigest = b.descriptorDigest ∧ a.publishedOn = b.publishedOn ∧
    a.nickname = b.nickname ∧ a.ipv4Addr = b.ipv4Addr ∧ a.ipv4Orport = b.ipv4Orport ∧ a.ipv4Dirport = b.ipv4Dirport := by
  have hdigest : ∀ x y : BytesN 20, Nodelist.torMemcmp x.1 y.1 20 = 0 ↔ x = y := by
    intro x y
    obtain ⟨hzero, -, -, heq⟩ := torMemcmp_iff x.2 y.2
    rw [hzero, heq, Subtype.ext_iff]
  rw [compareVoteRs_eq, andThen_eq_zero, andThen_eq_zero, andThen_eq_zero, andThen_eq_zero, andThen_eq_zero,
    andThen_eq_zero, cmpPort_zero_iff, cmpPort_zero_iff, cmpPublished_zero_iff, cmpIdentity, cmpDescriptor, hdigest, hdigest,
    cmpNickname, strcmp_zero_iff, cmpAddr, torAddrCompare_zero_iff, eq_comm (a := b.nickname)]

end

/-! ## The scan -/

section
variable {key : VoteRouterstatus → Nat} {l done run : List VoteRouterstatus} {s : RsScan} {m x cur : VoteRouterstatus}

def multiplicity (key : VoteRouterstatus → Nat) (l : List VoteRouterstatus) (x : VoteRouterstatus) : Nat :=
  (l.map key).count (key x)

/-- `m` has a longer run than `x`, or one as long with a later date, or is before it. -/
def Beaten (key : VoteRouterstatus → Nat) (l : List VoteRouterstatus) (m x : VoteRouterstatus) : Prop :=
  multiplicity key l x < multiplicity key l m ∨
    (multiplicity key l x = multiplicity key l m ∧
      (x.publishedOn.toInt < m.publishedOn.toInt ∨ (x.publishedOn = m.publishedOn ∧ key m ≤ key x)))

/-- The winner among the runs that are over. -/
structure BestRun (key : VoteRouterstatus → Nat) (done : List VoteRouterstatus) (s : RsScan) (m : VoteRouterstatus) :
    Prop where
  mem : m ∈ done
  most : s.most = some m
  mostN : s.mostN = multiplicity key done m
  mostPublished : s.mostPublished = m.publishedOn
  best : ∀ x ∈ done, Beaten key done m x

/-- Where the scan stands: the runs in `done` are over, and `run` is at hand. -/
structure ScanAt (key : VoteRouterstatus → Nat) (done run : List VoteRouterstatus) (s : RsScan)
    (cur : VoteRouterstatus) : Prop where
  atHand : s.cur = some cur
  mem : cur ∈ run
  curN : s.curN = run.length
  same : ∀ x ∈ run, key x = key cur
  below : ∀ x ∈ done, key x < key cur
  best : (done = [] ∧ s.mostN = 0) ∨ ∃ m, BestRun key done s m

theorem multiplicity_run (h : ScanAt key done run s cur) (hx : x ∈ run) :
    multiplicity key (done ++ run) x = run.length := by
  have hnone : (done.map key).count (key cur) = 0 := by
    rw [List.count_eq_zero]
    intro hmem
    obtain ⟨y, hy, hkey⟩ := List.mem_map.mp hmem
    exact absurd hkey (h.below y hy).ne
  rw [multiplicity, count_keys_append h.same, h.same x hx, hnone, if_pos rfl, Nat.zero_add]

theorem multiplicity_done (h : ScanAt key done run s cur) (hx : x ∈ done) :
    multiplicity key (done ++ run) x = multiplicity key done x := by
  rw [multiplicity, count_keys_append h.same, if_neg (h.below x hx).ne, Nat.add_zero, multiplicity]

/-- When a run is over, it is the winner if it is longer, or as long and later. -/
theorem ScanAt.settle (h : ScanAt key done run s cur)
    (hdate : ∀ x ∈ run, x.publishedOn = cur.publishedOn) : ∃ m, BestRun key (done ++ run) s.settle m := by
  have hpos : 0 < run.length := List.length_pos_of_mem h.mem
  by_cases hbetter : s.curN > s.mostN ∨ (s.curN = s.mostN ∧ cur.publishedOn > s.mostPublished)
  · have hsettle : s.settle =
        { s with most := some cur, mostN := s.curN, mostPublished := cur.publishedOn } := by
      rw [RsScan.settle, h.atHand]
      exact if_pos hbetter
    rw [hsettle]
    refine ⟨cur, List.mem_append_right _ h.mem, rfl, ?_, rfl, fun x hx => ?_⟩
    · exact h.curN.trans (multiplicity_run h h.mem).symm
    · rw [Beaten, multiplicity_run h h.mem]
      rcases List.mem_append.mp hx with hx | hx
      · rw [multiplicity_done h hx]
        rcases h.best with ⟨rfl, -⟩ | ⟨m, hm⟩
        · cases hx
        · rw [h.curN, hm.mostN, hm.mostPublished, gt_iff_lt, gt_iff_lt, Int64.lt_iff_toInt_lt] at hbetter
          rcases hm.best x hx with hless | ⟨heq, hdate⟩
          · omega
          · rcases hbetter with hlong | ⟨hlen, hlate⟩
            · omega
            · refine .inr ⟨by omega, .inl ?_⟩
              rcases hdate with hlt | ⟨hsame, -⟩
              · omega
              · rw [hsame]
                exact hlate
      · rw [multiplicity_run h hx]
        exact .inr ⟨rfl, .inr ⟨hdate x hx, (h.same x hx).ge⟩⟩
  · have hsettle : s.settle = s := by
      rw [RsScan.settle, h.atHand]
      exact if_neg hbetter
    rw [hsettle]
    rw [h.curN] at hbetter
    rcases h.best with ⟨-, hzero⟩ | ⟨m, hm⟩
    · exact absurd (.inl (by omega)) hbetter
    · rw [hm.mostN, hm.mostPublished, gt_iff_lt, gt_iff_lt, Int64.lt_iff_toInt_lt] at hbetter
      refine ⟨m, List.mem_append_left _ hm.mem, hm.most, ?_, hm.mostPublished, fun x hx => ?_⟩
      · rw [multiplicity_done h hm.mem]
        exact hm.mostN
      · rw [Beaten, multiplicity_done h hm.mem]
        rcases List.mem_append.mp hx with hx | hx
        · rw [multiplicity_done h hx]
          exact hm.best x hx
        · rw [multiplicity_run h hx, hdate x hx, h.same x hx, ← Int64.toInt_inj]
          have hlt := h.below m hm.mem
          by_cases hlen : run.length < multiplicity key done m
          · exact .inl hlen
          · refine .inr ⟨by omega, ?_⟩
            by_cases hlate : cur.publishedOn.toInt < m.publishedOn.toInt
            · exact .inl hlate
            · exact .inr ⟨by omega, hlt.le⟩

/-- One more entry. -/
theorem ScanAt.step (h : ScanAt key done run s cur) (hdate : ∀ x ∈ run, x.publishedOn = cur.publishedOn)
    (hzero : compareVoteRs cur x = 0 ↔ key cur = key x) (hle : key cur ≤ key x) :
    ∃ done' run' cur', done' ++ run' = done ++ run ++ [x] ∧ ScanAt key done' run' (s.step x) cur' := by
  by_cases hsame : compareVoteRs cur x = 0
  · have hstep : s.step x = { s with curN := s.curN + 1 } := by
      rw [RsScan.step, h.atHand]
      exact if_pos hsame
    refine ⟨done, run ++ [x], cur, (List.append_assoc ..).symm, ?_⟩
    rw [hstep]
    refine ⟨h.atHand, List.mem_append_left _ h.mem, ?_, fun y hy => ?_, h.below, ?_⟩
    · rw [List.length_append, List.length_singleton, ← h.curN]
    · rcases List.mem_append.mp hy with hy | hy
      · exact h.same y hy
      · rw [List.mem_singleton.mp hy]
        exact (hzero.mp hsame).symm
    · rcases h.best with hnone | ⟨m, hm⟩
      · exact .inl hnone
      · exact .inr ⟨m, hm.mem, hm.most, hm.mostN, hm.mostPublished, hm.best⟩
  · have hlt : key cur < key x := lt_of_le_of_ne hle fun heq => hsame (hzero.mpr heq)
    have hstep : s.step x = { s.settle with cur := some x, curN := 1 } := by
      rw [RsScan.step, h.atHand]
      exact if_neg hsame
    obtain ⟨m, hm⟩ := h.settle hdate
    refine ⟨done ++ run, [x], x, rfl, ?_⟩
    rw [hstep]
    refine ⟨rfl, List.mem_singleton_self x, rfl, fun y hy => by rw [List.mem_singleton.mp hy], fun y hy => ?_,
      .inr ⟨m, hm.mem, hm.most, hm.mostN, hm.mostPublished, hm.best⟩⟩
    rcases List.mem_append.mp hy with hy | hy
    · exact (h.below y hy).trans hlt
    · rw [h.same y hy]
      exact hlt

/-- What the comparison says about the members of a list, by a key. -/
structure KeyOn (key : VoteRouterstatus → Nat) (l : List VoteRouterstatus) : Prop where
  le_iff : ∀ x ∈ l, ∀ y ∈ l, compareVoteRs x y ≤ 0 ↔ key x ≤ key y
  zero_iff : ∀ x ∈ l, ∀ y ∈ l, compareVoteRs x y = 0 ↔ key x = key y

theorem KeyOn.date (hkey : KeyOn key l) (hx : x ∈ l) (hm : m ∈ l) (h : key x = key m) : x.publishedOn = m.publishedOn :=
  (compareVoteRs_zero_iff.mp ((hkey.zero_iff x hx m hm).mpr h)).2.2.1

/-- The rest of the scan. -/
theorem scan_from (hkey : KeyOn key l) (hsorted : l.Pairwise fun x y => key x ≤ key y) (rest : List VoteRouterstatus)
    (hl : done ++ run ++ rest = l) (h : ScanAt key done run s cur) :
    ∃ m, BestRun key l (rest.foldl RsScan.step s).settle m := by
  have hmem : ∀ x ∈ done ++ run, x ∈ l := fun x hx => hl ▸ List.mem_append_left rest hx
  have hcur : cur ∈ l := hmem cur (List.mem_append_right done h.mem)
  have hdate : ∀ x ∈ run, x.publishedOn = cur.publishedOn := fun x hx =>
    hkey.date (hmem x (List.mem_append_right done hx)) hcur (h.same x hx)
  induction rest generalizing done run s cur with
  | nil =>
    rw [List.append_nil] at hl
    rw [← hl]
    exact h.settle hdate
  | cons x rest ih =>
    have hx : x ∈ l := hl ▸ List.mem_append_right _ List.mem_cons_self
    have hle : key cur ≤ key x := by
      rw [← hl] at hsorted
      exact (List.pairwise_append.mp hsorted).2.2 cur (List.mem_append_right done h.mem) x List.mem_cons_self
    obtain ⟨done', run', cur', happ, hnext⟩ := h.step hdate (hkey.zero_iff cur hcur x hx) hle
    have hl' : done' ++ run' ++ rest = l := by
      rw [happ, List.append_assoc]
      exact hl
    have hmem' : ∀ y ∈ done' ++ run', y ∈ l := fun y hy => hl' ▸ List.mem_append_left rest hy
    have hcur' : cur' ∈ l := hmem' cur' (List.mem_append_right done' hnext.mem)
    exact ih hl' hnext hmem' hcur' fun y hy => hkey.date (hmem' y (List.mem_append_right done' hy)) hcur' (hnext.same y hy)

theorem scan_spec (hkey : KeyOn key l) (hsorted : l.Pairwise fun x y => key x ≤ key y) (hne : l ≠ []) :
    ∃ m, BestRun key l (l.foldl RsScan.step .start).settle m := by
  obtain ⟨x, rest, rfl⟩ := List.exists_cons_of_ne_nil hne
  refine @scan_from key (x :: rest) [] [x] _ x hkey hsorted rest rfl
    ⟨rfl, List.mem_singleton_self x, rfl, fun y hy => by rw [List.mem_singleton.mp hy], fun y hy => ?_, .inl ⟨rfl, rfl⟩⟩
  cases hy

end

/-! ## The winner -/

section
variable {votes votes' : List VoteRouterstatus} {r r' : VoteRouterstatus}

/-- How many of the entries compare equal to one of them. -/
def votesForEntry (votes : List VoteRouterstatus) (r : VoteRouterstatus) : Nat :=
  votes.countP fun x => compareVoteRs r x = 0

/-- The entry of the consensus: the most votes, then the latest date, then the smallest descriptor digest. -/
structure IsConsensusEntry (votes : List VoteRouterstatus) (r : VoteRouterstatus) : Prop where
  mem : r ∈ votes
  most : ∀ x ∈ votes, votesForEntry votes x ≤ votesForEntry votes r
  latest : ∀ x ∈ votes, votesForEntry votes x = votesForEntry votes r → x.publishedOn.toInt ≤ r.publishedOn.toInt
  smallest : ∀ x ∈ votes, votesForEntry votes x = votesForEntry votes r → x.publishedOn = r.publishedOn →
    digestValue r.descriptorDigest.1 ≤ digestValue x.descriptorDigest.1

/-- No entry wins over it, in the whole order. -/
def Unbeaten (votes : List VoteRouterstatus) (r : VoteRouterstatus) : Prop :=
  r ∈ votes ∧ ∀ x ∈ votes, votesForEntry votes x < votesForEntry votes r ∨
    (votesForEntry votes x = votesForEntry votes r ∧
      (x.publishedOn.toInt < r.publishedOn.toInt ∨ (x.publishedOn = r.publishedOn ∧ compareVoteRs r x ≤ 0)))

variable {l : List VoteRouterstatus}

theorem rank_keyOn (h : TotalPreorderOn (· ∈ l) compareVoteRs) : KeyOn (rankIn compareVoteRs l) l := by
  have hle : ∀ x ∈ l, ∀ y ∈ l, compareVoteRs x y ≤ 0 ↔ rankIn compareVoteRs l x ≤ rankIn compareVoteRs l y :=
    fun x hx y hy => rankIn_le_iff h (fun _ hz => hz) hx hy
  refine ⟨hle, fun x hx y hy => ?_⟩
  have hxy := hle x hx y hy
  have hyx := hle y hy x hx
  have hopp := sign_opposite_iff.mp (h.opposite x y hx hy)
  omega

theorem multiplicity_eq {key : VoteRouterstatus → Nat} (h : KeyOn key l) (hr : r ∈ l) :
    multiplicity key l r = votesForEntry l r := by
  rw [multiplicity, List.count, List.countP_map, votesForEntry]
  refine List.countP_congr fun x hx => ?_
  rw [Function.comp_apply, beq_iff_eq, decide_eq_true_eq, h.zero_iff r hr x hx, eq_comm]

theorem votesForEntry_perm (h : votes.Perm votes') (r : VoteRouterstatus) :
    votesForEntry votes r = votesForEntry votes' r := h.countP_eq _

theorem Unbeaten.perm (h : Unbeaten votes r) (hperm : votes.Perm votes') : Unbeaten votes' r := by
  refine ⟨hperm.mem_iff.mp h.1, fun x hx => ?_⟩
  rw [← votesForEntry_perm hperm, ← votesForEntry_perm hperm]
  exact h.2 x (hperm.mem_iff.mpr hx)

/-- The scan of the sorted entries finds an entry that is not beaten. -/
theorem scan_unbeaten (h : TotalPreorderOn (· ∈ l) compareVoteRs)
    (hsorted : l.Pairwise fun x y => compareVoteRs x y ≤ 0) (hne : l ≠ []) :
    ∃ r, (l.foldl RsScan.step .start).settle.most = some r ∧ Unbeaten l r := by
  have hkey := rank_keyOn h
  obtain ⟨r, hr⟩ := scan_spec hkey (hsorted.imp_of_mem fun {x y} hx hy => (hkey.le_iff x hx y hy).mp) hne
  refine ⟨r, hr.most, hr.mem, fun x hx => ?_⟩
  rw [← multiplicity_eq hkey hx, ← multiplicity_eq hkey hr.mem, hkey.le_iff r hr.mem x hx]
  exact hr.best x hx

theorem Unbeaten.unique (h : TotalPreorderOn (· ∈ votes) compareVoteRs) (hr : Unbeaten votes r) (hr' : Unbeaten votes r') :
    compareVoteRs r r' = 0 := by
  have hopp := sign_opposite_iff.mp (h.opposite r r' hr.1 hr'.1)
  rcases hr.2 r' hr'.1 with hless | ⟨heq, hdate⟩
  · rcases hr'.2 r hr.1 with hless' | ⟨heq', -⟩ <;> omega
  · rcases hr'.2 r hr.1 with hless' | ⟨-, hdate'⟩
    · omega
    · rcases hdate with hlt | ⟨hsame, hle⟩
      · rcases hdate' with hlt' | ⟨hsame', -⟩
        · omega
        · rw [hsame'] at hlt
          exact absurd hlt (Int.lt_irrefl _)
      · rcases hdate' with hlt' | ⟨-, hle'⟩
        · rw [hsame] at hlt'
          exact absurd hlt' (Int.lt_irrefl _)
        · omega

theorem Unbeaten.isConsensusEntry (hid : ∀ a ∈ votes, ∀ b ∈ votes, a.identityDigest = b.identityDigest)
    (h : Unbeaten votes r) : IsConsensusEntry votes r where
  mem := h.1
  most x hx := by
    rcases h.2 x hx with hless | ⟨heq, -⟩ <;> omega
  latest x hx hvotes := by
    rcases h.2 x hx with hless | ⟨-, hlt | ⟨hsame, -⟩⟩
    · omega
    · omega
    · exact Int.le_of_eq (congrArg Int64.toInt hsame)
  smallest x hx hvotes hdate := by
    rcases h.2 x hx with hless | ⟨-, hlt | ⟨-, hle⟩⟩
    · omega
    · rw [hdate] at hlt
      exact absurd hlt (Int.lt_irrefl _)
    · obtain ⟨hzero, -, -, -⟩ := torMemcmp_iff r.identityDigest.2 x.identityDigest.2
      obtain ⟨-, -, hgt, -⟩ := torMemcmp_iff r.descriptorDigest.2 x.descriptorDigest.2
      have hident : cmpIdentity r x = 0 := hzero.mpr (by rw [hid r h.1 x hx])
      rw [compareVoteRs_eq, andThen_of_zero hident] at hle
      by_contra hnot
      have hpos : 0 < cmpDescriptor r x := hgt.mpr (Nat.not_le.mp hnot)
      rw [andThen_of_ne (Int.ne_of_gt hpos)] at hle
      omega

end

/-! ## The port and the digest -/

section
variable {α : Type} {compare : α → α → Int} {key : α → Nat} {l l' : List α} {sort sort' : List α → List α}

/-- The member that appears most, when a member is given by its key. -/
theorem mostFrequent_order_free (hcompares : ∀ x y, Orders (compare x y) (key x) (key y)) (hinj : ∀ x y, key x = key y → x = y)
    (hsort : IsSort compare sort) (hsort' : IsSort compare sort') (hperm : l.Perm l') :
    (smartlistGetMostFrequent compare (sort l)).1 = (smartlistGetMostFrequent compare (sort' l')).1 := by
  have hcmp : Compares compare key := fun x y => (hcompares x y).le_iff.trans Nat.not_lt
  have hzero : ∀ x y, compare x y = 0 ↔ key x = key y := by
    intro x y
    have hlt := (hcompares x y).1
    have hgt := (hcompares x y).2
    omega
  by_cases hne : l = []
  · subst hne
    rw [List.nil_perm.mp hperm.symm.symm, List.perm_nil.mp (hsort []).perm, List.perm_nil.mp (hsort' []).perm]
  · have hnil : sort l ≠ [] := fun h => hne (List.nil_perm.mp (h ▸ (hsort l).perm))
    have hnil' : sort' l' ≠ [] := fun h =>
      hne (List.perm_nil.mp (hperm.trans (h ▸ (hsort' l').perm.symm)))
    obtain ⟨r, n, hr, hfreq⟩ := smartlistGetMostFrequent_spec hzero hnil ((hsort l).keys hcmp)
    obtain ⟨r', n', hr', hfreq'⟩ := smartlistGetMostFrequent_spec hzero hnil' ((hsort' l').keys hcmp)
    obtain ⟨hkey, -⟩ := hfreq.unique hfreq' ((hsort l).perm.trans (hperm.trans (hsort' l').perm.symm))
    rw [hr, hr', hinj r r' hkey]

end

/-- An OR port as a number, in the order of `compare_orports_`. -/
def orportKey (ap : TorAddrPort) : Nat := exactKey ap.addr * 65536 + (65535 - ap.port.toNat)

theorem compareOrports_orders (a b : TorAddrPort) : Orders (compareOrports a b) (orportKey a) (orportKey b) := by
  have hcmp := exact_compares a.addr b.addr
  have hlt := hcmp.1
  have hgt := hcmp.2
  have ha := a.port.toNat_lt
  have hb := b.port.toNat_lt
  rw [compareOrports, Orders, orportKey, orportKey]
  by_cases h : torAddrCompare a.addr b.addr .CMP_EXACT = 0
  · rw [if_neg (not_not_intro h)]
    omega
  · rw [if_pos h]
    omega

theorem orportKey_injective (a b : TorAddrPort) (h : orportKey a = orportKey b) : a = b := by
  have ha := a.port.toNat_lt
  have hb := b.port.toNat_lt
  rw [orportKey, orportKey] at h
  obtain ⟨addr, port⟩ := a
  obtain ⟨addr', port'⟩ := b
  dsimp only at h ha hb
  obtain rfl := exactKey_injective (show exactKey addr = exactKey addr' by omega)
  obtain rfl := UInt16.toNat_inj.mp (show port.toNat = port'.toNat by omega)
  rfl

theorem compareDigests256_orders (a b : BytesN 32) : Orders (compareDigests256 a b) (digestValue a.1) (digestValue b.1) := by
  obtain ⟨-, hlt, hgt, -⟩ := torMemcmp_iff a.2 b.2
  exact ⟨hlt, hgt⟩

theorem digestValue_injective (a b : BytesN 32) (h : digestValue a.1 = digestValue b.1) : a = b := by
  obtain ⟨-, -, -, heq⟩ := torMemcmp_iff a.2 b.2
  exact Subtype.ext (heq.mp h)

/-- The entries that are the same as one of two that compare equal. -/
theorem same_entries {r r' : VoteRouterstatus} (h : compareVoteRs r r' = 0) (x : VoteRouterstatus) :
    compareVoteRs r x = 0 ↔ compareVoteRs r' x = 0 := by
  rw [compareVoteRs_zero_iff] at h ⊢
  rw [compareVoteRs_zero_iff]
  obtain ⟨h1, h2, h3, h4, h5, h6, h7⟩ := h
  rw [h1, h2, h3, h4, h5, h6, h7]

theorem compareVoteRs_zero_comm (a b : VoteRouterstatus) : compareVoteRs a b = 0 ↔ compareVoteRs b a = 0 := by
  rw [compareVoteRs_zero_iff, compareVoteRs_zero_iff]
  constructor <;> rintro ⟨h1, h2, h3, h4, h5, h6, h7⟩ <;>
    exact ⟨h1.symm, h2.symm, h3.symm, h4.symm, h5.symm, h6.symm, h7.symm⟩

/-! ## The consensus of the votes -/

/-- The consensus on one router exists, its entry has the most votes, then the latest date, then the smallest digest,
and for any order of the votes and any sort it is the same, up to what is not compared. -/
theorem routerstatus_consensus_order_free (sorts : Sorts) (method : Nat) {votes : List VoteRouterstatus} (hne : votes ≠ [])
    (hid : ∀ a ∈ votes, ∀ b ∈ votes, a.identityDigest = b.identityDigest)
    (hdates : ∀ a ∈ votes, ∀ b ∈ votes, a.publishedOn.toInt - b.publishedOn.toInt < 9223372036854775808) :
    ∃ c, computeRouterstatusConsensus sorts votes method = some c ∧ IsConsensusEntry votes c.most ∧
      ∀ (sorts' : Sorts) (votes' : List VoteRouterstatus), votes.Perm votes' →
        ∃ c', computeRouterstatusConsensus sorts' votes' method = some c' ∧ compareVoteRs c.most c'.most = 0 ∧
          c'.bestAltOrport = c.bestAltOrport ∧ c'.microdescDigest256 = c.microdescDigest256 := by
  have htotal : TotalPreorderOn (· ∈ votes) compareVoteRs :=
    compareVoteRs_totalPreorderOn fun a b ha hb => hdates a ha b hb
  -- what any of the calls comes to
  have hcall : ∀ (sorts' : Sorts) (votes' : List VoteRouterstatus), votes.Perm votes' →
      ∃ r, Unbeaten votes r ∧ computeRouterstatusConsensus sorts' votes' method = some
        { most := r
          bestAltOrport :=
            (smartlistGetMostFrequent compareOrports (sorts'.orports (altOrports r (sorts'.entries votes')))).1
          microdescDigest256 := (smartlistGetMostFrequent compareDigests256
            (sorts'.digests (microdescDigests r method (sorts'.entries votes')))).1 } := by
    intro sorts' votes' hperm
    have hsorted := sorts'.entries_sorted votes' (htotal.mono fun x hx => hperm.mem_iff.mpr hx)
    have hperm' : votes.Perm (sorts'.entries votes') := hperm.trans hsorted.perm.symm
    obtain ⟨r, hr, hbest⟩ := scan_unbeaten (htotal.mono fun x hx => hperm'.mem_iff.mpr hx) hsorted.ordered fun hnil =>
      hne (List.perm_nil.mp (hnil ▸ hperm'))
    refine ⟨r, hbest.perm hperm'.symm, ?_⟩
    rw [computeRouterstatusConsensus, hr]
    rfl
  obtain ⟨r, hbest, hcompute⟩ := hcall sorts votes (List.Perm.refl votes)
  refine ⟨_, hcompute, hbest.isConsensusEntry hid, fun sorts' votes' hperm => ?_⟩
  obtain ⟨r', hbest', hcompute'⟩ := hcall sorts' votes' hperm
  have hsame := hbest.unique htotal hbest'
  have hentries : (sorts'.entries votes').Perm (sorts.entries votes) :=
    (sorts'.entries_sorted votes' (htotal.mono fun x hx => hperm.mem_iff.mpr hx)).perm.trans
      (hperm.symm.trans (sorts.entries_sorted votes htotal).perm.symm)
  refine ⟨_, hcompute', hsame, ?_, ?_⟩
  · apply mostFrequent_order_free compareOrports_orders orportKey_injective sorts'.orports_sorted sorts.orports_sorted
    have hports : altOrports r' (sorts'.entries votes') = altOrports r (sorts'.entries votes') := by
      simp only [altOrports, same_entries hsame]
    rw [hports]
    exact hentries.filterMap _
  · apply mostFrequent_order_free compareDigests256_orders digestValue_injective sorts'.digests_sorted sorts.digests_sorted
    have hdigests : microdescDigests r' method (sorts'.entries votes') = microdescDigests r method (sorts'.entries votes') := by
      simp only [microdescDigests, ne_eq, compareVoteRs_zero_comm _ r', compareVoteRs_zero_comm _ r, same_entries hsame]
    rw [hdigests]
    exact hentries.filterMap _

def someSorts : Sorts where
  entries := rankSort compareVoteRs
  orports := List.insertionSort fun x y => compareOrports x y ≤ 0
  digests := List.insertionSort fun x y => compareDigests256 x y ≤ 0
  entries_sorted := rankSort_isQsort compareVoteRs
  orports_sorted := @insertionSort_isSort _ _ _ _ orportKey _ fun x y =>
    (compareOrports_orders x y).le_iff.trans Nat.not_lt
  digests_sorted := @insertionSort_isSort _ _ _ _ (fun d => digestValue d.1) _ fun x y =>
    (compareDigests256_orders x y).le_iff.trans Nat.not_lt

theorem twenty_bytes (byte : UInt8) : (List.replicate 20 byte).length = 20 := List.length_replicate

/-- An entry as it would be published at a time, with a descriptor digest of one byte twenty times. -/
def sampleEntry (byte : UInt8) (publishedOn : Int64) : VoteRouterstatus where
  identityDigest := ⟨List.replicate 20 7, List.length_replicate⟩
  descriptorDigest := ⟨List.replicate 20 byte, twenty_bytes byte⟩
  publishedOn := publishedOn
  nickname := "relay".toList
  ipv4Addr := .inet 0x01020304
  ipv4Orport := 9001
  ipv4Dirport := 0
  ipv6Addr := .unspec
  ipv6Orport := 0
  microdesc := []

def sampleEntries : List VoteRouterstatus := [sampleEntry 2 100, sampleEntry 1 100, sampleEntry 1 90]

theorem sample_consensus_order_free :
    ∃ c, computeRouterstatusConsensus someSorts sampleEntries 28 = some c ∧ IsConsensusEntry sampleEntries c.most ∧
      ∀ (sorts' : Sorts) (votes' : List VoteRouterstatus), sampleEntries.Perm votes' →
        ∃ c', computeRouterstatusConsensus sorts' votes' 28 = some c' ∧ compareVoteRs c.most c'.most = 0 ∧
          c'.bestAltOrport = c.bestAltOrport ∧ c'.microdescDigest256 = c.microdescDigest256 :=
  routerstatus_consensus_order_free someSorts 28 (by decide) (by decide) (by decide)

end Badnet.Dirauth
