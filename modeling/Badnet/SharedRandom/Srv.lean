/-
  Badnet.SharedRandom.Srv — the shared random value of a protocol run (`sr_compute_srv`).

  The reveals are hashed one after another, in the order of their hashes; the commits come from a map in whatever order
  it has them. So the value is determined if and only if no two recognized authorities revealed to equal hashes
  (`srv_order_free_iff`, as far as SHA3-256 has no collisions). An authority that repeats the commitment and then the
  reveal of another one is accepted (`a_repeated_commitment_leaves_the_value_open`).
-/

import Badnet.SharedRandom.Commits
import Badnet.Nodelist.Networkstatus
import Badnet.Lib.Sorting
import Mathlib.Data.List.Permutation

namespace Badnet.SharedRandom

open Lib Encoding Dirparse Nodelist

/-- `sr_srv_t`. -/
structure SrSrv where
  numReveals : UInt64
  value : Digest256
  deriving DecidableEq

def getSrvElementFromCommit (commit : SrCommit) : Option Text :=
  if ¬ commit.hasRevealValue then none else some (commit.rsaIdentityHex ++ commit.encodedReveal)

def SR_SRV_TOKEN : Text := "shared-random".toList

/-- The message of `generate_srv`; its last part stays zero without a previous value. -/
def srvMessage (hashedReveals : Digest256) (revealNum : UInt64) (previousSrv : Option SrSrv) : Bytes :=
  textBytes SR_SRV_TOKEN ++ toBE 8 revealNum.toNat ++ toBE 4 SR_PROTO_VERSION ++ hashedReveals.1 ++
    ((previousSrv.map (·.value)).getD (zeroBytes 32)).1

def generateSrv (sha3 : Bytes → Digest256) (hashedReveals : Digest256) (revealNum : UInt64)
    (previousSrv : Option SrSrv) : SrSrv :=
  { value := sha3 (srvMessage hashedReveals revealNum previousSrv), numReveals := revealNum }

/-- `fast_memcmp` of the hashes; its sign is that of `tor_memcmp`. -/
def compareReveal (a b : SrCommit) : Int := torMemcmp a.hashedReveal.1 b.hashedReveal.1 32

/-- The elements in the order in which they are hashed; `sort` is `smartlist_sort`, `commits` the map in the order of its
    iteration. -/
def srvElements (sort : List SrCommit → List SrCommit) (trusteddirserver : Identity → Bool) (commits : List SrCommit) :
    List Text :=
  (sort (commits.filter fun c => trusteddirserver c.rsaIdentity)).filterMap getSrvElementFromCommit

/-- None is a failed assertion, an inner none is no value, as in the commit phase. -/
def srComputeSrv (sha3 : Bytes → Digest256) (sort : List SrCommit → List SrCommit) (trusteddirserver : Identity → Bool)
    (phase : SrPhase) (commits : List SrCommit) (previousSrv : Option SrSrv) : Option (Option SrSrv) :=
  if phase ≠ .REVEAL then some none
  else if ¬ commits.all (·.valid) then none
  else
    let chunks := srvElements sort trusteddirserver commits
    some (some (generateSrv sha3 (sha3 (textBytes chunks.flatten)) (UInt64.ofNat chunks.length) previousSrv))

/-! ## Orders -/

variable {sha3 : Bytes → Digest256} {known : Identity → Bool} {s : SrState} {prev : Option SrSrv}
  {sort sort' : List SrCommit → List SrCommit} {order order' : List SrCommit} {c c' : SrCommit}

/-- The hash of a reveal as a number. -/
def SrCommit.key (c : SrCommit) : Nat := digestValue c.hashedReveal.1

theorem compareReveal_compares : Compares compareReveal SrCommit.key := by
  intro a b
  obtain ⟨heq, hlt, -, -⟩ := torMemcmp_iff a.hashedReveal.2 b.hashedReveal.2
  rw [Nat.le_iff_lt_or_eq, SrCommit.key, SrCommit.key, ← hlt, ← heq]
  exact Int.le_iff_lt_or_eq

theorem key_eq_iff : c.key = c'.key ↔ c.hashedReveal = c'.hashedReveal := by
  obtain ⟨-, -, -, heq⟩ := torMemcmp_iff c.hashedReveal.2 c'.hashedReveal.2
  rw [SrCommit.key, SrCommit.key, heq]
  exact Subtype.ext_iff.symm

/-- The value of a state is the same for every order of the map, and however the sort orders equal keys. -/
def SrvOrderFree (sha3 : Bytes → Digest256) (known : Identity → Bool) (s : SrState) (prev : Option SrSrv) : Prop :=
  ∀ sort sort' order order', IsSort compareReveal sort → IsSort compareReveal sort' → order.Perm s.commits →
    order'.Perm s.commits →
    srComputeSrv sha3 sort known s.phase order prev = srComputeSrv sha3 sort' known s.phase order' prev

/-- No two recognized authorities revealed to equal hashes. -/
def RevealsApart (known : Identity → Bool) (s : SrState) : Prop :=
  ∀ c ∈ s.commits, ∀ c' ∈ s.commits, known c.rsaIdentity = true → known c'.rsaIdentity = true →
    c.hasRevealValue = true → c'.hasRevealValue = true → c.hashedReveal = c'.hashedReveal → c = c'

/-- The texts that are hashed for a state, in some order of its commits. -/
def HashedFor (known : Identity → Bool) (s : SrState) (chunks : List Text) : Prop :=
  ∃ sort order, IsSort compareReveal sort ∧ order.Perm s.commits ∧ chunks = srvElements sort known order

/-- The last message that is hashed. -/
def finalMessage (sha3 : Bytes → Digest256) (chunks : List Text) (prev : Option SrSrv) : Bytes :=
  srvMessage (sha3 (textBytes chunks.flatten)) (UInt64.ofNat chunks.length) prev

/-- SHA3-256 has no collisions among what may be hashed for the state. -/
structure NoCollision (sha3 : Bytes → Digest256) (known : Identity → Bool) (s : SrState) (prev : Option SrSrv) : Prop where
  reveals : ∀ x y, HashedFor known s x → HashedFor known s y →
    sha3 (textBytes x.flatten) = sha3 (textBytes y.flatten) → textBytes x.flatten = textBytes y.flatten
  messages : ∀ x y, HashedFor known s x → HashedFor known s y →
    sha3 (finalMessage sha3 x prev) = sha3 (finalMessage sha3 y prev) → finalMessage sha3 x prev = finalMessage sha3 y prev

theorem element_of_reveal (h : c.hasRevealValue = true) :
    getSrvElementFromCommit c = some (c.rsaIdentityHex ++ c.encodedReveal) := by
  simp [getSrvElementFromCommit, h]

theorem filterMap_elements (l : List SrCommit) :
    l.filterMap getSrvElementFromCommit =
      (l.filter (·.hasRevealValue)).map fun c => c.rsaIdentityHex ++ c.encodedReveal := by
  induction l with
  | nil => rfl
  | cons c l ih =>
    by_cases hc : c.hasRevealValue = true
    · rw [List.filterMap_cons_some (element_of_reveal hc), List.filter_cons_of_pos hc, List.map_cons, ih]
    · rw [List.filterMap_cons_none (by simp [getSrvElementFromCommit, hc]), List.filter_cons_of_neg hc, ih]

theorem srvElements_eq (hapart : RevealsApart known s) (hsort : IsSort compareReveal sort)
    (hsort' : IsSort compareReveal sort') (horder : order.Perm s.commits) (horder' : order'.Perm s.commits) :
    srvElements sort known order = srvElements sort' known order' := by
  have hperm : (order.filter fun c => known c.rsaIdentity).Perm (order'.filter fun c => known c.rsaIdentity) :=
    (horder.trans horder'.symm).filter _
  rw [srvElements, srvElements, filterMap_elements, filterMap_elements]
  refine congrArg _ (sorted_filter compareReveal_compares hperm (hsort _) (hsort' _) fun c hc c' hc' hr hr' hkey => ?_)
  obtain ⟨hmem, hknown⟩ := List.mem_filter.mp hc
  obtain ⟨hmem', hknown'⟩ := List.mem_filter.mp hc'
  exact hapart c (horder.mem_iff.mp hmem) c' (horder.mem_iff.mp hmem') hknown hknown' hr hr' (key_eq_iff.mp hkey)

theorem srvOrderFree_of_apart (hapart : s.phase = .REVEAL → RevealsApart known s) : SrvOrderFree sha3 known s prev := by
  intro sort sort' order order' hsort hsort' horder horder'
  by_cases hphase : s.phase = .REVEAL
  · have hvalid : order.all (·.valid) = order'.all (·.valid) := (horder.trans horder'.symm).all_eq
    rw [srComputeSrv, srComputeSrv, srvElements_eq (hapart hphase) hsort hsort' horder horder', hvalid]
  · rw [srComputeSrv, srComputeSrv, if_pos hphase, if_pos hphase]

/-! ## Equal hashes -/

theorem hex_of_textBytes {id id' : Identity} (h : textBytes (base16Encode id.1) = textBytes (base16Encode id'.1)) :
    id = id' := by
  have hback : ∀ bs : Bytes, (textBytes (base16Encode bs)).map (fun b => Char.ofNat b.toNat) = base16Encode bs := by
    intro bs
    have hall : hexDigits.all (fun c => Char.ofNat (UInt8.ofNat c.toNat).toNat == c) = true := by decide +kernel
    have hchar : ∀ c ∈ hexDigits, Char.ofNat (UInt8.ofNat c.toNat).toNat = c := by
      intro c hc
      exact beq_iff_eq.mp (List.all_eq_true.mp hall c hc)
    rw [textBytes, List.map_map]
    exact (List.map_congr_left fun c hc => hchar c (mem_base16Encode hc)).trans (List.map_id _)
  have hhex : base16Encode id.1 = base16Encode id'.1 := by rw [← hback id.1, h, hback]
  have hdecode := base16DecodeLoop_encode id.1
  rw [hhex, base16DecodeLoop_encode] at hdecode
  exact Subtype.ext (Option.some.inj hdecode).symm

/-- Two elements the other way round are another text. -/
theorem swapped_ne {pre post : List Text} (hc : Decoded c) (hc' : Decoded c') (hne : c.rsaIdentity ≠ c'.rsaIdentity)
    {x y : Text} (hx : x = c.rsaIdentityHex ++ c.encodedReveal) (hy : y = c'.rsaIdentityHex ++ c'.encodedReveal) :
    textBytes (pre ++ x :: y :: post).flatten ≠ textBytes (pre ++ y :: x :: post).flatten := by
  intro heq
  simp only [textBytes, List.flatten_append, List.flatten_cons, List.map_append, hx, hy, hc.hex, hc'.hex,
    List.append_assoc] at heq
  have htail := List.append_cancel_left heq
  have hlen : ∀ id : Identity, ((base16Encode id.1).map fun c => UInt8.ofNat c.toNat).length = 40 := by
    intro id
    rw [List.length_map, length_base16Encode, id.2]
  have hhead := (List.append_inj htail ((hlen _).trans (hlen _).symm)).1
  exact hne (hex_of_textBytes hhead)

theorem srvMessage_inj {h h' : Digest256} {n : UInt64} (heq : srvMessage h n prev = srvMessage h' n prev) : h = h' := by
  have hpre := List.append_inj_left' heq rfl
  exact Subtype.ext (List.append_cancel_left hpre)

theorem perm_two {l : List SrCommit} (hc : c ∈ l) (hc' : c' ∈ l) (hne : c ≠ c') :
    ∃ rest, l.Perm (c :: c' :: rest) := by
  have hmem : c' ∈ l.erase c := (List.mem_erase_of_ne hne.symm).mpr hc'
  exact ⟨(l.erase c).erase c', (List.perm_cons_erase hc).trans ((List.perm_cons_erase hmem).cons c)⟩

/-- With equal hashes there are two orders of the elements that differ in two neighbours. -/
theorem exists_two_orders {l : List SrCommit} (hc : c ∈ l) (hc' : c' ∈ l) (hne : c ≠ c')
    (hknown : known c.rsaIdentity = true) (hknown' : known c'.rsaIdentity = true) (hr : c.hasRevealValue = true)
    (hr' : c'.hasRevealValue = true) (hhash : c.hashedReveal = c'.hashedReveal) :
    ∃ sort sort' pre post, IsSort compareReveal sort ∧ IsSort compareReveal sort' ∧
      srvElements sort known l =
        pre ++ (c.rsaIdentityHex ++ c.encodedReveal) :: (c'.rsaIdentityHex ++ c'.encodedReveal) :: post ∧
      srvElements sort' known l =
        pre ++ (c'.rsaIdentityHex ++ c'.encodedReveal) :: (c.rsaIdentityHex ++ c.encodedReveal) :: post := by
  have hmem : c ∈ l.filter fun c => known c.rsaIdentity := List.mem_filter.mpr ⟨hc, hknown⟩
  have hmem' : c' ∈ l.filter fun c => known c.rsaIdentity := List.mem_filter.mpr ⟨hc', hknown'⟩
  obtain ⟨rest, hperm⟩ := perm_two hmem hmem' hne
  obtain ⟨pre, post, hone, htwo⟩ := exists_swapped compareReveal_compares hperm (key_eq_iff.mpr hhash)
  obtain ⟨sort, hsort, heq⟩ := hone.exists_sort compareReveal_compares
  obtain ⟨sort', hsort', heq'⟩ := htwo.exists_sort compareReveal_compares
  refine ⟨sort, sort', pre.filterMap getSrvElementFromCommit, post.filterMap getSrvElementFromCommit, hsort, hsort', ?_, ?_⟩
  · rw [srvElements, heq, List.filterMap_append, List.filterMap_cons_some (element_of_reveal hr),
      List.filterMap_cons_some (element_of_reveal hr')]
  · rw [srvElements, heq', List.filterMap_append, List.filterMap_cons_some (element_of_reveal hr'),
      List.filterMap_cons_some (element_of_reveal hr)]

theorem apart_of_srvOrderFree (hvalid : ∀ c ∈ s.commits, c.valid = true) (hdecoded : ∀ c ∈ s.commits, Decoded c)
    (hnodup : ∀ c ∈ s.commits, ∀ c' ∈ s.commits, c.rsaIdentity = c'.rsaIdentity → c = c')
    (hcoll : NoCollision sha3 known s prev) (hfree : SrvOrderFree sha3 known s prev) (hphase : s.phase = .REVEAL) :
    RevealsApart known s := by
  intro c hc c' hc' hknown hknown' hr hr' hhash
  by_contra hne
  obtain ⟨sort, sort', pre, post, hsort, hsort', hone, htwo⟩ :=
    exists_two_orders hc hc' hne hknown hknown' hr hr' hhash
  have hall : s.commits.all (·.valid) = true := List.all_eq_true.mpr hvalid
  have hsame := hfree sort sort' s.commits s.commits hsort hsort' (List.Perm.refl _) (List.Perm.refl _)
  have hx : HashedFor known s (srvElements sort known s.commits) := ⟨sort, _, hsort, List.Perm.refl _, rfl⟩
  have hy : HashedFor known s (srvElements sort' known s.commits) := ⟨sort', _, hsort', List.Perm.refl _, rfl⟩
  have hlen : (srvElements sort known s.commits).length = (srvElements sort' known s.commits).length := by
    simp [hone, htwo]
  simp only [srComputeSrv, hphase, ne_eq, not_true_eq_false, if_false, hall, Option.some.injEq, generateSrv,
    SrSrv.mk.injEq] at hsame
  have hmessage := hcoll.messages _ _ hx hy hsame.2
  rw [finalMessage, finalMessage, hlen] at hmessage
  have htexts := hcoll.reveals _ _ hx hy (srvMessage_inj hmessage)
  rw [hone, htwo] at htexts
  exact swapped_ne (hdecoded c hc) (hdecoded c' hc') (fun hid => hne (hnodup c hc c' hc' hid)) rfl rfl htexts

/-! ## Every state -/

theorem getCommit_of_mem (hnodup : (s.commits.map SrCommit.rsaIdentity).Nodup) (hc : c ∈ s.commits) :
    s.getCommit c.rsaIdentity = some c := by
  have hinj := List.inj_on_of_nodup_map hnodup
  cases hget : s.getCommit c.rsaIdentity with
  | none => exact absurd (List.find?_eq_none.mp hget c hc) (by simp)
  | some c' => rw [hinj (List.mem_of_find?_eq_some hget) hc (getCommit_identity hget)]

theorem RunInv.mem {ours : Option (OurCommit sha3)} {events : List Event} (h : RunInv ours events s)
    (hc : c ∈ s.commits) : s.getCommit c.rsaIdentity = some c := getCommit_of_mem h.nodup hc

/-- In every state that votes lead to, the value is determined if no two recognized authorities revealed to equal
hashes, and only then, unless SHA3-256 collides. -/
theorem srv_order_free_iff (sha3 : Bytes → Digest256) (ours : Option (OurCommit sha3)) (events : List Event)
    (known : Identity → Bool) (prev : Option SrSrv) :
    ∃ s, run (step sha3) (SrState.start ours) events = some s ∧
      ((s.phase = .REVEAL → RevealsApart known s) → SrvOrderFree sha3 known s prev) ∧
      (NoCollision sha3 known s prev → SrvOrderFree sha3 known s prev → s.phase = .REVEAL → RevealsApart known s) := by
  obtain ⟨s, hrun, hinv, -⟩ := run_integrity ours events
  refine ⟨s, hrun, srvOrderFree_of_apart, fun hcoll hfree hphase => ?_⟩
  have hsound : ∀ c ∈ s.commits, Sound sha3 c := fun c hc => hinv.sound _ c (hinv.mem hc)
  have hinj := List.inj_on_of_nodup_map hinv.nodup
  exact apart_of_srvOrderFree (fun c hc => (hsound c hc).valid) (fun c hc => (hsound c hc).decoded)
    (fun c hc c' hc' hid => hinj hc hc' hid) hcoll hfree hphase

/-! ## A repeated commitment -/

def digestOfHex (hex : String) : Digest256 :=
  match base16Decode 32 hex.toList with
  | some bytes => if h : bytes.length = 32 then ⟨bytes, h⟩ else zeroBytes 32
  | none => zeroBytes 32

def oneReveal : Text := "AAAAAGVT8QAHBwcHBwcHBwcHBwcHBwcHBwcHBwcHBwcHBwcHBwcHBw==".toList

def oneCommit : Text := "AAAAAGVT8QD8Qpfqg/zrLEmWapOVeZLAs8izpikt/WdxhzsSwCqqRw==".toList

variable (b : UInt8)

/-- An authority whose key has the digest `b b … b`. -/
def authority : Identity := ⟨List.replicate 20 b, List.length_replicate⟩

def voteWords (reveal : List Text) : List Text :=
  [decimal 1, "sha3-256".toList, base16Encode (authority b).1, oneCommit] ++ reveal

/-- The two reveals in either order. -/
def revealsOf (b' : UInt8) : List Text :=
  [base16Encode (authority b).1 ++ oneReveal, base16Encode (authority b').1 ++ oneReveal]

/-- SHA3-256 on what is hashed when two authorities have this commit. -/
def sha3OfReveals (bytes : Bytes) : Digest256 :=
  let hashedOne := digestOfHex "577d69adb759c5ed6395d72d95126f0cb0d5217800bc7a3316e35986c5fee521"
  let hashedTwo := digestOfHex "da2183d34fc10cb09131a563eb5c8363da15a381ab60c16cc9e64de636f644b3"
  if bytes = textBytes oneReveal then digestOfHex "fc4297ea83fceb2c49966a93957992c0b3c8b3a6292dfd6771873b12c02aaa47"
  else if bytes = textBytes (revealsOf 17 34).flatten then hashedOne
  else if bytes = textBytes (revealsOf 34 17).flatten then hashedTwo
  else if bytes = srvMessage hashedOne 2 none then
    digestOfHex "f5404607a1501eb1d0bd6a56b6170ed993ef586b3297876968f34f9c27372aa2"
  else if bytes = srvMessage hashedTwo 2 none then
    digestOfHex "8ff38a258e10c1b436847107b6dba6e5ae82057f0f6b3ae789b3dabd1d2f2df5"
  else zeroBytes 32

/-- A vote with one commit line. -/
def vote (reveal : List Text) : Event :=
  .received (fun _ => true) (authority b)
    (match h : srParseCommit (voteWords b reveal) with
    | some commit => [⟨commit, voteWords b reveal, h⟩]
    | none => [])

/-- The second authority votes for the commitment, and later the reveal, that it has seen in the votes of the first. -/
def repeatedCommitment : List Event :=
  [vote 17 [], vote 34 [], .enterReveal, vote 17 [oneReveal], vote 34 [oneReveal]]

def revealedCommit : SrCommit :=
  { commitNew (authority b) with
    valid := true, commitTs := 1700000000, revealTs := 1700000000, encodedCommit := oneCommit, encodedReveal := oneReveal
    hashedReveal := digestOfHex "fc4297ea83fceb2c49966a93957992c0b3c8b3a6292dfd6771873b12c02aaa47"
    randomNumber := ⟨List.replicate 32 7, List.length_replicate⟩ }

def noCommitOfOurs : Option (OurCommit sha3OfReveals) := none

def repeatedState : SrState := { phase := .REVEAL, commits := [revealedCommit 34, revealedCommit 17] }

theorem repeatedCommitment_run :
    run (step sha3OfReveals) (SrState.start noCommitOfOurs) repeatedCommitment = some repeatedState := by decide +kernel

/-- Only two texts may be hashed: the one reveal first, or the other. -/
theorem hashedFor_repeated {x : List Text} (h : HashedFor (fun _ => true) repeatedState x) :
    x = revealsOf 34 17 ∨ x = revealsOf 17 34 := by
  obtain ⟨sort, order, hsort, horder, rfl⟩ := h
  have hperm : (sort (order.filter fun _ => true)).Perm [revealedCommit 34, revealedCommit 17] := by
    refine (hsort _).perm.trans ?_
    rw [List.filter_true]
    exact horder
  rw [srvElements]
  rcases List.perm_pair.mp hperm with heq | heq
  · rw [heq]
    exact .inl rfl
  · rw [heq]
    exact .inr rfl

theorem noCollision_repeated : NoCollision sha3OfReveals (fun _ => true) repeatedState none := by
  have hreveals : sha3OfReveals (textBytes (revealsOf 34 17).flatten) ≠
      sha3OfReveals (textBytes (revealsOf 17 34).flatten) := by decide +kernel
  have hmessages : sha3OfReveals (finalMessage sha3OfReveals (revealsOf 34 17) none) ≠
      sha3OfReveals (finalMessage sha3OfReveals (revealsOf 17 34) none) := by decide +kernel
  constructor
  · intro x y hx hy heq
    rcases hashedFor_repeated hx with rfl | rfl <;> rcases hashedFor_repeated hy with rfl | rfl
    · rfl
    · exact absurd heq hreveals
    · exact absurd heq.symm hreveals
    · rfl
  · intro x y hx hy heq
    rcases hashedFor_repeated hx with rfl | rfl <;> rcases hashedFor_repeated hy with rfl | rfl
    · rfl
    · exact absurd heq hmessages
    · exact absurd heq.symm hmessages
    · rfl

/-- There the condition fails, and the hash has no collision, so the value is open. -/
theorem srv_order_free_iff_at_repeated :
    run (step sha3OfReveals) (SrState.start noCommitOfOurs) repeatedCommitment = some repeatedState ∧
    NoCollision sha3OfReveals (fun _ => true) repeatedState none ∧
    ¬ SrvOrderFree sha3OfReveals (fun _ => true) repeatedState none := by
  refine ⟨repeatedCommitment_run, noCollision_repeated, fun hfree => ?_⟩
  obtain ⟨s, hrun, -, honly⟩ := srv_order_free_iff sha3OfReveals noCommitOfOurs repeatedCommitment (fun _ => true) none
  obtain rfl : s = repeatedState := Option.some.inj (hrun.symm.trans repeatedCommitment_run)
  have happart := honly noCollision_repeated hfree rfl
  have hsame : revealedCommit 34 = revealedCommit 17 :=
    happart _ (by simp [repeatedState]) _ (by simp [repeatedState]) rfl rfl rfl rfl rfl
  exact absurd (congrArg SrCommit.rsaIdentity hsame) (by decide)

/-- The orders in which two authorities have the reveals in their maps decide between two values. -/
theorem a_repeated_commitment_leaves_the_value_open :
    run (step sha3OfReveals) (SrState.start noCommitOfOurs) repeatedCommitment = some repeatedState ∧
    repeatedState.commits.reverse.Perm repeatedState.commits ∧
    srComputeSrv sha3OfReveals (List.insertionSort fun a b => compareReveal a b ≤ 0) (fun _ => true) repeatedState.phase
      repeatedState.commits none =
        some (some ⟨2, digestOfHex "8ff38a258e10c1b436847107b6dba6e5ae82057f0f6b3ae789b3dabd1d2f2df5"⟩) ∧
    srComputeSrv sha3OfReveals (List.insertionSort fun a b => compareReveal a b ≤ 0) (fun _ => true) repeatedState.phase
      repeatedState.commits.reverse none =
        some (some ⟨2, digestOfHex "f5404607a1501eb1d0bd6a56b6170ed993ef586b3297876968f34f9c27372aa2"⟩) ∧
    ¬ SrvOrderFree sha3OfReveals (fun _ => true) repeatedState none := by
  have hone : srComputeSrv sha3OfReveals (List.insertionSort fun a b => compareReveal a b ≤ 0) (fun _ => true)
      repeatedState.phase repeatedState.commits none =
        some (some ⟨2, digestOfHex "8ff38a258e10c1b436847107b6dba6e5ae82057f0f6b3ae789b3dabd1d2f2df5"⟩) := by
    decide +kernel
  have htwo : srComputeSrv sha3OfReveals (List.insertionSort fun a b => compareReveal a b ≤ 0) (fun _ => true)
      repeatedState.phase repeatedState.commits.reverse none =
        some (some ⟨2, digestOfHex "f5404607a1501eb1d0bd6a56b6170ed993ef586b3297876968f34f9c27372aa2"⟩) := by
    decide +kernel
  refine ⟨repeatedCommitment_run, List.reverse_perm _, hone, htwo, fun hfree => ?_⟩
  have hsort := insertionSort_isSort compareReveal_compares
  have hsame := hfree _ _ repeatedState.commits repeatedState.commits.reverse hsort hsort (List.Perm.refl _)
    (List.reverse_perm _)
  rw [hone, htwo] at hsame
  exact absurd hsame (by decide +kernel)

end Badnet.SharedRandom
