/-
  Badnet.Protover.Vote — the vote on subprotocol versions, and what C makes of it.

  `tally` counts the strings that list a version of a protocol, `winning` are the versions
  that enough strings list. C counts in the bits of masks and prints the runs of ones
  (`C.encodeMask_eq`); its result is the sorted names, each printed with the runs of the
  versions that win (`C.protoverComputeVote_eq`).
-/

import Badnet.Lib.Runs
import Badnet.Protover.Agreement

namespace Badnet.Protover

open Lib Encoding

/-! ## The order of strings -/

theorem strcmp_cons (a b : Char) (as bs : Text) :
    strcmp (a :: as) (b :: bs) = if a = b then strcmp as bs else (a.toNat : Int) - b.toNat := rfl

theorem toNat_ne {a b : Char} (h : a ≠ b) : a.toNat ≠ b.toNat := fun e => h (Char.toNat_inj.mp e)

theorem strcmp_total (a b : Text) : strcmp a b ≤ 0 ∨ strcmp b a ≤ 0 := by
  induction a generalizing b with
  | nil => cases b <;> simp [strcmp]
  | cons x a ih =>
    cases b with
    | nil => simp [strcmp]
    | cons y b =>
      rw [strcmp_cons, strcmp_cons]
      by_cases h : x = y
      · subst h
        rw [if_pos rfl, if_pos rfl]
        exact ih b
      · rw [if_neg h, if_neg (Ne.symm h)]
        omega

theorem strcmp_trans {a b c : Text} (hab : strcmp a b ≤ 0) (hbc : strcmp b c ≤ 0) : strcmp a c ≤ 0 := by
  induction a generalizing b c with
  | nil => cases c <;> simp [strcmp]
  | cons x a ih =>
    cases b with
    | nil => simp [strcmp] at hab
    | cons y b =>
      cases c with
      | nil => simp [strcmp] at hbc
      | cons z c =>
        rw [strcmp_cons] at hab hbc ⊢
        by_cases hxy : x = y
        · subst hxy
          rw [if_pos rfl] at hab
          by_cases hxz : x = z
          · subst hxz
            rw [if_pos rfl] at hbc ⊢
            exact ih hab hbc
          · rw [if_neg hxz] at hbc ⊢
            exact hbc
        · rw [if_neg hxy] at hab
          have := toNat_ne hxy
          by_cases hyz : y = z
          · subst hyz
            rw [if_neg hxy]
            exact hab
          · rw [if_neg hyz] at hbc
            rw [if_neg (by rintro rfl; omega)]
            omega

theorem strcmp_antisymm {a b : Text} (hab : strcmp a b ≤ 0) (hba : strcmp b a ≤ 0) : a = b := by
  induction a generalizing b with
  | nil =>
    cases b with
    | nil => rfl
    | cons y b => simp [strcmp] at hba
  | cons x a ih =>
    cases b with
    | nil => simp [strcmp] at hab
    | cons y b =>
      rw [strcmp_cons] at hab hba
      by_cases h : x = y
      · subst h
        rw [if_pos rfl] at hab hba
        rw [ih hab hba]
      · rw [if_neg h] at hab
        rw [if_neg (Ne.symm h)] at hba
        exact absurd (toNat_ne h) (by omega)

instance : Std.Total StrLe where
  total := strcmp_total

instance : IsTrans Text StrLe where
  trans _ _ _ := strcmp_trans

instance : Std.Antisymm StrLe where
  antisymm _ _ := strcmp_antisymm

/-- What the entry of a name starts with. -/
theorem strcmp_append (p a b : Text) : strcmp (p ++ a) (p ++ b) = strcmp a b := by
  induction p with
  | nil => rfl
  | cons c p ih => rw [List.cons_append, List.cons_append, strcmp_cons, if_pos rfl, ih]

/-! ## Printed versions -/

/-- The ranges, with a comma before each but the first one. -/
def rangesText (first : Bool) (rs : List (Nat × Nat)) : Text :=
  if first then [','].intercalate (rs.map Rust.ProtoSet.pairToString)
  else (rs.map Rust.ProtoSet.pairToString).flatMap fun t => ',' :: t

theorem rangesText_cons (first : Bool) (r : Nat × Nat) (rs : List (Nat × Nat)) :
    rangesText first (r :: rs) =
      (if first then [] else [',']) ++ Rust.ProtoSet.pairToString r ++ rangesText false rs := by
  have hjoin : ∀ (t : Text) (ts : List Text), [','].intercalate (t :: ts) = t ++ ts.flatMap fun u => ',' :: u := by
    intro t ts
    induction ts generalizing t with
    | nil => simp
    | cons u ts ih => rw [List.intercalate_cons_cons, ih, List.flatMap_cons]; simp
  cases first with
  | true => simp [rangesText, hjoin]
  | false => simp [rangesText]

namespace C

/-- The versions from `shift` on. -/
def versionsFrom (mask : BitVec 64) (shift : Nat) : List Nat := (List.range' shift (64 - shift)).filter fun i => mask.getLsbD i

theorem trailingZeros_isSome {x : BitVec 64} {i : Nat} (hi : i < 64) (h : x.getLsbD i = true) :
    ∃ j, trailingZeros x = some j := by
  unfold trailingZeros
  rw [← Option.isSome_iff_exists, List.find?_isSome]
  exact ⟨i, List.mem_range.mpr hi, h⟩

variable {mask : BitVec 64} {shift zeros ones : Nat}

theorem mem_versionsFrom {i : Nat} : i ∈ versionsFrom mask shift ↔ shift ≤ i ∧ i < 64 ∧ mask.getLsbD i = true := by
  rw [versionsFrom, List.mem_filter, List.mem_range'_1]
  constructor
  · rintro ⟨⟨h1, h2⟩, h3⟩
    exact ⟨h1, by omega, h3⟩
  · rintro ⟨h1, h2, h3⟩
    exact ⟨⟨h1, by omega⟩, h3⟩

/-- `zeros` versions that are not there, then `ones` that are. -/
theorem versionsFrom_split (hle : shift + zeros + ones ≤ 64)
    (hz : ∀ j < zeros, mask.getLsbD (shift + j) = false) (ho : ∀ j < ones, mask.getLsbD (shift + zeros + j) = true) :
    versionsFrom mask shift = List.range' (shift + zeros) ones ++ versionsFrom mask (shift + zeros + ones) := by
  unfold versionsFrom
  have hsplit : List.range' shift (64 - shift) =
      List.range' shift zeros ++ (List.range' (shift + zeros) ones ++
        List.range' (shift + zeros + ones) (64 - (shift + zeros + ones))) := by
    rw [List.range'_append_1, List.range'_append_1]
    congr 1
    omega
  rw [hsplit, List.filter_append, List.filter_append]
  have hnone : (List.range' shift zeros).filter (fun i => mask.getLsbD i) = [] := by
    rw [List.filter_eq_nil_iff]
    intro i hi
    obtain ⟨h1, h2⟩ := List.mem_range'_1.mp hi
    have := hz (i - shift) (by omega)
    rw [show shift + (i - shift) = i by omega] at this
    simp [this]
  have hall : (List.range' (shift + zeros) ones).filter (fun i => mask.getLsbD i) = List.range' (shift + zeros) ones := by
    rw [List.filter_eq_self]
    intro i hi
    obtain ⟨h1, h2⟩ := List.mem_range'_1.mp hi
    have := ho (i - (shift + zeros)) (by omega)
    rwa [show shift + zeros + (i - (shift + zeros)) = i by omega] at this
  rw [hnone, hall, List.nil_append]

theorem versionsFrom_eq_nil (h : mask >>> shift = 0) : versionsFrom mask shift = [] := by
  rw [List.eq_nil_iff_forall_not_mem]
  intro i hi
  obtain ⟨h1, h2, h3⟩ := mem_versionsFrom.mp hi
  have hbit : (mask >>> shift).getLsbD (i - shift) = true := by
    rw [BitVec.getLsbD_ushiftRight, show shift + (i - shift) = i by omega]
    exact h3
  rw [h] at hbit
  simp at hbit

theorem exists_bit_of_ne_zero {x : BitVec 64} (h : x ≠ 0) : ∃ k < 64, x.getLsbD k = true := by
  by_contra hno
  refine h (BitVec.eq_of_getLsbD_eq fun k hk => ?_)
  rw [show (0 : BitVec 64).getLsbD k = false from BitVec.getLsbD_zero]
  exact Bool.eq_false_iff.mpr fun e => hno ⟨k, hk, e⟩

/-- Among the bits from `start` on one is missing: one that is shifted in, or one of the mask. -/
theorem exists_missing_bit {start : Nat} (hs : 0 < start ∨ mask ≠ BitVec.allOnes 64) :
    ∃ i < 64, mask.getLsbD (start + i) = false := by
  by_cases hpos : 0 < start
  · exact ⟨63, by decide, BitVec.getLsbD_of_ge _ _ (by omega)⟩
  · have hmask := hs.resolve_left hpos
    by_contra hno
    refine hmask (BitVec.eq_of_getLsbD_eq fun i hi => ?_)
    have hbit : mask.getLsbD (start + i) ≠ false := fun e => hno ⟨i, hi, e⟩
    rw [show start + i = i by omega] at hbit
    rw [BitVec.getLsbD_allOnes, decide_eq_true hi]
    exact Bool.eq_true_of_not_eq_false hbit

/-- The next run of versions from `shift` on: `zeros` that are not there, `ones` that are, and one that is not. -/
structure NextRun (mask : BitVec 64) (shift zeros ones : Nat) : Prop where
  trailingZeros : trailingZeros (mask >>> shift) = some zeros
  trailingOnes : trailingOnes (mask >>> shift >>> zeros) = some ones
  pos : 0 < ones
  short : ones < 64
  absent : ∀ j < zeros, mask.getLsbD (shift + j) = false
  present : ∀ j < ones, mask.getLsbD (shift + zeros + j) = true
  gap : mask.getLsbD (shift + zeros + ones) = false

theorem NextRun.le (h : NextRun mask shift zeros ones) : shift + zeros + ones ≤ 64 := by
  have hpos := h.pos
  have hlast := BitVec.lt_of_getLsbD (h.present (ones - 1) (by omega))
  omega

theorem exists_nextRun (hs : 0 < shift ∨ mask ≠ BitVec.allOnes 64)
    (hm : mask >>> shift ≠ 0) : ∃ zeros ones, NextRun mask shift zeros ones := by
  obtain ⟨k, hk64, hk⟩ := exists_bit_of_ne_zero hm
  obtain ⟨zeros, hz⟩ := trailingZeros_isSome hk64 hk
  obtain ⟨-, hzbit, hzlt⟩ := trailingZeros_eq_some hz
  rw [BitVec.getLsbD_ushiftRight] at hzbit
  have hnz : ¬ mask >>> shift >>> zeros = 0 := by
    intro e
    have hbit : (mask >>> shift >>> zeros).getLsbD 0 = true := by
      rw [BitVec.getLsbD_ushiftRight, BitVec.getLsbD_ushiftRight]
      exact hzbit
    rw [e] at hbit
    simp at hbit
  obtain ⟨ones, ho⟩ : ∃ ones, C.trailingZeros (~~~(mask >>> shift >>> zeros)) = some ones := by
    obtain ⟨i, hi, hbit⟩ := exists_missing_bit (show 0 < shift + zeros ∨ mask ≠ BitVec.allOnes 64 from hs.imp_left (by omega))
    apply trailingZeros_isSome hi
    rw [BitVec.getLsbD_not, BitVec.getLsbD_ushiftRight, BitVec.getLsbD_ushiftRight,
      show shift + (zeros + i) = shift + zeros + i by omega, hbit]
    simpa using hi
  have ho' : C.trailingOnes (mask >>> shift >>> zeros) = some ones := by rw [C.trailingOnes, if_neg hnz, ho]
  obtain ⟨ho64, hobit, holt⟩ := trailingZeros_eq_some ho
  refine ⟨zeros, ones, hz, ho', trailingOnes_pos hz ho', ho64, fun j hj => ?_, fun j hj => ?_, ?_⟩
  · have hbit := hzlt j hj
    rwa [BitVec.getLsbD_ushiftRight] at hbit
  · have hbit := holt j hj
    rw [BitVec.getLsbD_not, BitVec.getLsbD_ushiftRight, BitVec.getLsbD_ushiftRight,
      show shift + (zeros + j) = shift + zeros + j by omega] at hbit
    simpa [show j < 64 by omega] using hbit
  · rw [BitVec.getLsbD_not, BitVec.getLsbD_ushiftRight, BitVec.getLsbD_ushiftRight,
      show shift + (zeros + ones) = shift + zeros + ones by omega] at hobit
    simpa [ho64] using hobit

theorem NextRun.runs_eq (h : NextRun mask shift zeros ones) : runs (versionsFrom mask shift) =
      (shift + zeros, shift + zeros + (ones - 1)) :: runs (versionsFrom mask (shift + zeros + ones)) := by
  have hpos := h.pos
  rw [versionsFrom_split h.le h.absent h.present]
  nth_rewrite 1 [show ones = ones - 1 + 1 by omega]
  apply runs_range'
  intro x hx
  obtain ⟨h1, -, h3⟩ := mem_versionsFrom.mp hx
  have hne : x ≠ shift + zeros + ones := by
    rintro rfl
    rw [h.gap] at h3
    cases h3
  omega

/-- A run is printed as its first version, or its first and its last one. -/
theorem run_text {first : Nat} (hpos : 0 < ones) :
    (if ones = 1 then decimal first else decimal first ++ '-' :: decimal (first + ones - 1)) =
      Rust.ProtoSet.pairToString (first, first + (ones - 1)) := by
  unfold Rust.ProtoSet.pairToString
  by_cases h1 : ones = 1
  · subst h1
    simp
  · rw [if_neg h1, if_pos (by simp; omega), show first + ones - 1 = first + (ones - 1) by omega]

/-- The encoder prints the runs, unless it starts with all versions there are. -/
theorem encodeMask_runs (hs : 0 < shift ∨ mask ≠ BitVec.allOnes 64) (first : Bool) :
    encodeMask (mask >>> shift) shift first = some (rangesText first (runs (versionsFrom mask shift))) := by
  induction hn : 64 - shift using Nat.strongRecOn generalizing shift first with
  | ind n ih =>
    subst hn
    rw [encodeMask]
    by_cases hm : mask >>> shift = 0
    · rw [dif_pos hm, versionsFrom_eq_nil hm]
      cases first <;> rfl
    · rw [dif_neg hm]
      obtain ⟨zeros, ones, hrun⟩ := exists_nextRun hs hm
      have hpos := hrun.pos
      have hend := hrun.le
      have hrec := ih (64 - (shift + zeros + ones)) (by omega) (.inl (by omega)) false rfl
      rw [BitVec.shiftRight_add, BitVec.shiftRight_add] at hrec
      split
      next hnone =>
        rw [hrun.trailingZeros] at hnone
        cases hnone
      next z hz =>
        rw [hrun.trailingZeros] at hz
        cases hz
        split
        next hnone =>
          rw [hrun.trailingOnes] at hnone
          cases hnone
        next o ho =>
          rw [hrun.trailingOnes] at ho
          cases ho
          rw [if_neg (Nat.ne_of_lt hrun.short), hrec, hrun.runs_eq, rangesText_cons, run_text hpos]
          rfl

/-- It is defined where version 0 is not listed. -/
theorem encodeMask_eq (h0 : mask.getLsbD 0 = false) (shift : Nat) (first : Bool) :
    encodeMask (mask >>> shift) shift first = some (rangesText first (runs (versionsFrom mask shift))) := by
  apply encodeMask_runs
  right
  rintro rfl
  simp at h0

end C

/-! ## What the strings list -/

/-- The entries list the version of the protocol. -/
def listsIn (es : List Entry) (n : Text) (v : Nat) : Bool := es.any fun e => e.name = n ∧ e.lists v

variable (votes : List (List Entry))

/-- How many of the lists have the version of the protocol. -/
def tally (n : Text) (v : Nat) : Nat := votes.countP fun es => listsIn es n v

/-- The versions of the protocol that enough lists have. -/
def winning (threshold : Nat) (n : Text) : List Nat :=
  (List.range' 0 64).filter fun v => threshold ≤ tally votes n v

/-- The entry of the result. -/
def part (versions : List Nat) (n : Text) : Text := n ++ '=' :: rangesText true (runs versions)

/-- A list that both readers take, without repeated names. -/
structure GoodList (es : List Entry) : Prop where
  names : ∀ e ∈ es, isName e.name = true
  nodup : (es.map Entry.name).Nodup
  bounds : ∀ e ∈ es, ∀ r ∈ e.ranges, r.1 ≤ r.2 ∧ r.2 ≤ MAX_PROTOCOL_VERSION
  ok : ∀ e ∈ es, RangesOk e.ranges

theorem listsIn_cons (e : Entry) (es : List Entry) (n : Text) (v : Nat) :
    listsIn (e :: es) n v = (decide (e.name = n ∧ e.lists v = true) || listsIn es n v) := rfl

theorem listsIn_eq_false {es : List Entry} {n : Text} (h : n ∉ es.map Entry.name) (v : Nat) : listsIn es n v = false := by
  refine List.any_eq_false.mpr fun x hx hxn => h ?_
  rw [← (of_decide_eq_true hxn).1]
  exact List.mem_map_of_mem hx

/-- With a name once, the first entry of it is the only one. -/
theorem firstLists_eq {es : List Entry} (h : (es.map Entry.name).Nodup) (n : Text) (v : Nat) :
    firstLists es n v = listsIn es n v := by
  induction es with
  | nil => rfl
  | cons e es ih =>
    obtain ⟨he, hes⟩ := List.nodup_cons.mp h
    have ih := ih hes
    unfold firstLists at *
    rw [listsIn_cons]
    by_cases hn : e.name = n
    · subst hn
      rw [List.find?_cons_of_pos (by simp), listsIn_eq_false he, Bool.or_false]
      simp
    · rw [List.find?_cons_of_neg (by simpa using hn), ih]
      simp [hn]

theorem lists_pos {e : Entry} (h : RangesOk e.ranges) {v : Nat} (hv : e.lists v = true) : 0 < v := by
  obtain ⟨r, hr, hle⟩ := List.any_eq_true.mp hv
  have := h.1 r hr
  have := of_decide_eq_true hle
  omega

theorem lists_le {e : Entry} (h : ∀ r ∈ e.ranges, r.1 ≤ r.2 ∧ r.2 ≤ MAX_PROTOCOL_VERSION) {v : Nat} (hv : e.lists v = true) :
    v < 64 := by
  obtain ⟨r, hr, hle⟩ := List.any_eq_true.mp hv
  obtain ⟨-, hmax⟩ := h r hr
  have := of_decide_eq_true hle
  unfold MAX_PROTOCOL_VERSION at hmax
  omega

section

variable {votes : List (List Entry)} {threshold : Nat} {n : Text} {v : Nat}

theorem mem_winning : v ∈ winning votes threshold n ↔ v < 64 ∧ threshold ≤ tally votes n v := by
  rw [winning, List.mem_filter, List.mem_range'_1, decide_eq_true_eq]
  omega

/-- A version that wins is listed somewhere. -/
theorem exists_lists (ht : 0 < threshold) (h : threshold ≤ tally votes n v) :
    ∃ es ∈ votes, ∃ e ∈ es, e.name = n ∧ e.lists v = true := by
  obtain ⟨es, hes, hl⟩ := List.countP_pos_iff.mp (Nat.lt_of_lt_of_le ht h)
  obtain ⟨e, he, hel⟩ := List.any_eq_true.mp hl
  exact ⟨es, hes, e, he, of_decide_eq_true hel⟩

theorem winning_pos (hgood : ∀ es ∈ votes, GoodList es) (ht : 0 < threshold) : ∀ v ∈ winning votes threshold n, 0 < v := by
  intro v hv
  obtain ⟨es, hes, e, he, -, hl⟩ := exists_lists ht (mem_winning.mp hv).2
  exact lists_pos ((hgood es hes).ok e he) hl

theorem winning_lt (hgood : ∀ es ∈ votes, GoodList es) (ht : 0 < threshold) (h : threshold ≤ tally votes n v) :
    v ∈ winning votes threshold n := by
  obtain ⟨es, hes, e, he, -, hl⟩ := exists_lists ht h
  exact mem_winning.mpr ⟨lists_le ((hgood es hes).bounds e he) hl, h⟩

theorem winning_sorted : (winning votes threshold n).Pairwise (· < ·) := (List.pairwise_lt_range' 1).filter _

theorem winning_name (hgood : ∀ es ∈ votes, GoodList es) (ht : 0 < threshold) (h : winning votes threshold n ≠ []) :
    isName n = true := by
  obtain ⟨v, hv⟩ := List.exists_mem_of_ne_nil _ h
  obtain ⟨es, hes, e, he, rfl, -⟩ := exists_lists ht (mem_winning.mp hv).2
  exact (hgood es hes).names e he

end

/-! ## The vote in C -/

namespace C

section

variable {votes : List (List Entry)} {threshold : Nat} {n : Text}

theorem countVotes_eq (hgood : ∀ es ∈ votes, GoodList es) (hlen : votes.length < 256) {i : Nat} (hi : i < 64) :
    countVotes (votes.map (List.map ofEntry)) n i = tally votes n i := by
  have hcount : (votes.map (List.map ofEntry)).countP (fun vote =>
      (findEntryByName vote n).any fun ent => ent.bitmask.getLsbD i) = tally votes n i := by
    rw [List.countP_map, tally]
    apply List.countP_congr
    intro es hes
    have hfind : ((fun ent : ProtoEntry => decide (ent.name = n)) ∘ ofEntry) = fun e => decide (e.name = n) := rfl
    rw [← firstLists_eq (hgood es hes).nodup, firstLists, Function.comp_apply, findEntryByName, List.find?_map, hfind]
    cases hf : es.find? fun e => e.name = n with
    | none => exact Iff.rfl
    | some e =>
      show (ofEntry e).bitmask.getLsbD i = true ↔ e.lists i = true
      rw [getLsbD_ofEntry ((hgood es hes).bounds e (List.mem_of_find?_eq_some hf)) hi]
  rw [countVotes, hcount]
  exact Nat.mod_eq_of_lt (Nat.lt_of_le_of_lt List.countP_le_length hlen)

theorem getLsbD_foldl_or (p : Nat → Prop) [DecidablePred p] (l : List Nat) (mask : BitVec 64) {i : Nat} (hi : i < 64) :
    (l.foldl (fun mask j => if p j then mask ||| 1#64 <<< j else mask) mask).getLsbD i =
      (mask.getLsbD i || decide (i ∈ l ∧ p i)) := by
  induction l generalizing mask with
  | nil => simp
  | cons j l ih =>
    have hbit : (1#64 <<< j).getLsbD i = decide (i = j) := by
      rw [BitVec.getLsbD_shiftLeft, BitVec.getLsbD_one, Bool.eq_iff_iff]
      simp
      omega
    rw [List.foldl_cons, ih]
    by_cases hp : p j
    · rw [if_pos hp, BitVec.getLsbD_or, hbit, Bool.or_assoc]
      congr 1
      by_cases hij : i = j
      · subst hij
        simp [hp]
      · simp [hij]
    · rw [if_neg hp]
      congr 1
      by_cases hij : i = j
      · subst hij
        simp [hp]
      · simp [hij]

section

variable (hgood : ∀ es ∈ votes, GoodList es) (hlen : votes.length < 256)
include hgood hlen

theorem getLsbD_resultBitmask {i : Nat} (hi : i < 64) :
    (resultBitmask (votes.map (List.map ofEntry)) threshold n).getLsbD i = decide (threshold ≤ tally votes n i) := by
  unfold resultBitmask
  rw [getLsbD_foldl_or (fun j => (countVotes (votes.map (List.map ofEntry)) n j : Int) ≥ threshold) _ _ hi,
    show (0 : BitVec 64).getLsbD i = false from BitVec.getLsbD_zero, Bool.false_or, countVotes_eq hgood hlen hi,
    Bool.eq_iff_iff]
  simp [hi]

/-- The bits of the result are the versions that win. -/
theorem versionsFrom_resultBitmask :
    versionsFrom (resultBitmask (votes.map (List.map ofEntry)) threshold n) 0 = winning votes threshold n := by
  unfold versionsFrom winning
  apply List.filter_congr
  intro i hi
  exact getLsbD_resultBitmask hgood hlen (by have := List.mem_range'_1.mp hi; omega)

theorem resultBitmask_eq_zero :
    resultBitmask (votes.map (List.map ofEntry)) threshold n = 0 ↔ winning votes threshold n = [] := by
  rw [← versionsFrom_resultBitmask hgood hlen]
  generalize resultBitmask (votes.map (List.map ofEntry)) threshold n = mask
  constructor
  · rintro rfl
    rw [List.eq_nil_iff_forall_not_mem]
    intro i hi
    have := (mem_versionsFrom.mp hi).2.2
    simp at this
  · intro hnil
    refine BitVec.eq_of_getLsbD_eq fun i hi => ?_
    rw [show (0 : BitVec 64).getLsbD i = false from BitVec.getLsbD_zero, Bool.eq_false_iff]
    intro hbit
    have : i ∈ versionsFrom mask 0 := mem_versionsFrom.mpr ⟨Nat.zero_le _, hi, hbit⟩
    rw [hnil] at this
    cases this

/-- What the encoder prints for a name with versions. -/
theorem protoEntryEncodeInto_eq (ht : 0 < threshold) :
    protoEntryEncodeInto ⟨n, resultBitmask (votes.map (List.map ofEntry)) threshold n⟩ =
      some (part (winning votes threshold n) n) := by
  have h0 : (resultBitmask (votes.map (List.map ofEntry)) threshold n).getLsbD 0 = false := by
    rw [getLsbD_resultBitmask hgood hlen (by decide), decide_eq_false_iff_not]
    intro h
    exact Nat.lt_irrefl 0 (winning_pos hgood ht 0 (winning_lt hgood ht h))
  unfold protoEntryEncodeInto
  have henc := encodeMask_eq h0 0 true
  rw [BitVec.ushiftRight_zero, versionsFrom_resultBitmask hgood hlen] at henc
  simp only [henc]
  rfl

theorem mapM_encode (ht : 0 < threshold) (names : List Text) :
    (names.filterMap fun name =>
        if resultBitmask (votes.map (List.map ofEntry)) threshold name ≠ 0 then
          some (⟨name, resultBitmask (votes.map (List.map ofEntry)) threshold name⟩ : ProtoEntry)
        else none).mapM protoEntryEncodeInto =
      some ((names.filter fun n => winning votes threshold n ≠ []).map fun n => part (winning votes threshold n) n) := by
  induction names with
  | nil => rfl
  | cons n names ih =>
    by_cases hw : winning votes threshold n = []
    · rw [List.filterMap_cons_none (by simp [(resultBitmask_eq_zero hgood hlen).mpr hw]),
        List.filter_cons_of_neg (by simpa using hw)]
      exact ih
    · have hm : resultBitmask (votes.map (List.map ofEntry)) threshold n ≠ 0 :=
        fun h => hw ((resultBitmask_eq_zero hgood hlen).mp h)
      simp only [List.filterMap_cons, if_pos hm]
      rw [List.filter_cons_of_pos (by simpa using hw), mapM_cons_eq, protoEntryEncodeInto_eq hgood hlen ht, ih]
      rfl

end

theorem protoNames_spec (ents : List ProtoEntry) (names : List Text) (hn : names.Nodup) :
    (ents.foldl (fun names ent => if ent.name ∈ names then names else names ++ [ent.name]) names).Nodup ∧
      ∀ x, x ∈ ents.foldl (fun names ent => if ent.name ∈ names then names else names ++ [ent.name]) names ↔
        x ∈ names ∨ x ∈ ents.map ProtoEntry.name := by
  induction ents generalizing names with
  | nil => simp [hn]
  | cons e ents ih =>
    rw [List.foldl_cons]
    by_cases he : e.name ∈ names
    · rw [if_pos he]
      refine ⟨(ih names hn).1, fun x => ?_⟩
      rw [(ih names hn).2, List.map_cons, List.mem_cons]
      constructor
      · rintro (h | h)
        · exact .inl h
        · exact .inr (.inr h)
      · rintro (h | rfl | h)
        · exact .inl h
        · exact .inl he
        · exact .inr h
    · rw [if_neg he]
      have hn' : (names ++ [e.name]).Nodup := by
        rw [List.nodup_append]
        refine ⟨hn, by simp, fun a ha b hb => ?_⟩
        rw [List.mem_singleton.mp hb]
        rintro rfl
        exact he ha
      refine ⟨(ih _ hn').1, fun x => ?_⟩
      rw [(ih _ hn').2, List.mem_append, List.mem_singleton, List.map_cons, List.mem_cons, or_assoc]

/-- The names with versions, in the order of the result. -/
def chosen (votes : List (List Entry)) (threshold : Nat) : List Text :=
  ((protoNames (votes.map (List.map ofEntry))).insertionSort StrLe).filter fun n => winning votes threshold n ≠ []

theorem mem_chosen (ht : 0 < threshold) : n ∈ chosen votes threshold ↔ winning votes threshold n ≠ [] := by
  rw [chosen, List.mem_filter, List.mem_insertionSort, decide_eq_true_eq, protoNames, (protoNames_spec _ [] List.nodup_nil).2]
  constructor
  · exact And.right
  · intro hw
    refine ⟨.inr ?_, hw⟩
    obtain ⟨v, hv⟩ := List.exists_mem_of_ne_nil _ hw
    obtain ⟨es, hes, e, he, rfl, -⟩ := exists_lists ht (mem_winning.mp hv).2
    exact List.mem_map.mpr ⟨ofEntry e, List.mem_flatten.mpr ⟨_, List.mem_map_of_mem hes, List.mem_map_of_mem he⟩, rfl⟩

theorem nodup_chosen : (chosen votes threshold).Nodup :=
  ((List.perm_insertionSort StrLe _).nodup_iff.mpr (protoNames_spec _ [] List.nodup_nil).1).filter _

theorem pairwise_chosen : (chosen votes threshold).Pairwise StrLe := (List.pairwise_insertionSort StrLe _).filter _

/-- The names are sorted, then printed. -/
theorem protoverComputeVote_eq {lists : List Text} (hlen : lists.length < 256)
    (hparse : lists.filterMap parseProtocolList = votes.map (List.map ofEntry)) (hgood : ∀ es ∈ votes, GoodList es)
    (ht : 0 < threshold) :
    protoverComputeVote lists threshold =
      some ([' '].intercalate ((chosen votes threshold).map fun n => part (winning votes threshold n) n)) := by
  have hvotes : votes.length < 256 := by
    have h := List.length_filterMap_le parseProtocolList lists
    rw [hparse, List.length_map] at h
    omega
  unfold protoverComputeVote
  rw [if_neg (not_not.mpr hlen)]
  by_cases hnil : lists.length = 0
  · have hv : votes = [] := by
      rw [List.length_eq_zero_iff.mp hnil] at hparse
      exact List.map_eq_nil_iff.mp hparse.symm
    subst hv
    rw [if_pos hnil]
    rfl
  · rw [if_neg hnil]
    simp only [hparse, encodeProtocolList, mapM_encode hgood hvotes ht]
    rfl

end

end C

end Badnet.Protover
