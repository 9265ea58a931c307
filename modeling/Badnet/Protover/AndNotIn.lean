/-
  Badnet.Protover.AndNotIn — the difference of two sets of versions in Rust (`rust/protover/protoset.rs`).

  `and_not_in` goes through the ranges of the first set and cuts the ranges of the second out of each. A `u32` that
  overflows and a failed `expect` are panics, here `none`. For two well-formed sets there is no panic, the result is
  well formed, and it has exactly the versions of the first set that are not in the second
  (`Rust.ProtoSet.and_not_in_exact`).
-/

import Badnet.Lib.Sorting
import Badnet.Protover.Agreement

namespace Badnet.Protover.Rust.ProtoSet

open Lib

/-! ## The difference -/

def addU32 (a b : Nat) : Option Nat := if a + b ≤ U32_MAX then some (a + b) else none

def subU32 (a b : Nat) : Option Nat := if b ≤ a then some (a - b) else none

/-- The closure with `nextlo`, over the ranges that are excluded. -/
def notExcluded (nextlo : Nat) : List (Nat × Nat) → Option (List (Nat × Nat))
  | [] => some []
  | (excludedLo, excludedHi) :: rest => do
    let pair ← if nextlo < excludedLo then (subU32 excludedLo 1).map fun hi => [(nextlo, hi)] else some []
    let nextlo ← addU32 (min excludedHi (U32_MAX - 1)) 1
    let pairs ← notExcluded nextlo rest
    pure (pair ++ pairs)

variable (other : List (Nat × Nat))

/-- The excluded ranges that overlap a range: some at the start are skipped, then some are taken. -/
def overlapping (lo hi : Nat) : List (Nat × Nat) :=
  (other.dropWhile fun r => r.2 < lo).takeWhile fun r => r.1 ≤ hi

/-- One range of the first set. -/
def restOfRange (range : Nat × Nat) : Option (List (Nat × Nat)) := do
  let theEnd ← addU32 range.2 1
  notExcluded range.1 (overlapping other range.1 range.2 ++ [(theEnd, theEnd)])

def andNotIn (self other : ProtoSet) : Option ProtoSet :=
  if self.pairs = [] ∨ other.pairs = [] then some self
  else do
    let pairs ← self.pairs.mapM (restOfRange other.pairs)
    (isOk ⟨pairs.flatten⟩).toOption

/-! ## Ranges in order -/

/-- Ranges from `lo` to `hi`, in ascending order and apart. -/
structure Ascending (lo hi : Nat) (rs : List (Nat × Nat)) : Prop where
  within : ∀ r ∈ rs, lo ≤ r.1 ∧ r.1 ≤ r.2 ∧ r.2 ≤ hi
  apart : rs.Pairwise fun r r' => r.2 < r'.1

def Has (rs : List (Nat × Nat)) (v : Nat) : Prop := ∃ r ∈ rs, r.1 ≤ v ∧ v ≤ r.2

variable {self : ProtoSet} {lo : Nat}

theorem contains_iff {v : Nat} : self.contains v = true ↔ Has self.pairs v := by
  simp only [contains, List.any_eq_true, decide_eq_true_eq, Has]

theorem has_append {rs rs' : List (Nat × Nat)} {v : Nat} : Has (rs ++ rs') v ↔ Has rs v ∨ Has rs' v := by
  simp only [Has, List.mem_append, or_and_right, exists_or]

theorem has_singleton {r : Nat × Nat} {v : Nat} : Has [r] v ↔ r.1 ≤ v ∧ v ≤ r.2 := by
  simp only [Has, List.mem_singleton, exists_eq_left]

theorem has_cons {r : Nat × Nat} {rs : List (Nat × Nat)} {v : Nat} :
    Has (r :: rs) v ↔ (r.1 ≤ v ∧ v ≤ r.2) ∨ Has rs v := by
  rw [← List.singleton_append, has_append, has_singleton]

/-- A part before another one. -/
theorem Ascending.append {hi lo' hi' : Nat} {rs rs' : List (Nat × Nat)} (h : Ascending lo hi rs)
    (h' : Ascending lo' hi' rs') (hlo : lo ≤ lo') (hlt : hi < lo') (hhi : hi ≤ hi') : Ascending lo hi' (rs ++ rs') where
  within r hr := by
    rcases List.mem_append.mp hr with hr | hr
    · have hw := h.within r hr
      omega
    · have hw := h'.within r hr
      omega
  apart := List.pairwise_append.mpr ⟨h.apart, h'.apart, fun r hr r' hr' => by
    have hw := h.within r hr
    have hw' := h'.within r' hr'
    omega⟩

theorem Ascending.mono {hi lo' hi' : Nat} {rs : List (Nat × Nat)} (h : Ascending lo hi rs) (hlo : lo' ≤ lo)
    (hhi : hi ≤ hi') : Ascending lo' hi' rs where
  within r hr := by
    have hw := h.within r hr
    omega
  apart := h.apart

/-! ## One range -/

theorem addU32_capped (x : Nat) : addU32 (min x (U32_MAX - 1)) 1 = some (min x (U32_MAX - 1) + 1) := by
  have hpos : 0 < U32_MAX := by decide
  exact if_pos (by omega)

theorem notExcluded_cons {nextlo : Nat} {r : Nat × Nat} {rest ps : List (Nat × Nat)} (hr : r.2 < U32_MAX)
    (hps : notExcluded (r.2 + 1) rest = some ps) :
    notExcluded nextlo (r :: rest) =
      (if nextlo < r.1 then (subU32 r.1 1).map fun hi => [(nextlo, hi)] else some []).map (· ++ ps) := by
  have hnext : addU32 (min r.2 (U32_MAX - 1)) 1 = some (r.2 + 1) := by
    rw [addU32_capped, Nat.min_eq_left (by omega)]
  rw [notExcluded, hnext]
  by_cases hlt : nextlo < r.1
  · rw [if_pos hlt, if_pos hlt]
    cases (subU32 r.1 1).map fun hi => [(nextlo, hi)] with
    | none => rfl
    | some pair => simp [hps]
  · rw [if_neg hlt, if_neg hlt]
    simp [hps]

/-- Cutting ascending ranges out of the versions from `nextlo` to `hi`, none of which ends below `nextlo`. -/
theorem notExcluded_spec {nextlo hi : Nat} {rs : List (Nat × Nat)} (hrs : Ascending 1 (U32_MAX - 1) rs)
    (hstart : ∀ r ∈ rs, nextlo ≤ r.2) (hstop : ∀ r ∈ rs, r.1 ≤ hi) :
    ∃ ps, notExcluded nextlo (rs ++ [(hi + 1, hi + 1)]) = some ps ∧ Ascending nextlo hi ps ∧
      ∀ v, Has ps v ↔ nextlo ≤ v ∧ v ≤ hi ∧ ¬Has rs v := by
  induction rs generalizing nextlo with
  | nil =>
    by_cases hlt : nextlo < hi + 1
    · have hsub : subU32 (hi + 1) 1 = some hi := if_pos (by omega)
      refine ⟨[(nextlo, hi)], ?_, ⟨?_, List.pairwise_singleton _ _⟩, fun v => ?_⟩
      · simp [notExcluded, hlt, hsub, addU32_capped]
      · simp
        omega
      · rw [has_singleton]
        simp [Has]
    · refine ⟨[], ?_, ⟨by simp, List.Pairwise.nil⟩, fun v => ?_⟩
      · simp [notExcluded, hlt, addU32_capped]
      · simp [Has]
        omega
  | cons r rs ih =>
    obtain ⟨hr, hrest⟩ := List.forall_mem_cons.mp hrs.within
    obtain ⟨happart, hrs'⟩ := List.pairwise_cons.mp hrs.apart
    have hrlo := hstop r List.mem_cons_self
    have hrhi := hstart r List.mem_cons_self
    have hpos : 0 < U32_MAX := by decide
    obtain ⟨ps, hps, hasc, hhas⟩ := @ih (r.2 + 1) ⟨hrest, hrs'⟩
      (fun r' hr' => by have := happart r' hr'; have := hrest r' hr'; omega)
      (fun r' hr' => hstop r' (List.mem_cons_of_mem _ hr'))
    -- the ranges that are left to cut out are all above this one
    have habove : ∀ v, Has rs v → r.2 < v := by
      rintro v ⟨r', hr', hle, -⟩
      have := happart r' hr'
      omega
    have hcons := @notExcluded_cons nextlo r (rs ++ [(hi + 1, hi + 1)]) ps (by omega) hps
    by_cases hlt : nextlo < r.1
    · have hsub : subU32 r.1 1 = some (r.1 - 1) := if_pos (by omega)
      refine ⟨[(nextlo, r.1 - 1)] ++ ps, ?_, ?_, fun v => ?_⟩
      · rw [List.cons_append, hcons, if_pos hlt, hsub]
        rfl
      · have hfirst : Ascending nextlo (r.1 - 1) [(nextlo, r.1 - 1)] :=
          ⟨by simp; omega, List.pairwise_singleton _ _⟩
        exact hfirst.append hasc (by omega) (by omega) (by omega)
      · have hv := habove v
        rw [has_append, has_singleton, hhas, has_cons]
        by_cases hmem : Has rs v
        · have hlt' := hv hmem
          simp only [hmem, not_true_eq_false, and_false, or_true, or_false, iff_false]
          omega
        · simp only [hmem, not_false_eq_true, and_true, or_false]
          omega
    · refine ⟨ps, ?_, hasc.mono (by omega) (Nat.le_refl _), fun v => ?_⟩
      · rw [List.cons_append, hcons, if_neg hlt]
        rfl
      · have hv := habove v
        rw [hhas, has_cons]
        by_cases hmem : Has rs v
        · simp only [hmem, not_true_eq_false, and_false, or_true]
        · simp only [hmem, not_false_eq_true, and_true, or_false]
          omega

/-- In ascending ranges, those that end below `lo` come first, and those that start above `hi` last. -/
theorem mem_overlapping {a b hi : Nat} {rs : List (Nat × Nat)} (hrs : Ascending a b rs) (r : Nat × Nat) :
    r ∈ overlapping rs lo hi ↔ r ∈ rs ∧ lo ≤ r.2 ∧ r.1 ≤ hi := by
  have happart : rs.Pairwise fun r r' => r.1 ≤ r'.1 ∧ r.2 ≤ r'.2 :=
    hrs.apart.imp_of_mem fun {r r'} hr hr' hlt => by
      have hw := hrs.within r hr
      have hw' := hrs.within r' hr'
      omega
  rw [overlapping, dropWhile_eq_filter (happart.imp fun {r r'} h => by simp; omega),
    takeWhile_eq_filter ((happart.filter _).imp fun {r r'} h => by simp; omega)]
  simp only [List.mem_filter, Bool.not_eq_true', decide_eq_false_iff_not, decide_eq_true_eq, Nat.not_lt, and_assoc]

theorem overlapping_ascending {a b hi : Nat} {rs : List (Nat × Nat)} (hrs : Ascending a b rs) :
    Ascending a b (overlapping rs lo hi) where
  within r hr := hrs.within r ((mem_overlapping hrs r).mp hr).1
  apart := hrs.apart.sublist ((List.takeWhile_sublist _).trans (List.dropWhile_sublist _))

theorem restOfRange_spec {other : List (Nat × Nat)} {range : Nat × Nat} (hother : Ascending 1 (U32_MAX - 1) other)
    (hmax : range.2 < U32_MAX) :
    ∃ ps, restOfRange other range = some ps ∧ Ascending range.1 range.2 ps ∧
      ∀ v, Has ps v ↔ (range.1 ≤ v ∧ v ≤ range.2) ∧ ¬Has other v := by
  obtain ⟨ps, hps, hasc, hhas⟩ := @notExcluded_spec range.1 range.2 _ (overlapping_ascending hother)
    (fun r hr => ((mem_overlapping hother r).mp hr).2.1) (fun r hr => ((mem_overlapping hother r).mp hr).2.2)
  have hend : addU32 range.2 1 = some (range.2 + 1) := if_pos (by omega)
  refine ⟨ps, ?_, hasc, fun v => ?_⟩
  · rw [restOfRange, hend]
    exact hps
  · rw [hhas]
    constructor
    · rintro ⟨hlo, hhi, hnot⟩
      refine ⟨⟨hlo, hhi⟩, fun ⟨r, hr, hle⟩ => hnot ⟨r, (mem_overlapping hother r).mpr ⟨hr, ?_⟩, hle⟩⟩
      omega
    · rintro ⟨⟨hlo, hhi⟩, hnot⟩
      exact ⟨hlo, hhi, fun ⟨r, hr, hle⟩ => hnot ⟨r, ((mem_overlapping hother r).mp hr).1, hle⟩⟩

/-! ## All ranges -/

/-- What is left of each range stands within it, so that the parts stand one after another. -/
theorem restOfRanges_spec {other : List (Nat × Nat)} {rs : List (Nat × Nat)}
    (hother : Ascending 1 (U32_MAX - 1) other) (hrs : Ascending lo (U32_MAX - 1) rs) :
    ∃ pss, rs.mapM (restOfRange other) = some pss ∧ Ascending lo (U32_MAX - 1) pss.flatten ∧
      ∀ v, Has pss.flatten v ↔ Has rs v ∧ ¬Has other v := by
  have hpos : 0 < U32_MAX := by decide
  induction rs generalizing lo with
  | nil => exact ⟨[], rfl, ⟨by simp, List.Pairwise.nil⟩, fun v => by simp [Has]⟩
  | cons r rs ih =>
    obtain ⟨hr, hrest⟩ := List.forall_mem_cons.mp hrs.within
    obtain ⟨happart, hrs'⟩ := List.pairwise_cons.mp hrs.apart
    obtain ⟨ps, hps, hasc, hhas⟩ := @restOfRange_spec other r hother (by omega)
    obtain ⟨pss, hpss, hasc', hhas'⟩ := @ih (r.2 + 1)
      ⟨fun r' hr' => by have := happart r' hr'; have := hrest r' hr'; omega, hrs'⟩
    refine ⟨ps :: pss, ?_, ?_, fun v => ?_⟩
    · simp [List.mapM_cons, hps, hpss]
    · rw [List.flatten_cons]
      exact (hasc.append hasc' (by omega) (by omega) (by omega)).mono hr.1 (Nat.le_refl _)
    · rw [List.flatten_cons, has_append, hhas, hhas', has_cons, ← or_and_right]

/-! ## Two well-formed sets -/

theorem isOkLoop_below {lastHigh : Nat} {l : List (Nat × Nat)} (h : isOkLoop lastHigh l = .ok ()) :
    ∀ r ∈ l, r.1 ≠ U32_MAX ∧ r.2 ≠ U32_MAX := by
  induction l generalizing lastHigh with
  | nil => simp
  | cons r l ih =>
    rw [isOkLoop] at h
    by_cases hmax : r.1 = U32_MAX ∨ r.2 = U32_MAX
    · rw [if_pos hmax] at h
      cases h
    · rw [if_neg hmax] at h
      by_cases hlast : r.1 ≤ lastHigh
      · rw [if_pos hlast] at h
        cases h
      · rw [if_neg hlast] at h
        by_cases hgt : r.1 > r.2
        · rw [if_pos hgt] at h
          cases h
        · rw [if_neg hgt] at h
          exact List.forall_mem_cons.mpr ⟨not_or.mp hmax, ih h⟩

/-- A set of `u32` pairs. -/
def U32Pairs (self : ProtoSet) : Prop := ∀ r ∈ self.pairs, r.1 ≤ U32_MAX ∧ r.2 ≤ U32_MAX

instance (self : ProtoSet) : Decidable (U32Pairs self) :=
  inferInstanceAs (Decidable (∀ r ∈ self.pairs, r.1 ≤ U32_MAX ∧ r.2 ≤ U32_MAX))

theorem isOk_eq : isOk self = .ok self ↔ isOkLoop 0 self.pairs = .ok () := by
  rw [isOk]
  cases isOkLoop 0 self.pairs with
  | error e => exact ⟨nofun, nofun⟩
  | ok u => exact ⟨fun _ => rfl, fun _ => rfl⟩

theorem isOk_iff (h32 : U32Pairs self) : isOk self = .ok self ↔ Ascending 1 (U32_MAX - 1) self.pairs := by
  have hpos : 0 < U32_MAX := by decide
  rw [isOk_eq]
  constructor
  · intro h
    have hmax : ∀ r ∈ self.pairs, r.1 < U32_MAX ∧ r.2 < U32_MAX := fun r hr =>
      ⟨Nat.lt_of_le_of_ne (h32 r hr).1 (isOkLoop_below h r hr).1,
        Nat.lt_of_le_of_ne (h32 r hr).2 (isOkLoop_below h r hr).2⟩
    obtain ⟨hle, happart⟩ := (isOkLoop_iff hmax).mp h
    refine ⟨fun r hr => ?_, happart⟩
    have hr1 := hle r hr
    have hr2 := hmax r hr
    omega
  · intro h
    have hmax : ∀ r ∈ self.pairs, r.1 < U32_MAX ∧ r.2 < U32_MAX := by
      intro r hr
      have hw := h.within r hr
      omega
    exact (isOkLoop_iff hmax).mpr ⟨fun r hr => ⟨(h.within r hr).1, (h.within r hr).2.1⟩, h.apart⟩

/-- The difference of two well-formed sets: no overflow and no failed `expect`, and exactly the versions that are in
the first set and not in the second. -/
theorem and_not_in_exact (self other : ProtoSet) (h32 : U32Pairs self) (hother32 : U32Pairs other)
    (hok : isOk self = .ok self) (hother : isOk other = .ok other) :
    ∃ result, andNotIn self other = some result ∧ isOk result = .ok result ∧
      ∀ v, result.contains v = true ↔ self.contains v = true ∧ ¬other.contains v = true := by
  have hself := (isOk_iff h32).mp hok
  have hexcluded := (isOk_iff hother32).mp hother
  by_cases hempty : self.pairs = [] ∨ other.pairs = []
  · refine ⟨self, if_pos hempty, hok, fun v => ?_⟩
    simp only [contains_iff]
    rcases hempty with hnil | hnil
    · simp [hnil, Has]
    · simp [hnil, Has]
  · obtain ⟨pss, hpss, hasc, hhas⟩ := restOfRanges_spec hexcluded hself
    have hresult : isOk ⟨pss.flatten⟩ = .ok ⟨pss.flatten⟩ := by
      refine (isOk_iff fun r hr => ?_).mpr hasc
      have hw := hasc.within r hr
      omega
    refine ⟨⟨pss.flatten⟩, ?_, hresult, fun v => ?_⟩
    · rw [andNotIn, if_neg hempty, hpss]
      simp only [Option.bind_eq_bind, Option.bind_some, hresult]
      rfl
    · rw [contains_iff, contains_iff, contains_iff]
      exact hhas v

/-- The example of the source's documentation. -/
theorem and_not_in_documented :
    isOk ⟨[(1, 1), (3, 6), (10, 12), (15, 16)]⟩ = .ok ⟨[(1, 1), (3, 6), (10, 12), (15, 16)]⟩ ∧
      ∃ result, andNotIn ⟨[(1, 1), (3, 6), (10, 12), (15, 16)]⟩ ⟨[(2, 2), (5, 7), (9, 11), (14, 20)]⟩ = some result ∧
        isOk result = .ok result ∧ ∀ v, result.contains v = true ↔
          ProtoSet.contains ⟨[(1, 1), (3, 6), (10, 12), (15, 16)]⟩ v = true ∧
            ¬ProtoSet.contains ⟨[(2, 2), (5, 7), (9, 11), (14, 20)]⟩ v = true :=
  ⟨by decide, and_not_in_exact _ _ (by decide) (by decide) (by decide) (by decide)⟩

end Badnet.Protover.Rust.ProtoSet
