/-
  Badnet.Lib.FirstMatch — lists of rules of which the first one that matches decides.

  A rule matches some of the points and has a verdict. Two rules can be dropped and every point keeps its verdict: one
  that an earlier rule covers (`firstMatch_shadowed`), and one that a later rule of the same verdict covers, if no rule
  of another verdict in between has a point in common with it (`firstMatch_absorbed`).
-/

import Mathlib.Data.List.Basic

namespace Badnet.Lib

section
variable {R V : Type} {hit : R → Bool} {verdict : R → V}

/-- The verdict at a point; `hit` says which rules match there. -/
def firstMatch (hit : R → Bool) (verdict : R → V) (l : List R) : Option V := (l.find? hit).map verdict

theorem firstMatch_append (xs ys : List R) :
    firstMatch hit verdict (xs ++ ys) = (firstMatch hit verdict xs).or (firstMatch hit verdict ys) := by
  unfold firstMatch
  rw [List.find?_append]
  cases xs.find? hit <;> rfl

theorem firstMatch_append_congr {xs ys zs : List R} (h : firstMatch hit verdict ys = firstMatch hit verdict zs) :
    firstMatch hit verdict (xs ++ ys) = firstMatch hit verdict (xs ++ zs) := by
  rw [firstMatch_append, firstMatch_append, h]

variable {a b : R} {post : List R}

theorem firstMatch_cons_of_not_hit (l : List R) (h : hit a = false) :
    firstMatch hit verdict (a :: l) = firstMatch hit verdict l := by
  simp [firstMatch, h]

/-- What an earlier rule covers decides nothing. -/
theorem firstMatch_shadowed {pre : List R} (ha : a ∈ pre) (hab : hit b = true → hit a = true) :
    firstMatch hit verdict (pre ++ b :: post) = firstMatch hit verdict (pre ++ post) := by
  by_cases hb : hit b = true
  · obtain ⟨c, hc⟩ := Option.isSome_iff_exists.mp (List.find?_isSome.mpr ⟨a, ha, hab hb⟩)
    simp [firstMatch, hc]
  · refine firstMatch_append_congr (firstMatch_cons_of_not_hit post ?_)
    simpa using hb

/-- Where `a` matches, what comes up to `b` says what `a` says. -/
theorem firstMatch_up_to {mid : List R} (hb : hit b = true) (hv : verdict b = verdict a)
    (hmid : ∀ c ∈ mid, hit c = true → verdict c = verdict a) :
    firstMatch hit verdict (mid ++ b :: post) = some (verdict a) := by
  induction mid with
  | nil => simp [firstMatch, hb, hv]
  | cons c mid ih =>
    by_cases hc : hit c = true
    · simp [firstMatch, hc, hmid c List.mem_cons_self hc]
    · rw [List.cons_append, firstMatch_cons_of_not_hit _ (by simpa using hc)]
      exact ih fun d hd => hmid d (List.mem_cons_of_mem c hd)

theorem firstMatch_only_iff {v : V} {l : List R} : (∀ u, firstMatch hit verdict l = some u → u = v) ↔
    ∀ pre c post, l = pre ++ c :: post → hit c = true → verdict c ≠ v → ∃ e ∈ pre, hit e = true ∧ verdict e = v := by
  refine ⟨fun h pre c post hl hc hv => ?_, fun h u hu => ?_⟩
  · subst hl
    cases hpre : pre.find? hit with
    | none => exact absurd (h (verdict c) (by simp [firstMatch, hpre, hc])) hv
    | some e =>
      have hlast : firstMatch hit verdict (pre ++ c :: post) = some (verdict e) := by simp [firstMatch, hpre]
      exact ⟨e, List.mem_of_find?_eq_some hpre, List.find?_some hpre, h _ hlast⟩
  · obtain ⟨c, hfind, rfl⟩ := Option.map_eq_some_iff.mp hu
    obtain ⟨hc, pre, post, rfl, hpre⟩ := List.find?_eq_some_iff_append.mp hfind
    by_contra hv
    obtain ⟨e, he, hit, -⟩ := h pre c post rfl hc hv
    have hno := hpre e he
    simp [hit] at hno

theorem firstMatch_absorbed {pre mid : List R} (hab : hit a = true → hit b = true)
    (hv : verdict b = verdict a) (hmid : ∀ c ∈ mid, hit a = true → hit c = true → verdict c = verdict a) :
    firstMatch hit verdict (pre ++ a :: (mid ++ b :: post)) = firstMatch hit verdict (pre ++ (mid ++ b :: post)) := by
  refine firstMatch_append_congr ?_
  by_cases ha : hit a = true
  · rw [firstMatch_up_to (hab ha) hv fun c hc => hmid c hc ha]
    simp [firstMatch, ha]
  · exact firstMatch_cons_of_not_hit _ (by simpa using ha)

end

end Badnet.Lib
