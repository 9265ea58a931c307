/-
  Badnet.Lib.Comparison — comparison functions, whose result is below, equal to or above 0.

  Such a function orders the items of a set (`TotalPreorderOn`) when exchanging the arguments turns the sign around and
  "not greater" is transitive (`NotGreater`), as it is when its result is that of comparing two keys
  (`ComparesBy.totalPreorderOn`).
-/

import Mathlib.Data.Int.Order.Basic
import Mathlib.Order.Defs.Unbundled

namespace Badnet.Lib

variable {α : Type}

structure TotalPreorderOn (D : α → Prop) (compare : α → α → Int) : Prop where
  opposite : ∀ a b, D a → D b → (compare a b).sign = -(compare b a).sign
  trans : ∀ a b c, D a → D b → D c → compare a b ≤ 0 → compare b c ≤ 0 → compare a c ≤ 0

/-- A comparison that orders all items. -/
abbrev TotalPreorder (compare : α → α → Int) : Prop := TotalPreorderOn (fun _ => True) compare

def NotGreater (compare : α → α → Int) (a b : α) : Prop := compare a b ≤ 0

instance (compare : α → α → Int) (a b : α) : Decidable (NotGreater compare a b) := inferInstanceAs (Decidable (_ ≤ _))

theorem sign_opposite_iff {x y : Int} : x.sign = -y.sign ↔ (x < 0 ↔ 0 < y) ∧ (0 < x ↔ y < 0) := by
  have hx1 : x.sign = 1 ↔ 0 < x := Int.sign_eq_one_iff_pos
  have hx2 : x.sign = -1 ↔ x < 0 := Int.sign_eq_neg_one_iff_neg
  have hy1 : y.sign = 1 ↔ 0 < y := Int.sign_eq_one_iff_pos
  have hy2 : y.sign = -1 ↔ y < 0 := Int.sign_eq_neg_one_iff_neg
  have hx0 : x.sign = 0 ↔ x = 0 := Int.sign_eq_zero_iff_zero
  have hy0 : y.sign = 0 ↔ y = 0 := Int.sign_eq_zero_iff_zero
  omega

variable {compare : α → α → Int}

/-! ## Comparison of keys -/

section
variable {κ : Type} [LT κ] {D : α → Prop} {key : α → κ}

/-- The result is that of comparing the two keys. -/
def Orders (r : Int) (x y : κ) : Prop := (r < 0 ↔ x < y) ∧ (0 < r ↔ y < x)

def ComparesBy (D : α → Prop) (compare : α → α → Int) (key : α → κ) : Prop :=
  ∀ a b, D a → D b → Orders (compare a b) (key a) (key b)

theorem Orders.congr {r : Int} {x y x' y' : κ} (h : Orders r x y) (hlt : x < y ↔ x' < y') (hgt : y < x ↔ y' < x') :
    Orders r x' y' := ⟨h.1.trans hlt, h.2.trans hgt⟩

theorem Orders.le_iff {r : Int} {x y : κ} (h : Orders r x y) : r ≤ 0 ↔ ¬ y < x := by
  rw [← h.2, Int.not_lt]

/-- The keys may be of any type on which "not greater" is transitive. -/
theorem ComparesBy.totalPreorderOn (h : ComparesBy D compare key)
    (hweak : ∀ x y z : κ, ¬ y < x → ¬ z < y → ¬ z < x) : TotalPreorderOn D compare where
  opposite a b ha hb := by
    obtain ⟨hlt, hgt⟩ := h a b ha hb
    obtain ⟨hlt', hgt'⟩ := h b a hb ha
    exact sign_opposite_iff.mpr ⟨hlt.trans hgt'.symm, hgt.trans hlt'.symm⟩
  trans a b c ha hb hc hab hbc := by
    have hab := (h a b ha hb).le_iff.mp hab
    have hbc := (h b c hb hc).le_iff.mp hbc
    exact (h a c ha hc).le_iff.mpr (hweak _ _ _ hab hbc)

end

namespace TotalPreorder

theorem lt_iff (h : TotalPreorder compare) (a b : α) : compare a b < 0 ↔ ¬NotGreater compare b a := by
  rw [NotGreater, Int.not_le]
  exact (sign_opposite_iff.mp (h.opposite a b trivial trivial)).1

theorem notGreater_of_not_lt (h : TotalPreorder compare) {a b : α} (hnot : ¬compare a b < 0) : NotGreater compare b a :=
  Decidable.not_not.mp fun hle => hnot ((h.lt_iff a b).mpr hle)

theorem refl (h : TotalPreorder compare) (a : α) : NotGreater compare a a := by
  by_contra hnot
  exact hnot (Int.le_of_lt ((h.lt_iff a a).mpr hnot))

theorem isTrans (h : TotalPreorder compare) : IsTrans α (NotGreater compare) :=
  ⟨fun a b c => h.trans a b c trivial trivial trivial⟩

end TotalPreorder

end Badnet.Lib
