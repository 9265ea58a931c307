/-
  Badnet.Lib.Fields — reading a record from words.

  A word may name a field and give its value. The first word for a field sets it; a word for a field that is set, or for
  no field at all, is left over, in order. Words that are written from a table with one row a field give the table back,
  and what was left over before is left over again (`read_rows`, `read_extra`).
-/

import Mathlib.Logic.Function.Basic
import Mathlib.Data.List.Basic

namespace Badnet.Lib

/-- The values that are set, and the words that are left over. -/
structure Fields (κ ν ω : Type) where
  vals : κ → Option ν
  extra : List ω

section
variable {κ ν ω : Type} [DecidableEq κ] (recognise : ω → Option (κ × ν))

def Fields.empty : Fields κ ν ω where
  vals := fun _ => none
  extra := []

def Fields.readWord (fields : Fields κ ν ω) (w : ω) : Fields κ ν ω :=
  match recognise w with
  | none => { fields with extra := fields.extra ++ [w] }
  | some (key, value) =>
    if (fields.vals key).isSome then { fields with extra := fields.extra ++ [w] }
    else { fields with vals := Function.update fields.vals key (some value) }

/-- The value in the row of a key. -/
def rowValue (rows : List (κ × Option ν)) (key : κ) : Option ν := (rows.lookup key).join

/-- The words of the rows that have a value. -/
def rowWords (word : κ → ν → ω) (rows : List (κ × Option ν)) : List ω :=
  rows.filterMap fun row => row.2.map (word row.1)

variable {recognise} {word : κ → ν → ω}

theorem rowValue_cons (key : κ) (value : Option ν) (rows : List (κ × Option ν)) (k : κ) :
    rowValue ((key, value) :: rows) k = if k = key then value else rowValue rows k := by
  unfold rowValue
  by_cases hk : k = key
  · subst hk
    rw [List.lookup_cons_self, if_pos rfl, Option.join_some]
  · rw [List.lookup_cons, beq_eq_false_iff_ne.mpr hk, if_neg hk]

variable {rows : List (κ × Option ν)}

theorem rowValue_of_notMem {key : κ} (h : key ∉ rows.map Prod.fst) : rowValue rows key = none := by
  induction rows with
  | nil => rfl
  | cons row rows ih =>
    obtain ⟨k, value⟩ := row
    rw [List.map_cons, List.mem_cons, not_or] at h
    rw [rowValue_cons, if_neg h.1]
    exact ih h.2

theorem read_extra {ws : List ω} (h : ∀ w ∈ ws, recognise w = none) (fields : Fields κ ν ω) :
    ws.foldl (Fields.readWord recognise) fields = { fields with extra := fields.extra ++ ws } := by
  induction ws generalizing fields with
  | nil => rw [List.foldl_nil, List.append_nil]
  | cons w ws ih =>
    obtain ⟨hw, hws⟩ := List.forall_mem_cons.mp h
    have hstep : fields.readWord recognise w = { fields with extra := fields.extra ++ [w] } := by
      rw [Fields.readWord, hw]
    rw [List.foldl_cons, hstep, ih hws, List.append_assoc]
    rfl

/-- Every row sets its own field, if none of them was set before. -/
theorem read_rows (hword : ∀ row ∈ rows, ∀ value, row.2 = some value →
    recognise (word row.1 value) = some (row.1, value)) (hkeys : (rows.map Prod.fst).Nodup) (fields : Fields κ ν ω)
    (hopen : ∀ row ∈ rows, fields.vals row.1 = none) :
    (rowWords word rows).foldl (Fields.readWord recognise) fields =
      { fields with vals := fun key => (fields.vals key).or (rowValue rows key) } := by
  induction rows generalizing fields with
  | nil =>
    have hvals : (fun key => (fields.vals key).or (rowValue [] key)) = fields.vals := by
      funext key
      exact Option.or_none
    rw [hvals]
    rfl
  | cons row rows ih =>
    obtain ⟨key, value⟩ := row
    obtain ⟨hfirst, hrest⟩ := List.forall_mem_cons.mp hopen
    rw [List.map_cons, List.nodup_cons] at hkeys
    have hlater : rowValue rows key = none := rowValue_of_notMem hkeys.1
    have ih := ih (fun row hrow => hword row (List.mem_cons_of_mem _ hrow)) hkeys.2
    cases value with
    | none =>
      have hwords : rowWords word ((key, none) :: rows) = rowWords word rows := rfl
      have hvals : ∀ k, rowValue ((key, none) :: rows) k = rowValue rows k := by
        intro k
        rw [rowValue_cons]
        by_cases hk : k = key
        · rw [if_pos hk, hk, hlater]
        · rw [if_neg hk]
      rw [hwords, ih fields hrest]
      simp only [hvals]
    | some v =>
      have hwords : rowWords word ((key, some v) :: rows) = word key v :: rowWords word rows := rfl
      have hrecognise : recognise (word key v) = some (key, v) := hword (key, some v) List.mem_cons_self v rfl
      have hfirst : fields.vals key = none := hfirst
      have hstep : fields.readWord recognise (word key v) = { fields with vals := Function.update fields.vals key (some v) } := by
        rw [Fields.readWord, hrecognise]
        simp only [hfirst, Option.isSome_none, Bool.false_eq_true, if_false]
      have hstill : ∀ row ∈ rows, Function.update fields.vals key (some v) row.1 = none := by
        intro row hrow
        have hne : row.1 ≠ key := by
          intro h
          exact hkeys.1 (List.mem_map.mpr ⟨row, hrow, h⟩)
        rw [Function.update_of_ne hne]
        exact hrest row hrow
      have hvals : ∀ k, (Function.update fields.vals key (some v) k).or (rowValue rows k) =
          (fields.vals k).or (rowValue ((key, some v) :: rows) k) := by
        intro k
        rw [rowValue_cons]
        by_cases hk : k = key
        · rw [hk, Function.update_self, hfirst, if_pos rfl]
          rfl
        · rw [Function.update_of_ne hk, if_neg hk]
      rw [hwords, List.foldl_cons, hstep, ih _ hstill]
      simp only [hvals]

/-- A record from the words of a table and further words. -/
theorem read_table {ws : List ω} (hword : ∀ row ∈ rows, ∀ value, row.2 = some value →
    recognise (word row.1 value) = some (row.1, value)) (hkeys : (rows.map Prod.fst).Nodup)
    (hextra : ∀ w ∈ ws, recognise w = none) :
    (rowWords word rows ++ ws).foldl (Fields.readWord recognise) Fields.empty = ⟨rowValue rows, ws⟩ := by
  rw [List.foldl_append, read_rows hword hkeys _ fun _ _ => rfl, read_extra hextra]
  simp only [Fields.empty, List.nil_append, Option.none_or]

end

end Badnet.Lib
