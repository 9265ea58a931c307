/-
  Badnet.Lib.OpLog — logs of additions to and deletions from a set.

  An operation adds (`true`) or deletes (`false`) a list of elements; `replay` takes a
  log from a set.
-/

import Mathlib.Data.Finset.SDiff

namespace Badnet.Lib

variable {α : Type} [DecidableEq α]

abbrev Op (α : Type) := Bool × List α

def applyOp (S : Finset α) (op : Op α) : Finset α :=
  if op.1 then S ∪ op.2.toFinset else S \ op.2.toFinset

def replay (S : Finset α) (ops : List (Op α)) : Finset α := ops.foldl applyOp S

theorem mem_applyOp {S : Finset α} {op : Op α} {x : α} :
    x ∈ applyOp S op ↔ if op.1 then x ∈ S ∨ x ∈ op.2 else x ∈ S ∧ x ∉ op.2 := by
  unfold applyOp
  split <;> simp

end Badnet.Lib
