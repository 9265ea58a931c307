/-
  Badnet.Lib.Refine — an implementation that follows a specification call by call.

  A call of the implementation gives a state and an answer, or stops the process. The specification says which calls it
  is open to (`legal`), what a call does (`next`), and which answers to it are right (`answers`). When every legal call
  is simulated, every run of legal calls goes through, ends in a related state, and got only right answers
  (`runOut_refines`).
-/

import Mathlib.Data.List.Basic

namespace Badnet.Lib

variable {S Q L O : Type}

structure Spec (Q L O : Type) where
  legal : Q → L → Prop
  next : Q → L → Q
  answers : Q → L → O → Prop

namespace Spec

variable (p : Spec Q L O)

def run (q : Q) (ls : List L) : Q := ls.foldl p.next q

/-- Every call of the list is legal where the specification stands when it is made. -/
def Legal : Q → List L → Prop
  | _, [] => True
  | q, l :: ls => p.legal q l ∧ Legal (p.next q l) ls

/-- One answer for each call, each of them right. -/
def Answers : Q → List L → List O → Prop
  | _, [], os => os = []
  | _, _ :: _, [] => False
  | q, l :: ls, o :: os => p.answers q l o ∧ Answers (p.next q l) ls os

end Spec

/-- The calls one after another, with their answers. -/
def runOut (step : S → L → Option (S × O)) : S → List L → Option (S × List O)
  | s, [] => some (s, [])
  | s, l :: ls => do
    let (t, o) ← step s l
    let (u, os) ← runOut step t ls
    some (u, o :: os)

theorem runOut_refines {step : S → L → Option (S × O)} {p : Spec Q L O} {R : S → Q → Prop}
    (hstep : ∀ s q l, R s q → p.legal q l → ∃ t o, step s l = some (t, o) ∧ p.answers q l o ∧ R t (p.next q l))
    {s : S} {q : Q} (hR : R s q) {ls : List L} (hl : p.Legal q ls) :
    ∃ t os, runOut step s ls = some (t, os) ∧ p.Answers q ls os ∧ R t (p.run q ls) := by
  induction ls generalizing s q with
  | nil => exact ⟨s, [], rfl, rfl, hR⟩
  | cons l ls ih =>
    obtain ⟨t, o, hst, ho, hR'⟩ := hstep s q l hR hl.1
    obtain ⟨u, os, hrun, hos, hR''⟩ := ih hR' hl.2
    refine ⟨u, o :: os, ?_, ⟨ho, hos⟩, hR''⟩
    rw [runOut, hst]
    simp only [Option.bind_eq_bind, Option.bind_some, hrun]

end Badnet.Lib
