/-
  Badnet.Lib.Settle — a step that is repeated until it comes to rest, but a bounded number of times.

  Coming to rest may still change the state. A run reports its effect when it changes nothing if it did not go on, and
  when the state where it came to rest is one at which the step rests at once. That is so exactly when every rest on the
  way leaves its state alone, or leaves one, after at least one step, that is itself at rest (`reports_iff`).
-/

namespace Badnet.Lib

inductive Turn (σ : Type) where
  | rest (s : σ)
  | next (s : σ)

section
variable {σ : Type} (turn : σ → Turn σ)

/-- How many steps went on, and the state that is left. -/
def settle : Nat → σ → Nat × σ
  | 0, s => (0, s)
  | n + 1, s =>
    match turn s with
    | .rest s' => (0, s')
    | .next s' => ((settle n s').1 + 1, (settle n s').2)

/-- Some steps that went on. -/
inductive GoesOn : Nat → σ → σ → Prop
  | refl (s : σ) : GoesOn 0 s s
  | step {k : Nat} {s s' b : σ} : turn s = .next s' → GoesOn k s' b → GoesOn (k + 1) s b

def Reports (n : Nat) (s : σ) : Prop :=
  ((settle turn n s).1 = 0 → (settle turn n s).2 = s) ∧
  ((settle turn n s).1 < n → settle turn n (settle turn n s).2 = (0, (settle turn n s).2))

variable {turn} {s s' : σ} {n : Nat}

theorem settle_rest (n : Nat) (h : turn s = .rest s') : settle turn (n + 1) s = (0, s') := by
  rw [settle, h]

theorem settle_next (n : Nat) (h : turn s = .next s') :
    settle turn (n + 1) s = ((settle turn n s').1 + 1, (settle turn n s').2) := by
  rw [settle, h]

theorem GoesOn.settle {k : Nat} {b : σ} (h : GoesOn turn k s b) (hk : k < n) (hrest : turn b = .rest s') :
    settle turn n s = (k, s') := by
  induction h generalizing n with
  | refl s =>
    obtain ⟨m, rfl⟩ := Nat.exists_eq_succ_of_ne_zero (Nat.ne_of_gt hk)
    exact settle_rest m hrest
  | step hnext _ ih =>
    obtain ⟨m, rfl⟩ := Nat.exists_eq_succ_of_ne_zero (Nat.ne_of_gt (Nat.lt_of_le_of_lt (Nat.zero_le _) hk))
    rw [settle_next m hnext, ih (Nat.lt_of_succ_lt_succ hk) hrest]

/-- A run that ends early came to rest. -/
theorem goesOn_of_settle (h : (settle turn n s).1 < n) :
    ∃ b, GoesOn turn (settle turn n s).1 s b ∧ turn b = .rest (settle turn n s).2 := by
  induction n generalizing s with
  | zero => cases h
  | succ n ih =>
    cases hturn : turn s with
    | rest s' =>
      rw [settle_rest n hturn]
      exact ⟨s, .refl s, hturn⟩
    | next s' =>
      rw [settle_next n hturn] at h ⊢
      obtain ⟨b, hgoes, hrest⟩ := ih (Nat.lt_of_succ_lt_succ h)
      exact ⟨b, .step hturn hgoes, hrest⟩

theorem GoesOn.eq_of_zero {b : σ} (h : GoesOn turn 0 s b) : b = s := by
  cases h
  rfl

theorem settle_stays (hn : 0 < n) : settle turn n s = (0, s) ↔ turn s = .rest s := by
  obtain ⟨m, rfl⟩ := Nat.exists_eq_succ_of_ne_zero (Nat.ne_of_gt hn)
  cases hturn : turn s with
  | rest s' =>
    rw [settle_rest m hturn]
    simp
  | next s' =>
    rw [settle_next m hturn]
    simp

theorem reports_iff (hn : 0 < n) (s : σ) : Reports turn n s ↔
    ∀ k < n, ∀ b s', GoesOn turn k s b → turn b = .rest s' → s' = b ∨ (0 < k ∧ turn s' = .rest s') := by
  constructor
  · rintro ⟨hsame, hstays⟩ k hk b s' hgoes hrest
    have hsettle := hgoes.settle hk hrest
    rw [hsettle] at hsame hstays
    cases k with
    | zero => exact .inl (by rw [hgoes.eq_of_zero]; exact hsame rfl)
    | succ k => exact .inr ⟨Nat.succ_pos k, (settle_stays hn).mp (hstays hk)⟩
  · intro h
    constructor
    · intro hzero
      obtain ⟨b, hgoes, hrest⟩ := goesOn_of_settle (by rw [hzero]; exact hn)
      rw [hzero] at hgoes
      have hleft := (h 0 hn b _ hgoes hrest).resolve_right fun hpos => Nat.lt_irrefl 0 hpos.1
      rw [hleft, hgoes.eq_of_zero]
    · intro hearly
      obtain ⟨b, hgoes, hrest⟩ := goesOn_of_settle hearly
      refine (settle_stays hn).mpr ?_
      rcases h _ hearly b _ hgoes hrest with heq | ⟨-, hagain⟩
      · rw [heq] at hrest ⊢
        exact hrest
      · exact hagain

end

end Badnet.Lib
