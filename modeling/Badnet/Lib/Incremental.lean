/-
  Badnet.Lib.Incremental — readers that may be given only the start of their input.

  A reader is `Steady` when more input never changes its mind: it takes the same elements off whatever follows them,
  every proper start of these is too short, and what cannot be read stays so. It is `Within n` when it takes at most `n`
  elements and never finds `n` elements too short. Readers made with `do` from steady ones are steady (`Steady.bind`),
  and their bounds add up (`Within.bind`).
-/

import Mathlib.Data.List.Basic

namespace Badnet.Lib

inductive ReadError where
  | short
  | bad
  deriving DecidableEq

abbrev Reader (β α : Type) := StateT (List β) (Except ReadError) α

namespace Reader

variable {α β γ : Type}

def item : Reader β β
  | [] => .error .short
  | b :: rest => .ok (b, rest)

def items (n : Nat) : Reader β (List β) := fun input =>
  if n ≤ input.length then .ok (input.take n, input.drop n) else .error .short

/-- Up to the first `stop`, which is taken off too. -/
def upTo [DecidableEq β] (stop : β) : Reader β (List β) := fun input =>
  if stop ∈ input then .ok (input.takeWhile (· ≠ stop), (input.dropWhile (· ≠ stop)).tail) else .error .short

def check (p : Prop) [Decidable p] : Reader β Unit := fun input => if p then .ok ((), input) else .error .bad

/-- Nothing can be read here. -/
def refuse : Reader β α := fun _ => .error .bad

theorem bind_apply (r : Reader β α) (f : α → Reader β γ) (input : List β) :
    (r >>= f) input = match r input with
      | .ok (a, rest) => f a rest
      | .error e => .error e := by
  change (r input >>= fun p => f p.1 p.2) = _
  cases r input <;> rfl

variable {input rest : List β}

theorem bind_ok {r : Reader β α} {f : α → Reader β γ} {c : γ} :
    (r >>= f) input = .ok (c, rest) ↔ ∃ a mid, r input = .ok (a, mid) ∧ f a mid = .ok (c, rest) := by
  rw [bind_apply]
  constructor
  · intro h
    split at h
    next a mid hread => exact ⟨a, mid, hread, h⟩
    next => cases h
  · intro ⟨a, mid, hread, h⟩
    rw [hread]
    exact h

theorem item_ok {b : β} : item input = .ok (b, rest) ↔ input = b :: rest := by
  cases input <;> simp [item]

theorem items_ok {n : Nat} {a : List β} : items n input = .ok (a, rest) ↔ input = a ++ rest ∧ a.length = n := by
  unfold items
  constructor
  · intro h
    split at h
    next hn =>
      cases h
      exact ⟨(List.take_append_drop n input).symm, List.length_take_of_le hn⟩
    next => cases h
  · intro ⟨hinput, hlen⟩
    have hn : n ≤ input.length := by simp [hinput, hlen]
    rw [if_pos hn, hinput, List.take_left' hlen, List.drop_left' hlen]

theorem check_ok {p : Prop} [Decidable p] {u : Unit} : check p input = .ok (u, rest) ↔ p ∧ input = rest := by
  by_cases hp : p <;> simp [check, hp]

theorem upTo_append [DecidableEq β] {stop : β} {word : List β} (h : stop ∉ word) (rest : List β) :
    upTo stop (word ++ stop :: rest) = .ok (word, rest) := by
  have hin : stop ∈ word ++ stop :: rest := List.mem_append_right _ List.mem_cons_self
  have hall : ∀ b ∈ word, decide (b ≠ stop) = true := fun b hb => decide_eq_true fun e => h (e ▸ hb)
  rw [upTo, if_pos hin, List.takeWhile_append_of_pos hall, List.dropWhile_append_of_pos hall]
  simp

theorem upTo_ok [DecidableEq β] {stop : β} {word : List β} (h : upTo stop input = .ok (word, rest)) :
    input = word ++ stop :: rest := by
  by_cases hin : stop ∈ input
  · obtain ⟨word', rest', rfl, hword⟩ := List.eq_append_cons_of_mem hin
    rw [upTo_append hword] at h
    cases h
    rfl
  · rw [upTo, if_neg hin] at h
    cases h

end Reader

variable {α β γ : Type}

/-- These elements are what the reader takes for `a`, no matter what follows; fewer are too few. -/
structure Takes (r : Reader β α) (used : List β) (a : α) : Prop where
  ok : ∀ rest, r (used ++ rest) = .ok (a, rest)
  short : ∀ start, start <+: used → start.length < used.length → r start = .error .short

structure Steady (r : Reader β α) : Prop where
  ok : ∀ {input a rest}, r input = .ok (a, rest) → ∃ used, input = used ++ rest ∧ Takes r used a
  bad : ∀ {input}, r input = .error .bad → ∀ more, r (input ++ more) = .error .bad

variable {r : Reader β α} {input rest : List β} {a : α}

theorem Steady.append (h : Steady r) (hread : r input = .ok (a, rest))
    (more : List β) : r (input ++ more) = .ok (a, rest ++ more) := by
  obtain ⟨used, rfl, htakes⟩ := h.ok hread
  rw [List.append_assoc, htakes.ok]

theorem Steady.drop (h : Steady r) (hread : r input = .ok (a, rest)) :
    input.drop (input.length - rest.length) = rest := by
  obtain ⟨used, rfl, -⟩ := h.ok hread
  simp

/-- What was too short lacked some of the elements that are taken. -/
theorem Steady.lt_of_short (h : Steady r) {more : List β}
    (hshort : r input = .error .short) (hread : r (input ++ more) = .ok (a, rest)) :
    input.length + rest.length < (input ++ more).length := by
  obtain ⟨used, hused, htakes⟩ := h.ok hread
  by_contra hle
  have hlen : used.length ≤ input.length := by
    rw [hused, List.length_append] at hle
    omega
  have hstart : used <+: input ++ more := hused ▸ List.prefix_append used rest
  obtain ⟨tail, rfl⟩ := List.prefix_of_prefix_length_le hstart (List.prefix_append input more) hlen
  rw [htakes.ok] at hshort
  cases hshort

structure Within (n : Nat) (r : Reader β α) : Prop where
  ok : ∀ {input a rest}, r input = .ok (a, rest) → input.length ≤ rest.length + n
  short : ∀ {input}, r input = .error .short → input.length < n

/-! ## Steady readers -/

namespace Steady

theorem pure (a : α) : Steady (pure a : Reader β α) where
  ok h := by
    cases h
    exact ⟨[], rfl, fun _ => rfl, fun _ _ hlen => absurd hlen (Nat.not_lt_zero _)⟩
  bad h := by cases h

theorem item : Steady (Reader.item : Reader β β) where
  ok {input b rest} h := by
    cases input with
    | nil => cases h
    | cons c input =>
      cases h
      refine ⟨[b], rfl, fun _ => rfl, fun start _ hlen => ?_⟩
      rw [List.length_eq_zero_iff.mp (Nat.lt_one_iff.mp hlen)]
      rfl
  bad {input} h := by cases input <;> cases h

theorem items (n : Nat) : Steady (Reader.items n : Reader β (List β)) where
  ok {input a rest} h := by
    unfold Reader.items at h
    split at h
    next hn =>
      cases h
      have hlen : (input.take n).length = n := List.length_take_of_le hn
      refine ⟨input.take n, (List.take_append_drop n input).symm, fun rest => ?_, fun start _ hshort => ?_⟩
      · have hle : n ≤ (input.take n ++ rest).length := by simp [hn]
        rw [Reader.items, if_pos hle, List.take_left' hlen, List.drop_left' hlen]
      · exact if_neg (by omega)
    next => cases h
  bad {input} h := by
    unfold Reader.items at h
    split at h <;> cases h

theorem upTo [DecidableEq β] (stop : β) : Steady (Reader.upTo stop) where
  ok {input a rest} h := by
    by_cases hin : stop ∈ input
    · obtain ⟨word, rest', rfl, hword⟩ := List.eq_append_cons_of_mem hin
      rw [Reader.upTo_append hword] at h
      cases h
      refine ⟨a ++ [stop], by simp, fun more => ?_, fun start hstart hlen => if_neg fun hmem => ?_⟩
      · rw [List.append_assoc]
        exact Reader.upTo_append hword more
      · have hle : start.length ≤ a.length := by
          rw [List.length_append, List.length_singleton] at hlen
          omega
        exact hword ((List.prefix_of_prefix_length_le hstart (List.prefix_append a _) hle).mem hmem)
    · rw [Reader.upTo, if_neg hin] at h
      cases h
  bad {input} h := by
    unfold Reader.upTo at h
    split at h <;> cases h

theorem check (p : Prop) [Decidable p] : Steady (Reader.check p : Reader β Unit) where
  ok {input a rest} h := by
    unfold Reader.check at h
    split at h
    next hp =>
      cases h
      exact ⟨[], rfl, fun _ => if_pos hp, fun _ _ hlen => absurd hlen (Nat.not_lt_zero _)⟩
    next => cases h
  bad {input} h more := by
    unfold Reader.check at h
    split at h
    next => cases h
    next hp => exact if_neg hp

theorem refuse : Steady (Reader.refuse : Reader β α) where
  ok h := by cases h
  bad _ _ := rfl

theorem bind {r : Reader β α} {f : α → Reader β γ} (hr : Steady r) (hf : ∀ a, Steady (f a)) : Steady (r >>= f) where
  ok {input c rest} h := by
    rw [Reader.bind_apply] at h
    split at h
    next a mid hread =>
      obtain ⟨used, rfl, htakes⟩ := hr.ok hread
      obtain ⟨used', rfl, htakes'⟩ := (hf a).ok h
      refine ⟨used ++ used', (List.append_assoc ..).symm, fun more => ?_, fun start hstart hlen => ?_⟩
      · rw [Reader.bind_apply, List.append_assoc, htakes.ok]
        exact htakes'.ok more
      · -- a start ends within what the first reader takes, or within what the second one does
        rw [Reader.bind_apply]
        by_cases hlt : start.length < used.length
        · have hused : start <+: used :=
            List.prefix_of_prefix_length_le hstart (List.prefix_append used _) (Nat.le_of_lt hlt)
          rw [htakes.short start hused hlt]
        · obtain ⟨start', rfl⟩ : used <+: start :=
            List.prefix_of_prefix_length_le (List.prefix_append used _) hstart (Nat.le_of_not_lt hlt)
          rw [htakes.ok]
          refine htakes'.short start' ((List.prefix_append_right_inj used).mp hstart) ?_
          simpa using hlen
    next => cases h
  bad {input} h more := by
    rw [Reader.bind_apply] at h ⊢
    split at h
    next a mid hread =>
      obtain ⟨used, rfl, htakes⟩ := hr.ok hread
      rw [List.append_assoc, htakes.ok]
      exact (hf a).bad h more
    next e hread =>
      cases h
      rw [hr.bad hread more]

end Steady

/-! ## Bounds -/

namespace Within

theorem pure (a : α) : Within 0 (pure a : Reader β α) where
  ok h := by cases h; exact Nat.le_refl _
  short h := by cases h

theorem item : Within 1 (Reader.item : Reader β β) where
  ok {input b rest} h := by
    cases input with
    | nil => cases h
    | cons c input =>
      cases h
      exact Nat.le_refl _
  short {input} h := by
    cases input with
    | nil => exact Nat.one_pos
    | cons c input => cases h

theorem items (n : Nat) : Within n (Reader.items n : Reader β (List β)) where
  ok {input a rest} h := by
    unfold Reader.items at h
    split at h
    next =>
      cases h
      rw [List.length_drop]
      omega
    next => cases h
  short {input} h := by
    unfold Reader.items at h
    split at h
    next => cases h
    next hn => omega

theorem check (p : Prop) [Decidable p] : Within 0 (Reader.check p : Reader β Unit) where
  ok {input a rest} h := by
    unfold Reader.check at h
    split at h
    next =>
      cases h
      exact Nat.le_refl _
    next => cases h
  short {input} h := by
    unfold Reader.check at h
    split at h <;> cases h

theorem refuse : Within 0 (Reader.refuse : Reader β α) where
  ok h := by cases h
  short h := by cases h

theorem mono {m n : Nat} {r : Reader β α} (h : Within m r) (hle : m ≤ n) : Within n r where
  ok hread := Nat.le_trans (h.ok hread) (Nat.add_le_add_left hle _)
  short hread := Nat.lt_of_lt_of_le (h.short hread) hle

theorem bind {m n : Nat} {r : Reader β α} {f : α → Reader β γ} (hr : Within m r) (hf : ∀ a, Within n (f a)) :
    Within (m + n) (r >>= f) where
  ok {input c rest} h := by
    rw [Reader.bind_apply] at h
    split at h
    next a mid hread =>
      have hfirst := hr.ok hread
      have hsecond := (hf a).ok h
      omega
    next => cases h
  short {input} h := by
    rw [Reader.bind_apply] at h
    split at h
    next a mid hread =>
      have hfirst := hr.ok hread
      have hsecond := (hf a).short h
      omega
    next e hread =>
      cases h
      have hfirst := hr.short hread
      omega

end Within

end Badnet.Lib
