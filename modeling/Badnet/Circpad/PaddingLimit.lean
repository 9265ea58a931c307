/-
  Badnet.Circpad.PaddingLimit — the check of the padding limits (`circpad_machine_reached_padding_limit`).

  The check divides by the cells counted so far. A cell that is sent is counted before the machine reacts to it
  (`countSent_spec`); one that is received is not, and may be the first thing it reacts to
  (`a_first_cell_divides_by_zero`). Over any run of a fresh machine no step divides by zero exactly if no received cell
  makes it schedule padding while a divisor is zero (`Defined`, `limit_divides_iff`).
-/

import Badnet.Circpad.Machine
import Badnet.Lib.Run

namespace Badnet.Circpad.PadMachine

open Lib

/-! ## Counters -/

namespace Machine

/-- A cell was counted. -/
def Counted (mi : Machine) : Prop := 0 < mi.paddingSent.toNat + mi.nonpaddingSent.toNat

/-- Both counters are below their bound. -/
structure CountersFit (mi : Machine) : Prop where
  padding : mi.paddingSent < UINT16_MAX
  nonpadding : mi.nonpaddingSent < UINT16_MAX

/-- The machine's own limit divides by something, if it divides. -/
def Ready (mi : Machine) : Prop := mi.spec.maxPaddingPercent = 0 ∨ mi.spec.allowedPaddingCount ≠ 0 ∨ mi.Counted

/-- The machine is the same one, and counts at least as well. -/
structure Later (mi mi' : Machine) : Prop where
  spec : mi'.spec = mi.spec
  counted : mi.Counted → mi'.Counted
  fit : mi'.CountersFit

theorem Later.trans {a b d : Machine} (h : Later a b) (h' : Later b d) : Later a d :=
  ⟨h'.spec.trans h.spec, h'.counted ∘ h.counted, h'.fit⟩

variable {mi mi' : Machine}

theorem Later.ready (h : Later mi mi') (hr : mi.Ready) : mi'.Ready := by
  unfold Ready
  rw [h.spec]
  rcases hr with hr | hr | hr
  · exact .inl hr
  · exact .inr (.inl hr)
  · exact .inr (.inr (h.counted hr))

/-- The updates that leave the specification, the state number and the counters alone. -/
structure SameCounters (mi mi' : Machine) : Prop where
  spec : mi'.spec = mi.spec
  currentState : mi'.currentState = mi.currentState
  padding : mi'.paddingSent = mi.paddingSent
  nonpadding : mi'.nonpaddingSent = mi.nonpaddingSent

theorem SameCounters.refl (mi : Machine) : SameCounters mi mi := ⟨rfl, rfl, rfl, rfl⟩

theorem SameCounters.trans {a b d : Machine} (h : SameCounters a b) (h' : SameCounters b d) : SameCounters a d :=
  ⟨h'.spec.trans h.spec, h'.currentState.trans h.currentState, h'.padding.trans h.padding,
    h'.nonpadding.trans h.nonpadding⟩

theorem SameCounters.counted_iff (h : SameCounters mi mi') : mi'.Counted ↔ mi.Counted := by
  rw [Counted, Counted, h.padding, h.nonpadding]

theorem SameCounters.later (h : SameCounters mi mi') (hfit : mi.CountersFit) : Later mi mi' :=
  ⟨h.spec, h.counted_iff.mpr, by rw [h.padding]; exact hfit.padding, by rw [h.nonpadding]; exact hfit.nonpadding⟩

theorem setupTokens_same (mi : Machine) : SameCounters mi mi.setupTokens := by
  unfold setupTokens
  split <;> exact ⟨rfl, rfl, rfl, rfl⟩

theorem chooseStateLength_same (mi : Machine) (sample : UInt64) : SameCounters mi (mi.chooseStateLength sample) := by
  unfold chooseStateLength
  split <;> exact ⟨rfl, rfl, rfl, rfl⟩

theorem updateStateLength_same (mi : Machine) : SameCounters mi mi.updateStateLengthForNonpadding := by
  unfold updateStateLengthForNonpadding
  split
  · exact .refl mi
  · split
    · exact .refl mi
    · split <;> exact ⟨rfl, rfl, rfl, rfl⟩

theorem estimateRttOnReceived_same (mi : Machine) (isOrigin circOpen : Bool) (now : UInt64) :
    SameCounters mi (mi.estimateRttOnReceived isOrigin circOpen now) := by
  unfold estimateRttOnReceived
  split
  · exact .refl mi
  · split
    · split <;> exact ⟨rfl, rfl, rfl, rfl⟩
    · split
      · exact .refl mi
      · split <;> exact ⟨rfl, rfl, rfl, rfl⟩

theorem estimateRttOnSend_same (mi : Machine) (isOrigin circOpen : Bool) (now : UInt64) :
    SameCounters mi (mi.estimateRttOnSend isOrigin circOpen now) := by
  unfold estimateRttOnSend
  split
  · exact .refl mi
  · split
    · dsimp only
      split <;> exact ⟨rfl, rfl, rfl, rfl⟩
    · split <;> exact ⟨rfl, rfl, rfl, rfl⟩

theorem removeToken_same {now : UInt64} (h : mi.removeToken now = .ok mi') : SameCounters mi mi' := by
  unfold removeToken at h
  split at h
  · obtain rfl := Except.ok.inj h
    exact .refl mi
  · split at h
    · obtain rfl := Except.ok.inj h
      exact .refl mi
    · split at h
      · obtain rfl := Except.ok.inj h
        exact .refl mi
      · dsimp only at h
        split at h
        · cases h
        · obtain rfl := Except.ok.inj h
          exact ⟨rfl, rfl, rfl, rfl⟩

theorem removeToken_error {now : UInt64} {e : Stop} (h : mi.removeToken now = .error e) : e ≠ .divisionByZero := by
  unfold removeToken at h
  split at h
  · cases h
  · split at h
    · cases h
    · split at h
      · cases h
      · dsimp only at h
        split at h
        · cases h
          decide
        · cases h

/-- One more of `x`, and half of both at the bound. -/
theorem count_spec {x y : UInt16} (hx : x < UINT16_MAX) (hy : y < UINT16_MAX) :
    (x + 1 = UINT16_MAX → (x + 1) / 2 < UINT16_MAX ∧ y / 2 < UINT16_MAX ∧ 0 < ((x + 1) / 2).toNat) ∧
      (x + 1 ≠ UINT16_MAX → x + 1 < UINT16_MAX ∧ 0 < (x + 1).toNat) := by
  have hx' := UInt16.lt_iff_toNat_lt.mp hx
  have hy' := UInt16.lt_iff_toNat_lt.mp hy
  have hmax : UINT16_MAX.toNat = 65535 := rfl
  have hone : (x + 1).toNat = x.toNat + 1 := by
    rw [UInt16.toNat_add, Nat.mod_eq_of_lt]
    · rfl
    · exact Nat.lt_of_lt_of_le (Nat.add_lt_add_right hx' 1) (by decide)
  have hhalf : ∀ z : UInt16, (z / 2).toNat = z.toNat / 2 := fun z => UInt16.toNat_div z 2
  constructor
  · intro hfull
    have hfull' := congrArg UInt16.toNat hfull
    refine ⟨UInt16.lt_iff_toNat_lt.mpr ?_, UInt16.lt_iff_toNat_lt.mpr ?_, ?_⟩ <;> rw [hhalf] <;> omega
  · intro hfull
    have hfull' : (x + 1).toNat ≠ UINT16_MAX.toNat := fun h => hfull (UInt16.toNat_inj.mp h)
    exact ⟨UInt16.lt_iff_toNat_lt.mpr (by omega), by omega⟩

/-- Counting a cell: neither counter reaches the bound, and one of them is not zero. -/
theorem countSent_spec (hfit : mi.CountersFit) (padding : Bool) :
    (mi.countSent padding).Counted ∧ Later mi (mi.countSent padding) := by
  obtain ⟨hp, hn⟩ := hfit
  have hresult : (mi.countSent padding).Counted ∧ (mi.countSent padding).spec = mi.spec ∧
      (mi.countSent padding).CountersFit := by
    cases padding with
    | true =>
      obtain ⟨hhalf, hone⟩ := count_spec hp hn
      by_cases hfull : mi.paddingSent + 1 = UINT16_MAX
      · obtain ⟨h1, h2, hpos⟩ := hhalf hfull
        rw [show mi.countSent true = _ from if_pos hfull]
        exact ⟨Nat.lt_add_right _ hpos, rfl, h1, h2⟩
      · obtain ⟨h1, hpos⟩ := hone hfull
        rw [show mi.countSent true = _ from if_neg hfull]
        exact ⟨Nat.lt_add_right _ hpos, rfl, h1, hn⟩
    | false =>
      obtain ⟨hhalf, hone⟩ := count_spec hn hp
      by_cases hfull : mi.nonpaddingSent + 1 = UINT16_MAX
      · obtain ⟨h1, h2, hpos⟩ := hhalf hfull
        rw [show mi.countSent false = _ from if_pos hfull]
        exact ⟨Nat.lt_add_left _ hpos, rfl, h2, h1⟩
      · obtain ⟨h1, hpos⟩ := hone hfull
        rw [show mi.countSent false = _ from if_neg hfull]
        exact ⟨Nat.lt_add_left _ hpos, rfl, hp, h1⟩
  exact ⟨hresult.1, hresult.2.1, fun _ => hresult.1, hresult.2.2⟩

theorem countPaddingSent_spec (hfit : mi.CountersFit) :
    mi.countPaddingSent.Counted ∧ Later mi mi.countPaddingSent := by
  unfold countPaddingSent
  dsimp only
  generalize hmi : (if mi.stateLength ≠ CIRCPAD_STATE_LENGTH_INFINITE ∧ mi.stateLength > 0 then
    { mi with stateLength := mi.stateLength - 1 } else mi) = mi'
  have hsame : SameCounters mi mi' := by
    rw [← hmi]
    split <;> exact ⟨rfl, rfl, rfl, rfl⟩
  have hlater := hsame.later hfit
  obtain ⟨hcounted, hcount⟩ := countSent_spec hlater.fit true
  refine ⟨hcounted, hlater.trans (hcount.trans ⟨rfl, id, hcount.fit.padding, hcount.fit.nonpadding⟩)⟩

end Machine

/-! ## The world over a computation -/

namespace World

def CountersFit (w : World) : Prop := ∀ i mi, w.paddingInfo i = some mi → mi.CountersFit

/-- A cell was counted for the process. -/
def Counted (w : World) : Prop := 0 < w.globalPaddingSent + w.globalNonpaddingSent

/-- The limit of the process divides by something, if it divides. -/
def GlobalReady (w : World) : Prop :=
  w.around.params.globalMaxPaddingPercent = 0 ∨ w.around.params.globalAllowedCells ≠ 0 ∨ w.Counted

structure Ready (w : World) : Prop where
  machines : ∀ i mi, w.paddingInfo i = some mi → mi.Ready
  process : w.GlobalReady

/-- No machine but the one at `i`. -/
def Only (i : Fin 2) (w : World) : Prop := ∀ j ≠ i, w.paddingInfo j = none

/-- What a computation leaves: of each machine a later one, or none, and the counts of the process. -/
structure Extends (w w' : World) : Prop where
  machine : ∀ i mi', w'.paddingInfo i = some mi' → ∃ mi, w.paddingInfo i = some mi ∧ mi.Later mi'
  around : w'.around = w.around
  counted : w.Counted → w'.Counted

variable {w w' : World}

theorem Extends.refl (hfit : w.CountersFit) : Extends w w :=
  ⟨fun i mi hmi => ⟨mi, hmi, rfl, id, hfit i mi hmi⟩, rfl, id⟩

theorem Extends.trans {a b d : World} (h : Extends a b) (h' : Extends b d) : Extends a d := by
  refine ⟨fun i mi hmi => ?_, h'.around.trans h.around, h'.counted ∘ h.counted⟩
  obtain ⟨mb, hmb, hlater'⟩ := h'.machine i mi hmi
  obtain ⟨ma, hma, hlater⟩ := h.machine i mb hmb
  exact ⟨ma, hma, hlater.trans hlater'⟩

theorem Extends.fit (h : Extends w w') : w'.CountersFit := by
  intro i mi hmi
  obtain ⟨m, -, hlater⟩ := h.machine i mi hmi
  exact hlater.fit

theorem Extends.ready (h : Extends w w') (hr : w.Ready) : w'.Ready := by
  refine ⟨fun i mi hmi => ?_, ?_⟩
  · obtain ⟨m, hm, hlater⟩ := h.machine i mi hmi
    exact hlater.ready (hr.machines i m hm)
  · unfold GlobalReady
    rw [h.around]
    exact hr.process.imp_right fun hp => hp.imp_right h.counted

theorem Extends.only {i : Fin 2} (h : Extends w w') (ho : Only i w) : Only i w' := by
  intro j hj
  cases hmi : w'.paddingInfo j with
  | none => rfl
  | some mi =>
    obtain ⟨m, hm, -⟩ := h.machine j mi hmi
    rw [ho j hj] at hm
    cases hm

/-- A machine of the world is replaced by a later one, or freed. -/
theorem Extends.update (hfit : w.CountersFit) (i : Fin 2) {next : Option Machine}
    (hnext : ∀ mi', next = some mi' → ∃ mi, w.paddingInfo i = some mi ∧ mi.Later mi') :
    Extends w { w with paddingInfo := Function.update w.paddingInfo i next } := by
  refine ⟨fun j m hm => ?_, rfl, id⟩
  dsimp only at hm
  by_cases hj : j = i
  · subst hj
    rw [Function.update_self] at hm
    exact hnext m hm
  · rw [Function.update_of_ne hj] at hm
    exact ⟨m, hm, rfl, id, hfit j m hm⟩

theorem Extends.set (hfit : w.CountersFit) {i : Fin 2} {mi mi' : Machine} (hmi : w.paddingInfo i = some mi)
    (hlater : mi.Later mi') : Extends w { w with paddingInfo := Function.update w.paddingInfo i (some mi') } :=
  .update hfit i fun _ h => ⟨mi, hmi, Option.some.inj h ▸ hlater⟩

theorem Extends.free (hfit : w.CountersFit) (i : Fin 2) :
    Extends w { w with paddingInfo := Function.update w.paddingInfo i none } :=
  .update hfit i nofun

end World

open World

/-- A computation that leaves a later world, and divides by nothing that is zero where every machine is ready. -/
def Safe {α : Type} (m : M α) : Prop :=
  ∀ w : World, w.CountersFit →
    (∀ a w', m w = .ok (a, w') → Extends w w') ∧ (w.Ready → m w ≠ .error .divisionByZero)

section rules

variable {α β : Type}

theorem bind_eq (m : M α) (f : α → M β) (w : World) :
    (m >>= f) w = match m w with
      | .ok (a, w') => f a w'
      | .error e => .error e := by
  show Except.bind (m w) _ = _
  cases m w <;> rfl

variable {m : M α} {f : α → M β} {w : World} {e : Stop}

theorem bind_ok {w' : World} {b : β} (h : (m >>= f) w = .ok (b, w')) :
    ∃ a w1, m w = .ok (a, w1) ∧ f a w1 = .ok (b, w') := by
  rw [bind_eq] at h
  cases hm : m w with
  | error e =>
    rw [hm] at h
    cases h
  | ok p =>
    rw [hm] at h
    exact ⟨p.1, p.2, rfl, h⟩

theorem bind_error : (m >>= f) w = .error e ↔ m w = .error e ∨ ∃ a w1, m w = .ok (a, w1) ∧ f a w1 = .error e := by
  rw [bind_eq]
  cases hm : m w with
  | error e' => simp
  | ok p =>
    constructor
    · intro h
      exact .inr ⟨p.1, p.2, rfl, h⟩
    · rintro (h | ⟨a, w1, h₁, h⟩)
      · cases h
      · cases h₁
        exact h

/-- What a computation does with its result does not stop it. -/
theorem bind_pure_error {f : α → β} : (m >>= fun a => pure (f a)) w = .error e ↔ m w = .error e := by
  rw [bind_error, or_iff_left]
  rintro ⟨a, w1, -, h⟩
  cases h

theorem discard_error : (discard m) w = .error e ↔ m w = .error e :=
  bind_pure_error

theorem lift_eq (e : Except Stop α) (w : World) :
    (liftM e : M α) w = match e with
      | .ok a => .ok (a, w)
      | .error x => .error x := by
  cases e <;> rfl

theorem safe_bind (hm : Safe m) (hf : ∀ a, Safe (f a)) : Safe (m >>= f) := by
  intro w hfit
  obtain ⟨hext, hdiv⟩ := hm w hfit
  constructor
  · intro b w' h
    obtain ⟨a, w1, h₁, h₂⟩ := bind_ok h
    exact (hext a w1 h₁).trans ((hf a w1 (hext a w1 h₁).fit).1 b w' h₂)
  · intro hr h
    rcases bind_error.mp h with h | ⟨a, w1, h₁, h₂⟩
    · exact hdiv hr h
    · exact (hf a w1 (hext a w1 h₁).fit).2 ((hext a w1 h₁).ready hr) h₂

/-- What `Safe` asks of a computation that ends in a world, and of one that stops. -/
theorem safe_ok {a : α} {w' : World} (heq : m w = .ok (a, w')) (hext : Extends w w') :
    (∀ b w'', m w = .ok (b, w'') → Extends w w'') ∧ (w.Ready → m w ≠ .error .divisionByZero) := by
  rw [heq]
  refine ⟨fun b w'' h => ?_, nofun⟩
  cases h
  exact hext

theorem safe_error (heq : m w = .error e) (he : w.Ready → e ≠ .divisionByZero) :
    (∀ b w', m w = .ok (b, w') → Extends w w') ∧ (w.Ready → m w ≠ .error .divisionByZero) := by
  rw [heq]
  exact ⟨fun b w' h => (by cases h), fun hr h => he hr (Except.error.inj h)⟩

theorem safe_pure (a : α) : Safe (pure a : M α) := fun _ hfit => safe_ok rfl (.refl hfit)

theorem safe_throw (he : e ≠ .divisionByZero) : Safe (throw e : M α) := fun _ _ => safe_error rfl fun _ => he

theorem safe_ite {c : Prop} [Decidable c] {n : M α} (hm : Safe m) (hn : Safe n) : Safe (if c then m else n) := by
  split
  · exact hm
  · exact hn

theorem safe_get : Safe (get : M World) := fun _ hfit => safe_ok rfl (.refl hfit)

theorem safe_discard (hm : Safe m) : Safe (discard m) := by
  have heq : discard m = m >>= fun _ => pure () := rfl
  rw [heq]
  exact safe_bind hm fun _ => safe_pure ()

/-- An update of the world that the world is extended by. -/
theorem safe_modify {f : World → World} (hf : ∀ w, w.CountersFit → Extends w (f w)) : Safe (modify f : M Unit) :=
  fun w hfit => safe_ok rfl (hf w hfit)

theorem safe_draw : Safe draw := fun _ hfit => safe_ok rfl ⟨(Extends.refl hfit).machine, rfl, id⟩

end rules

/-! ## The parts of an event -/

variable {w w' : World} {i : Fin 2} {mi : Machine} {f : Machine → Machine} {body : Fin 2 → M Unit}
  {P : World → Prop} {fuel : Nat} {e : CellEvent}

theorem getMachine_eq (i : Fin 2) (w : World) : getMachine i w = match w.paddingInfo i with
    | some mi => .ok (mi, w)
    | none => .error .freedMachine := by
  unfold getMachine
  rw [bind_eq]
  show (match w.paddingInfo i with
    | some mi => (pure mi : M Machine)
    | none => (throw Stop.freedMachine : M Machine)) w = _
  cases w.paddingInfo i <;> rfl

theorem getMachine_some (h : w.paddingInfo i = some mi) : getMachine i w = .ok (mi, w) := by rw [getMachine_eq, h]

theorem getMachine_none (h : w.paddingInfo i = none) : getMachine i w = .error .freedMachine := by rw [getMachine_eq, h]

theorem safe_getMachine (i : Fin 2) : Safe (getMachine i) := by
  refine safe_bind safe_get fun w => ?_
  cases w.paddingInfo i with
  | none => exact safe_throw (by decide)
  | some mi => exact safe_pure mi

theorem modifyMachine_some (h : w.paddingInfo i = some mi) :
    modifyMachine i f w = .ok ((), { w with paddingInfo := Function.update w.paddingInfo i (some (f mi)) }) := by
  unfold modifyMachine
  rw [bind_eq, getMachine_some h]
  rfl

theorem modifyMachine_none (h : w.paddingInfo i = none) : modifyMachine i f w = .error .freedMachine := by
  unfold modifyMachine
  rw [bind_eq, getMachine_none h]

theorem safe_modifyMachine (hf : ∀ mi : Machine, mi.CountersFit → mi.Later (f mi)) : Safe (modifyMachine i f) := by
  intro w hfit
  cases hmi : w.paddingInfo i with
  | none => exact safe_error (modifyMachine_none hmi) fun _ => by decide
  | some mi => exact safe_ok (modifyMachine_some hmi) (Extends.set hfit hmi (hf mi (hfit i mi hmi)))

/-- The updates that leave the counters alone. -/
theorem safe_modifySame (hf : ∀ mi : Machine, mi.SameCounters (f mi)) : Safe (modifyMachine i f) :=
  safe_modifyMachine fun mi hfit => (hf mi).later hfit

/-! ## The limits -/

theorem limitReached_error {percent allowed padding nonpadding : Nat} {e : Stop} :
    limitReached percent allowed padding nonpadding = .error e ↔
      e = .divisionByZero ∧ ¬(percent = 0 ∨ allowed ≠ 0 ∨ 0 < padding + nonpadding) := by
  unfold limitReached
  by_cases hcheck : percent ≠ 0 ∧ padding ≥ allowed
  · rw [if_pos hcheck]
    by_cases hzero : padding + nonpadding = 0
    · rw [if_pos hzero]
      constructor
      · intro h
        exact ⟨(Except.error.inj h).symm, by omega⟩
      · intro h
        rw [h.1]
    · rw [if_neg hzero]
      exact ⟨nofun, fun h => absurd h.2 (by omega)⟩
  · rw [if_neg hcheck]
    exact ⟨nofun, fun h => absurd h.2 (by omega)⟩

/-- The machine's own limit is passed, so that the one of the process is not looked at. -/
def Machine.OverLimit (mi : Machine) : Prop :=
  limitReached mi.spec.maxPaddingPercent.toNat mi.spec.allowedPaddingCount.toNat
    mi.paddingSent.toNat mi.nonpaddingSent.toNat = .ok true

/-- Every division that the check makes is by something. -/
def LimitDefined (w : World) (mi : Machine) : Prop := mi.Ready ∧ (mi.OverLimit ∨ w.GlobalReady)

theorem Machine.ready_iff (mi : Machine) : mi.Ready ↔ mi.spec.maxPaddingPercent.toNat = 0 ∨
    mi.spec.allowedPaddingCount.toNat ≠ 0 ∨ 0 < mi.paddingSent.toNat + mi.nonpaddingSent.toNat := by
  have hpercent : mi.spec.maxPaddingPercent = 0 ↔ mi.spec.maxPaddingPercent.toNat = 0 := by
    rw [← UInt8.toNat_inj]; rfl
  have hallowed : mi.spec.allowedPaddingCount = 0 ↔ mi.spec.allowedPaddingCount.toNat = 0 := by
    rw [← UInt16.toNat_inj]; rfl
  rw [Machine.Ready, Machine.Counted, hpercent, ne_eq, hallowed]

/-- The check of a machine: it stops at a divisor of zero, and leaves the world alone. -/
theorem reached_cases (hmi : w.paddingInfo i = some mi) :
    (¬LimitDefined w mi ∧ circpadMachineReachedPaddingLimit i w = .error .divisionByZero) ∨
      LimitDefined w mi ∧ (circpadMachineReachedPaddingLimit i w = .ok (true, w) ∨
        circpadMachineReachedPaddingLimit i w = .ok (false, w) ∧ w.GlobalReady) := by
  have heq : circpadMachineReachedPaddingLimit i w =
      ((liftM (limitReached mi.spec.maxPaddingPercent.toNat mi.spec.allowedPaddingCount.toNat
        mi.paddingSent.toNat mi.nonpaddingSent.toNat) : M Bool) >>= fun reached =>
        if reached then pure true
        else liftM (limitReached w.around.params.globalMaxPaddingPercent w.around.params.globalAllowedCells
          w.globalPaddingSent w.globalNonpaddingSent)) w := by
    unfold circpadMachineReachedPaddingLimit
    rw [bind_eq, getMachine_some hmi]
    rfl
  have hown := @limitReached_error mi.spec.maxPaddingPercent.toNat mi.spec.allowedPaddingCount.toNat
    mi.paddingSent.toNat mi.nonpaddingSent.toNat
  have hprocess := @limitReached_error w.around.params.globalMaxPaddingPercent w.around.params.globalAllowedCells
    w.globalPaddingSent w.globalNonpaddingSent
  rw [heq, bind_eq, lift_eq]
  cases hm : limitReached mi.spec.maxPaddingPercent.toNat mi.spec.allowedPaddingCount.toNat
    mi.paddingSent.toNat mi.nonpaddingSent.toNat with
  | error e =>
    obtain ⟨rfl, hnot⟩ := hown.mp hm
    exact .inl ⟨fun h => hnot (mi.ready_iff.mp h.1), rfl⟩
  | ok passed =>
    have hready : mi.Ready := by
      by_contra hnot
      rw [mi.ready_iff] at hnot
      rw [hown.mpr ⟨rfl, hnot⟩] at hm
      cases hm
    cases passed with
    | true => exact .inr ⟨⟨hready, .inl hm⟩, .inl rfl⟩
    | false =>
      dsimp only
      rw [if_neg (by decide), lift_eq]
      cases hg : limitReached w.around.params.globalMaxPaddingPercent w.around.params.globalAllowedCells
        w.globalPaddingSent w.globalNonpaddingSent with
      | error e =>
        obtain ⟨rfl, hnot⟩ := hprocess.mp hg
        refine .inl ⟨fun h => ?_, rfl⟩
        rcases h.2 with hover | hglobal
        · rw [Machine.OverLimit, hm] at hover
          cases hover
        · exact hnot hglobal
      | ok b =>
        have hglobal : w.GlobalReady := by
          by_contra hnot
          rw [hprocess.mpr ⟨rfl, hnot⟩] at hg
          cases hg
        cases b with
        | true => exact .inr ⟨⟨hready, .inr hglobal⟩, .inl rfl⟩
        | false => exact .inr ⟨⟨hready, .inr hglobal⟩, .inr ⟨rfl, hglobal⟩⟩

theorem safe_reached (i : Fin 2) : Safe (circpadMachineReachedPaddingLimit i) := by
  intro w hfit
  cases hmi : w.paddingInfo i with
  | none =>
    have heq : circpadMachineReachedPaddingLimit i w = .error .freedMachine := by
      unfold circpadMachineReachedPaddingLimit
      rw [bind_eq, getMachine_none hmi]
    exact safe_error heq fun _ => by decide
  | some mi =>
    rcases reached_cases hmi with ⟨hnot, heq⟩ | ⟨-, heq | ⟨heq, -⟩⟩
    · exact safe_error heq fun hr _ => hnot ⟨hr.machines i mi hmi, .inr hr.process⟩
    · exact safe_ok heq (.refl hfit)
    · exact safe_ok heq (.refl hfit)

/-! ## Every part is safe -/

section

variable {again : Fin 2 → Event → M Decision} (hagain : ∀ i e, Safe (again i e))
include hagain

theorem safe_binsEmpty (i : Fin 2) : Safe (internalEventBinsEmpty again i) := by
  refine safe_bind (hagain i _) fun decision => safe_ite (safe_pure _) ?_
  exact safe_bind (safe_modifySame Machine.setupTokens_same) fun _ => safe_pure _

theorem safe_tokenSupply (i : Fin 2) : Safe (checkMachineTokenSupply again i) := by
  have hbins : Safe (checkBinsEmpty again i) :=
    safe_bind (safe_getMachine i) fun _ => safe_ite (safe_binsEmpty hagain i) (safe_pure _)
  refine safe_bind hbins fun decision => safe_ite (safe_pure _) ?_
  exact safe_bind (safe_getMachine i) fun mi => safe_ite (hagain i _) (safe_pure _)

end

theorem safe_ifActive (i : Fin 2) (hbody : ∀ i, Safe (body i)) : Safe (ifActive i body) :=
  safe_bind safe_get fun _ => safe_ite (hbody i) (safe_pure _)

theorem safe_forEachActive (hbody : ∀ i, Safe (body i)) : Safe (forEachActive body) :=
  safe_bind (safe_ifActive 0 hbody) fun _ => safe_ifActive 1 hbody

/-- A cell that is not padding is counted, or the computation stops for another reason. -/
theorem countNonpadding_cases (hfit : w.CountersFit) (now : UInt64) :
    (∃ e, e ≠ .divisionByZero ∧ machineCountNonpaddingSent i now w = .error e) ∨
      ∃ mi mi', w.paddingInfo i = some mi ∧ mi.Later mi' ∧ mi'.Counted ∧
        machineCountNonpaddingSent i now w =
          .ok ((), { w with paddingInfo := Function.update w.paddingInfo i (some mi') }) := by
  unfold machineCountNonpaddingSent
  cases hmi : w.paddingInfo i with
  | none =>
    rw [bind_eq, modifyMachine_none hmi]
    exact .inl ⟨_, by decide, rfl⟩
  | some mi =>
    obtain ⟨hcounted, hlater⟩ := Machine.countSent_spec (hfit i mi hmi) false
    have hsame := Machine.updateStateLength_same (mi.countSent false)
    rw [bind_eq, modifyMachine_some hmi]
    dsimp only
    rw [bind_eq, getMachine_some (Function.update_self i _ _)]
    dsimp only
    rw [bind_eq, lift_eq]
    cases hrem : ((mi.countSent false).updateStateLengthForNonpadding).removeToken now with
    | error e =>
      refine .inl ⟨e, fun he => ?_, rfl⟩
      subst he
      exact Machine.removeToken_error hrem rfl
    | ok mi' =>
      have hsame' := hsame.trans (Machine.removeToken_same hrem)
      refine .inr ⟨mi, mi', rfl, hlater.trans (hsame'.later hlater.fit), hsame'.counted_iff.mpr hcounted, ?_⟩
      show Except.ok ((), _) = _
      dsimp only
      rw [Function.update_idem]

theorem safe_countNonpadding (i : Fin 2) (now : UInt64) : Safe (machineCountNonpaddingSent i now) := by
  intro w hfit
  rcases countNonpadding_cases hfit now with ⟨e, he, heq⟩ | ⟨mi, mi', hmi, hlater, -, heq⟩
  · exact safe_error heq fun _ => he
  · exact safe_ok heq (Extends.set hfit hmi hlater)

theorem safe_sampleDelay (i : Fin 2) : Safe (sampleDelay i) := by
  refine safe_bind (safe_getMachine i) fun mi => safe_bind safe_draw fun d => ?_
  cases mi.state with
  | none => exact safe_throw (by decide)
  | some st =>
    dsimp only
    cases circpadMachineSampleDelay st.delay mi.runtime d.sample with
    | none => exact safe_throw (by decide)
    | some sampled => exact safe_bind (safe_modifySame fun mi => ⟨rfl, rfl, rfl, rfl⟩) fun _ => safe_pure _

section

variable {again : Fin 2 → Event → M Decision} (hagain : ∀ i e, Safe (again i e))
include hagain

theorem safe_paddingSent : Safe (cellEventPaddingSent again) :=
  safe_forEachActive fun i => safe_bind (safe_tokenSupply hagain i) fun _ =>
    safe_ite (safe_discard (hagain i _)) (safe_pure _)

section

variable (i : Fin 2)

theorem safe_nonpaddingSentBody : Safe (nonpaddingSentBody again i) := by
  refine safe_bind safe_get fun w => safe_bind safe_draw fun now => ?_
  refine safe_bind (safe_modifySame fun mi => mi.estimateRttOnSend_same _ _ _) fun _ => ?_
  refine safe_bind (safe_countNonpadding i _) fun _ => safe_bind (safe_tokenSupply hagain i) fun decision => ?_
  exact safe_ite (safe_discard (hagain i _)) (safe_pure _)

theorem safe_nonpaddingSent : Safe (cellEventNonpaddingSent again) := by
  refine safe_bind (safe_modify fun w hfit => ?_) fun _ => safe_forEachActive (safe_nonpaddingSentBody hagain)
  exact ⟨(Extends.refl hfit).machine, rfl, fun h => Nat.lt_of_lt_of_le h (Nat.le_succ _)⟩

theorem safe_nonpaddingReceivedBody : Safe (nonpaddingReceivedBody again i) := by
  refine safe_bind safe_get fun w => safe_bind safe_draw fun now => ?_
  exact safe_bind (safe_modifySame fun mi => mi.estimateRttOnReceived_same _ _ _) fun _ => safe_discard (hagain i _)

theorem safe_sendPaddingCell : Safe (sendPaddingCellForCallback again i) := by
  refine safe_bind (safe_modifySame fun mi => ⟨rfl, rfl, rfl, rfl⟩) fun _ => ?_
  refine safe_bind (safe_getMachine i) fun mi => safe_bind safe_get fun w => safe_ite (safe_pure _) ?_
  refine safe_bind (safe_modifyMachine fun mi hfit => (Machine.countPaddingSent_spec hfit).2) fun _ => ?_
  refine safe_bind (safe_modify fun w hfit => ?_) fun _ => ?_
  · exact ⟨(Extends.refl hfit).machine, rfl, fun h => Nat.lt_of_lt_of_le h (by dsimp only; omega)⟩
  · refine safe_bind (safe_paddingSent hagain) fun _ => safe_bind safe_get fun w => ?_
    cases w.paddingInfo i with
    | none => exact safe_pure _
    | some mi' => exact safe_ite (safe_pure _) (safe_tokenSupply hagain i)

theorem safe_schedule : Safe (schedule again i) := by
  refine safe_bind (safe_modifySame fun mi => ⟨rfl, rfl, rfl, rfl⟩) fun _ => ?_
  refine safe_bind (safe_sampleDelay i) fun delay => safe_bind safe_draw fun now => ?_
  refine safe_bind (safe_modifySame fun mi => ⟨rfl, rfl, rfl, rfl⟩) fun _ => safe_ite (hagain i _) ?_
  refine safe_bind (safe_getMachine i) fun mi => safe_ite (safe_pure _) ?_
  refine safe_ite (safe_sendPaddingCell hagain i) ?_
  exact safe_bind (safe_modifySame fun mi => ⟨rfl, rfl, rfl, rfl⟩) fun _ => safe_pure _

theorem safe_schedulePadding : Safe (circpadMachineSchedulePadding again i) := by
  refine safe_bind (safe_getMachine i) fun mi => safe_bind safe_get fun w => ?_
  refine safe_ite (safe_pure _) (safe_ite (safe_pure _) (safe_ite (safe_pure _) ?_))
  exact safe_bind (safe_reached i) fun reached => safe_ite (safe_pure _) (safe_schedule hagain i)

theorem safe_transitionedToEnd : Safe (transitionedToEnd again i) := by
  refine safe_bind (safe_getMachine i) fun mi => safe_ite ?_ (safe_pure _)
  refine safe_bind (safe_modify fun w hfit => ?_) fun _ => safe_bind safe_draw fun d => ?_
  · exact Extends.free hfit i
  · exact safe_ite (safe_nonpaddingSent hagain) (safe_pure _)

theorem safe_enterState (s : StateNum) : Safe (enterState again i s) := by
  refine safe_bind safe_draw fun d => safe_bind (safe_modifyMachine fun mi hfit => ?_) fun _ => ?_
  · have hsame := (Machine.setupTokens_same { mi with currentState := s }).trans
      (Machine.chooseStateLength_same _ d.stateLength)
    have hstate : mi.Later { mi with currentState := s } := ⟨rfl, id, hfit.padding, hfit.nonpadding⟩
    exact hstate.trans (hsame.later hstate.fit)
  · refine safe_ite (safe_bind (safe_transitionedToEnd hagain i) fun _ => safe_pure _) ?_
    exact safe_bind (safe_discard (safe_schedulePadding hagain i)) fun _ => safe_pure _

theorem safe_transition (event : Event) : Safe (transition again i event) := by
  refine safe_bind (safe_getMachine i) fun mi => ?_
  cases mi.state with
  | none => exact safe_pure _
  | some st =>
    refine safe_ite (safe_pure _) (safe_ite ?_ (safe_ite (safe_enterState hagain i _) (safe_schedulePadding hagain i)))
    exact safe_bind (safe_modifySame fun mi => ⟨rfl, rfl, rfl, rfl⟩) fun _ => safe_pure _

end

end

/-- However deep the events go. -/
theorem safe_specTransition (fuel : Nat) (i : Fin 2) (event : Event) : Safe (specTransition fuel i event) := by
  induction fuel generalizing i event with
  | zero => exact safe_throw (by decide)
  | succ fuel ih => exact safe_transition ih i event

/-! ## One machine: a cell that is sent -/

/-- From a world with `P` nothing divides by zero, and what is left has `Q`. -/
def NoDivision {α : Type} (P : World → Prop) (m : M α) (Q : World → Prop) : Prop :=
  ∀ w, w.CountersFit → P w →
    m w ≠ .error .divisionByZero ∧ ∀ a w', m w = .ok (a, w') → w'.CountersFit ∧ Q w'

theorem noDivision_bind {α β : Type} {Q R : World → Prop} {m : M α} {f : α → M β} (hm : NoDivision P m Q)
    (hf : ∀ a, NoDivision Q (f a) R) : NoDivision P (m >>= f) R := by
  intro w hfit hP
  obtain ⟨hno, hQ⟩ := hm w hfit hP
  constructor
  · intro h
    rcases bind_error.mp h with h | ⟨a, w1, h₁, h₂⟩
    · exact hno h
    · exact (hf a w1 (hQ a w1 h₁).1 (hQ a w1 h₁).2).1 h₂
  · intro b w' h
    obtain ⟨a, w1, h₁, h₂⟩ := bind_ok h
    exact (hf a w1 (hQ a w1 h₁).1 (hQ a w1 h₁).2).2 b w' h₂

theorem noDivision_mono {α : Type} {Q R : World → Prop} {m : M α} (hm : NoDivision P m Q) (hQ : ∀ w, Q w → R w) :
    NoDivision P m R :=
  fun w hfit hP => ⟨(hm w hfit hP).1, fun a w' h => ((hm w hfit hP).2 a w' h).imp_right (hQ w')⟩

theorem noDivision_ready {α : Type} {m : M α} (hm : Safe m) : NoDivision World.Ready m World.Ready := by
  intro w hfit hr
  obtain ⟨hext, hdiv⟩ := hm w hfit
  exact ⟨hdiv hr, fun a w' h => ⟨(hext a w' h).fit, (hext a w' h).ready hr⟩⟩

/-- A part that has no division keeps what every later world has. -/
theorem noDivision_keep {α : Type} {m : M α} (hm : Safe m) (hno : ∀ w, m w ≠ .error .divisionByZero)
    (hP : ∀ w w', World.Extends w w' → P w → P w') : NoDivision P m P :=
  fun w hfit hPw => ⟨hno w, fun a w' h => ⟨((hm w hfit).1 a w' h).fit, hP w w' ((hm w hfit).1 a w' h) hPw⟩⟩

theorem modifyMachine_error (w : World) : modifyMachine i f w ≠ .error .divisionByZero := by
  cases hmi : w.paddingInfo i with
  | none =>
    rw [modifyMachine_none hmi]
    exact nofun
  | some mi =>
    rw [modifyMachine_some hmi]
    exact nofun

theorem getMachine_error (w : World) : getMachine i w ≠ .error .divisionByZero := by
  rw [getMachine_eq]
  split <;> exact nofun

/-- One machine at most, and a cell counted for the process. -/
structure Alone (i : Fin 2) (w : World) : Prop where
  only : Only i w
  counted : w.Counted

/-- One machine at most, which has counted a cell. -/
structure AloneCounted (i : Fin 2) (w : World) : Prop where
  only : Only i w
  machine : ∀ mi, w.paddingInfo i = some mi → mi.Counted

theorem AloneCounted.ready (h : AloneCounted i w) (hcounted : w.Counted) : w.Ready := by
  refine ⟨fun j mi hj => ?_, .inr (.inr hcounted)⟩
  by_cases hji : j = i
  · subst hji
    exact .inr (.inr (h.machine mi hj))
  · rw [h.only j hji] at hj
    cases hj

theorem AloneCounted.set (h : Only i w) (hmi : mi.Counted) :
    AloneCounted i { w with paddingInfo := Function.update w.paddingInfo i (some mi) } := by
  refine ⟨fun j hj => ?_, fun m hm => ?_⟩
  · dsimp only
    rw [Function.update_of_ne hj]
    exact h j hj
  · dsimp only at hm
    rw [Function.update_self] at hm
    obtain rfl := Option.some.inj hm
    exact hmi

/-- A machine is ready once it is counted. -/
theorem noDivision_countNonpadding (now : UInt64) :
    NoDivision (Alone i) (machineCountNonpaddingSent i now) World.Ready := by
  intro w hfit halone
  refine ⟨fun h => ?_, fun a w' h => ⟨((safe_countNonpadding i now w hfit).1 a w' h).fit, ?_⟩⟩
  · rcases countNonpadding_cases hfit now (i := i) with ⟨e, he, heq⟩ | ⟨mi, mi', -, -, -, heq⟩ <;> rw [heq] at h
    · exact he (Except.error.inj h)
    · cases h
  · rcases countNonpadding_cases hfit now (i := i) with ⟨e, -, heq⟩ | ⟨mi, mi', -, -, hcount, heq⟩ <;> rw [heq] at h
    · cases h
    · cases h
      exact (AloneCounted.set halone.only hcount).ready halone.counted

theorem noDivision_countPadding : NoDivision (Only i) (modifyMachine i Machine.countPaddingSent) (AloneCounted i) := by
  intro w hfit honly
  refine ⟨modifyMachine_error w, fun a w' h => ⟨?_, ?_⟩⟩
  · exact ((safe_modifyMachine (fun mi hmi => (Machine.countPaddingSent_spec hmi).2) w hfit).1 a w' h).fit
  · cases hmi : w.paddingInfo i with
    | none =>
      rw [modifyMachine_none hmi] at h
      cases h
    | some mi =>
      rw [modifyMachine_some hmi] at h
      cases h
      exact AloneCounted.set honly (Machine.countPaddingSent_spec (hfit i mi hmi)).1

theorem alone_extends (w w' : World) (h : World.Extends w w') (ha : Alone i w) : Alone i w' :=
  ⟨h.only ha.only, h.counted ha.counted⟩

theorem only_extends (w w' : World) (h : World.Extends w w') (ho : Only i w) : Only i w' := h.only ho

theorem ifActive_eq (body : Fin 2 → M Unit) (w : World) :
    ifActive i body w = if (w.paddingInfo i).isSome then body i w else .ok ((), w) := by
  unfold ifActive
  rw [bind_eq]
  show (if (w.paddingInfo i).isSome then body i else pure ()) w = _
  split <;> rfl

theorem ifActive_none (h : w.paddingInfo i = none) (body : Fin 2 → M Unit) : ifActive i body w = .ok ((), w) := by
  rw [ifActive_eq, h]
  rfl

theorem ifActive_some (h : w.paddingInfo i = some mi) (body : Fin 2 → M Unit) : ifActive i body w = body i w := by
  rw [ifActive_eq, h]
  rfl

/-- With one machine the loop over the machines divides by zero where its body does for that machine. -/
theorem forEachActive_divides (hfit : w.CountersFit) (honly : Only i w) (hbody : ∀ j, Safe (body j)) :
    forEachActive body w = .error .divisionByZero ↔
      (∃ mi, w.paddingInfo i = some mi) ∧ body i w = .error .divisionByZero := by
  have hactive : ifActive i body w = .error .divisionByZero ↔
      (∃ mi, w.paddingInfo i = some mi) ∧ body i w = .error .divisionByZero := by
    cases hmi : w.paddingInfo i with
    | none =>
      rw [ifActive_none hmi]
      exact iff_of_false nofun fun h => (by obtain ⟨⟨mi, hmi⟩, -⟩ := h; cases hmi)
    | some mi =>
      rw [ifActive_some hmi]
      exact ⟨fun h => ⟨⟨mi, rfl⟩, h⟩, fun h => h.2⟩
  rw [← hactive, forEachActive, bind_error]
  have hi : i = 0 ∨ i = 1 := by omega
  rcases hi with rfl | rfl
  · refine or_iff_left ?_
    rintro ⟨a, w1, h₁, h⟩
    have hext := (safe_ifActive 0 hbody w hfit).1 a w1 h₁
    rw [ifActive_none (hext.only honly 1 (by decide))] at h
    cases h
  · rw [ifActive_none (honly 0 (by decide))]
    constructor
    · rintro (h | ⟨a, w1, h₁, h⟩)
      · cases h
      · cases h₁
        exact h
    · intro h
      exact .inr ⟨(), w, rfl, h⟩

section

variable {again : Fin 2 → Event → M Decision} (hagain : ∀ i e, Safe (again i e))
include hagain

theorem noDivision_nonpaddingSentBody (i : Fin 2) : NoDivision (Alone i) (nonpaddingSentBody again i) World.Ready := by
  refine noDivision_bind (noDivision_keep safe_get nofun alone_extends) fun w => ?_
  refine noDivision_bind (noDivision_keep safe_draw nofun alone_extends) fun now => ?_
  refine noDivision_bind (noDivision_keep (safe_modifySame fun mi => mi.estimateRttOnSend_same _ _ _) modifyMachine_error
    alone_extends) fun _ => ?_
  refine noDivision_bind (noDivision_countNonpadding _) fun _ => ?_
  exact noDivision_ready (safe_bind (safe_tokenSupply hagain i) fun _ => safe_ite (safe_discard (hagain i _)) (safe_pure _))

/-- A cell that is sent is counted first, so nothing divides by zero. -/
theorem nonpaddingSent_noDivision {w : World} {i : Fin 2} (hfit : w.CountersFit) (honly : Only i w) :
    cellEventNonpaddingSent again w ≠ .error .divisionByZero := by
  intro h
  let w1 : World := { w with globalNonpaddingSent := w.globalNonpaddingSent + 1 }
  have hfit1 : w1.CountersFit := hfit
  have halone : Alone i w1 := ⟨honly, Nat.succ_pos _⟩
  have h₁ : forEachActive (nonpaddingSentBody again) w1 = .error .divisionByZero := h
  obtain ⟨-, hbody⟩ := (forEachActive_divides hfit1 halone.only (safe_nonpaddingSentBody hagain)).mp h₁
  exact (noDivision_nonpaddingSentBody hagain i w1 hfit1 halone).1 hbody

theorem noDivision_sendPaddingCell (i : Fin 2) :
    NoDivision (Only i) (sendPaddingCellForCallback again i) fun _ => True := by
  refine noDivision_bind (noDivision_keep (safe_modifySame fun mi => ⟨rfl, rfl, rfl, rfl⟩) modifyMachine_error
    only_extends) fun _ => ?_
  refine noDivision_bind (noDivision_keep (safe_getMachine i) getMachine_error only_extends) fun mi => ?_
  refine noDivision_bind (noDivision_keep safe_get nofun only_extends) fun w => ?_
  split
  · intro w hfit _
    refine ⟨nofun, fun a w' h => ?_⟩
    cases h
    exact ⟨hfit, trivial⟩
  · refine noDivision_bind noDivision_countPadding fun _ => ?_
    have hcount : NoDivision (AloneCounted i)
        (modify fun w => { w with globalPaddingSent := w.globalPaddingSent + 1 } : M Unit) World.Ready := by
      intro w hfit halone
      refine ⟨nofun, fun a w' h => ?_⟩
      cases h
      have hlater : AloneCounted i { w with globalPaddingSent := w.globalPaddingSent + 1 } := ⟨halone.only, halone.machine⟩
      exact ⟨hfit, hlater.ready (Nat.lt_of_lt_of_le (Nat.succ_pos _) (Nat.le_add_right _ _))⟩
    refine noDivision_bind hcount fun _ => noDivision_mono (noDivision_ready ?_) fun _ _ => trivial
    refine safe_bind (safe_paddingSent hagain) fun _ => safe_bind safe_get fun w => ?_
    cases w.paddingInfo i with
    | none => exact safe_pure _
    | some mi' => exact safe_ite (safe_pure _) (safe_tokenSupply hagain i)

end

/-! ## One machine: a cell that is received -/

/-- The event makes the machine schedule padding. -/
structure Reacts (w : World) (mi : Machine) (event : Event) : Prop where
  allowed : isPaddingAllowed w = true
  participating : w.around.participating = true
  next : ∃ st, mi.state = some st ∧ st.nextState event ≠ CIRCPAD_STATE_IGNORE ∧
    st.nextState event ≠ CIRCPAD_STATE_CANCEL ∧ st.nextState event ≠ CIRCPAD_STATE_END

/-- Whether the limits are defined depends on the specification and the counters. -/
theorem limitDefined_congr {mi' : Machine} (hspec : mi'.spec = mi.spec)
    (hp : mi'.paddingSent = mi.paddingSent) (hn : mi'.nonpaddingSent = mi.nonpaddingSent)
    (ha : w'.around = w.around) (hgp : w'.globalPaddingSent = w.globalPaddingSent)
    (hgn : w'.globalNonpaddingSent = w.globalNonpaddingSent) : LimitDefined w' mi' ↔ LimitDefined w mi := by
  unfold LimitDefined Machine.Ready Machine.Counted Machine.OverLimit World.GlobalReady World.Counted
  rw [hspec, hp, hn, ha, hgp, hgn]

section

variable {again : Fin 2 → Event → M Decision} (hagain : ∀ i e, Safe (again i e))
include hagain

variable {w : World} {i : Fin 2}

section

variable (hfit : w.CountersFit) (honly : Only i w)
include hfit honly

theorem schedulePadding_divides {mi : Machine} (hmi : w.paddingInfo i = some mi)
    (hend : mi.currentState ≠ CIRCPAD_STATE_END) :
    circpadMachineSchedulePadding again i w = .error .divisionByZero ↔
      isPaddingAllowed w = true ∧ w.around.participating = true ∧ ¬LimitDefined w mi := by
  have heq : circpadMachineSchedulePadding again i w =
      (if ¬isPaddingAllowed w then pure Decision.unchanged
      else if ¬w.around.participating then pure Decision.unchanged
      else if mi.currentState = CIRCPAD_STATE_END then pure Decision.unchanged
      else circpadMachineReachedPaddingLimit i >>= fun reached =>
        if reached then pure Decision.unchanged else schedule again i : M Decision) w := by
    unfold circpadMachineSchedulePadding
    rw [bind_eq, getMachine_some hmi]
    rfl
  rw [heq]
  by_cases hallowed : isPaddingAllowed w = true
  swap
  · rw [if_pos hallowed]
    exact iff_of_false nofun fun h => hallowed h.1
  by_cases hpart : w.around.participating = true
  swap
  · rw [if_neg (not_not.mpr hallowed), if_pos hpart]
    exact iff_of_false nofun fun h => hpart h.2.1
  rw [if_neg (not_not.mpr hallowed), if_neg (not_not.mpr hpart), if_neg hend, bind_eq]
  rcases reached_cases hmi with ⟨hnot, hr⟩ | ⟨hdef, hr | ⟨hr, hglobal⟩⟩ <;> rw [hr]
  · exact iff_of_true rfl ⟨hallowed, hpart, hnot⟩
  · exact iff_of_false nofun fun h => h.2.2 hdef
  · refine iff_of_false (fun h => ?_) fun h => h.2.2 hdef
    refine (safe_schedule hagain i w hfit).2 ⟨fun j m hm => ?_, hglobal⟩ h
    by_cases hji : j = i
    · subst hji
      rw [hmi] at hm
      obtain rfl := Option.some.inj hm
      exact hdef.1
    · rw [honly j hji] at hm
      cases hm

/-- The end of a machine sets off a cell that is sent, and no limit. -/
theorem transitionedToEnd_divides : transitionedToEnd again i w ≠ .error .divisionByZero := by
  intro h
  rcases bind_error.mp h with h | ⟨mi, w1, h₁, h⟩
  · exact getMachine_error w h
  have hext := (safe_getMachine i w hfit).1 mi w1 h₁
  by_cases hneg : mi.spec.shouldNegotiateEnd
  · rw [if_pos hneg] at h
    let w2 : World := { w1 with paddingInfo := Function.update w1.paddingInfo i none, pos := w1.pos + 1 }
    have hfree := World.Extends.free hext.fit i
    have hw2 : (if (w1.tape w1.pos).cellSent then cellEventNonpaddingSent again else pure ()) w2 =
        .error .divisionByZero := h
    split at hw2
    · exact nonpaddingSent_noDivision hagain (w := w2) hfree.fit (hfree.only (hext.only honly)) hw2
    · cases hw2
  · rw [if_neg hneg] at h
    cases h

theorem enterState_divides {mi : Machine} {s : StateNum} (hmi : w.paddingInfo i = some mi) :
    enterState again i s w = .error .divisionByZero ↔
      isPaddingAllowed w = true ∧ w.around.participating = true ∧ s ≠ CIRCPAD_STATE_END ∧ ¬LimitDefined w mi := by
  let mi' := ({ mi with currentState := s }.setupTokens).chooseStateLength (w.tape w.pos).stateLength
  let w' : World := { w with pos := w.pos + 1, paddingInfo := Function.update w.paddingInfo i (some mi') }
  have hsame := (Machine.setupTokens_same { mi with currentState := s }).trans
    (Machine.chooseStateLength_same _ (w.tape w.pos).stateLength)
  have hmi' : w'.paddingInfo i = some mi' := Function.update_self i _ _
  have hlater : mi.Later mi' := by
    have hstate : mi.Later { mi with currentState := s } :=
      ⟨rfl, id, (hfit i mi hmi).padding, (hfit i mi hmi).nonpadding⟩
    exact hstate.trans (hsame.later hstate.fit)
  have hset := World.Extends.set hfit hmi hlater
  have hfit' : w'.CountersFit := hset.fit
  have honly' : Only i w' := hset.only honly
  have heq : enterState again i s w =
      (if s = CIRCPAD_STATE_END then transitionedToEnd again i >>= fun _ => pure Decision.changed
      else discard (circpadMachineSchedulePadding again i) >>= fun _ => pure Decision.changed : M Decision) w' := by
    unfold enterState
    rw [bind_eq]
    show (modifyMachine i _ >>= _ : M Decision) { w with pos := w.pos + 1 } = _
    rw [bind_eq, modifyMachine_some (w := { w with pos := w.pos + 1 }) hmi]
  rw [heq]
  by_cases hend : s = CIRCPAD_STATE_END
  · rw [if_pos hend]
    refine iff_of_false (fun h => ?_) fun h => h.2.2.1 hend
    rcases bind_error.mp h with h | ⟨u, w1, -, h⟩
    · exact transitionedToEnd_divides hagain hfit' honly' h
    · cases h
  · have hend' : mi'.currentState ≠ CIRCPAD_STATE_END := by
      rw [hsame.currentState]
      exact hend
    have hdefined : LimitDefined w' mi' ↔ LimitDefined w mi :=
      limitDefined_congr hsame.spec hsame.padding hsame.nonpadding rfl rfl rfl
    rw [if_neg hend, bind_pure_error, discard_error, schedulePadding_divides hagain hfit' honly' hmi' hend', hdefined]
    exact ⟨fun h => ⟨h.1, h.2.1, hend, h.2.2⟩, fun h => ⟨h.1, h.2.1, h.2.2.2⟩⟩

/-- A transition divides by zero if the machine reacts to the event and a divisor is zero then. -/
theorem transition_divides {event : Event} :
    transition again i event w = .error .divisionByZero ↔
      ∃ mi, w.paddingInfo i = some mi ∧ Reacts w mi event ∧ ¬LimitDefined w mi := by
  cases hmi : w.paddingInfo i with
  | none =>
    have heq : transition again i event w = .error .freedMachine := by
      unfold transition
      rw [bind_eq, getMachine_none hmi]
    rw [heq]
    exact iff_of_false nofun fun h => (by obtain ⟨mi, h, -⟩ := h; cases h)
  | some mi =>
    have hsome : (∃ m, some mi = some m ∧ Reacts w m event ∧ ¬LimitDefined w m) ↔
        Reacts w mi event ∧ ¬LimitDefined w mi := by
      constructor
      · rintro ⟨m, hm, h⟩
        obtain rfl := Option.some.inj hm
        exact h
      · intro h
        exact ⟨mi, rfl, h⟩
    rw [hsome]
    unfold transition
    rw [bind_eq, getMachine_some hmi]
    dsimp only
    cases hst : mi.state with
    | none =>
      refine iff_of_false nofun fun h => ?_
      obtain ⟨st, hst', -⟩ := h.1.next
      rw [hst] at hst'
      cases hst'
    | some st =>
      have hnext : Reacts w mi event ↔ isPaddingAllowed w = true ∧ w.around.participating = true ∧
          st.nextState event ≠ CIRCPAD_STATE_IGNORE ∧ st.nextState event ≠ CIRCPAD_STATE_CANCEL ∧
          st.nextState event ≠ CIRCPAD_STATE_END := by
        constructor
        · rintro ⟨ha, hp, st', hst', hs⟩
          rw [hst] at hst'
          obtain rfl := Option.some.inj hst'
          exact ⟨ha, hp, hs⟩
        · rintro ⟨ha, hp, hs⟩
          exact ⟨ha, hp, st, hst, hs⟩
      rw [hnext]
      dsimp only
      by_cases hignore : st.nextState event = CIRCPAD_STATE_IGNORE
      · rw [if_pos hignore]
        exact iff_of_false nofun fun h => h.1.2.2.1 hignore
      by_cases hcancel : st.nextState event = CIRCPAD_STATE_CANCEL
      · rw [if_neg hignore, if_pos hcancel]
        refine iff_of_false (fun h => ?_) fun h => h.1.2.2.2.1 hcancel
        rw [bind_pure_error] at h
        exact modifyMachine_error w h
      rw [if_neg hignore, if_neg hcancel]
      by_cases hsame : mi.currentState = st.nextState event
      · have hend : mi.currentState ≠ CIRCPAD_STATE_END := by
          intro hend
          rw [Machine.state, if_pos hend] at hst
          cases hst
        rw [if_neg (not_not.mpr hsame), schedulePadding_divides hagain hfit honly hmi hend]
        exact ⟨fun h => ⟨⟨h.1, h.2.1, hignore, hcancel, hsame ▸ hend⟩, h.2.2⟩, fun h => ⟨h.1.1, h.1.2.1, h.2⟩⟩
      · rw [if_pos hsame, enterState_divides hagain hfit honly hmi]
        exact ⟨fun h => ⟨⟨h.1, h.2.1, hignore, hcancel, h.2.2.1⟩, h.2.2.2⟩,
          fun h => ⟨h.1.1, h.1.2.1, h.1.2.2.2.2, h.2⟩⟩

end

end

/-- Whether a machine reacts depends on its specification and its state. -/
theorem reacts_congr {mi' : Machine} {event : Event} (hspec : mi'.spec = mi.spec)
    (hstate : mi'.currentState = mi.currentState) (ha : w'.around = w.around) :
    Reacts w' mi' event ↔ Reacts w mi event := by
  have hst : mi'.state = mi.state := by
    rw [Machine.state, Machine.state, hspec, hstate]
  constructor
  · rintro ⟨h1, h2, h3⟩
    rw [isPaddingAllowed, ha] at h1
    rw [ha] at h2
    rw [hst] at h3
    exact ⟨h1, h2, h3⟩
  · rintro ⟨h1, h2, h3⟩
    rw [isPaddingAllowed, ← ha] at h1
    rw [← ha] at h2
    rw [← hst] at h3
    exact ⟨h1, h2, h3⟩

theorem nonpaddingReceivedBody_divides (hfit : w.CountersFit) (honly : Only i w) :
    nonpaddingReceivedBody (specTransition (fuel + 1)) i w = .error .divisionByZero ↔
      ∃ mi, w.paddingInfo i = some mi ∧ Reacts w mi .nonpaddingRecv ∧ ¬LimitDefined w mi := by
  let f : Machine → Machine := fun mi =>
    mi.estimateRttOnReceived w.isOrigin w.around.circOpen (w.tape w.pos).nowUsec
  have heq : nonpaddingReceivedBody (specTransition (fuel + 1)) i w =
      (modifyMachine i f >>= fun _ => discard (transition (specTransition fuel) i .nonpaddingRecv) : M Unit)
        { w with pos := w.pos + 1 } := rfl
  rw [heq, bind_eq]
  cases hmi : w.paddingInfo i with
  | none =>
    rw [modifyMachine_none (w := { w with pos := w.pos + 1 }) hmi]
    exact iff_of_false nofun fun h => (by obtain ⟨mi, h, -⟩ := h; cases h)
  | some mi =>
    let w' : World := { w with pos := w.pos + 1, paddingInfo := Function.update w.paddingInfo i (some (f mi)) }
    have hsame : mi.SameCounters (f mi) := mi.estimateRttOnReceived_same _ _ _
    have hset := World.Extends.set hfit hmi (hsame.later (hfit i mi hmi))
    have hfit' : w'.CountersFit := hset.fit
    have honly' : Only i w' := hset.only honly
    rw [modifyMachine_some (w := { w with pos := w.pos + 1 }) hmi]
    show discard (transition (specTransition fuel) i .nonpaddingRecv) w' = _ ↔ _
    rw [discard_error, transition_divides (safe_specTransition fuel) hfit' honly']
    have hmi' : w'.paddingInfo i = some (f mi) := Function.update_self i _ _
    have hreacts : Reacts w' (f mi) .nonpaddingRecv ↔ Reacts w mi .nonpaddingRecv :=
      reacts_congr hsame.spec hsame.currentState rfl
    have hdefined : LimitDefined w' (f mi) ↔ LimitDefined w mi :=
      limitDefined_congr hsame.spec hsame.padding hsame.nonpadding rfl rfl rfl
    constructor
    · rintro ⟨m, hm, hr, hd⟩
      rw [hmi'] at hm
      obtain rfl := Option.some.inj hm
      exact ⟨mi, rfl, hreacts.mp hr, fun h => hd (hdefined.mpr h)⟩
    · rintro ⟨m, hm, hr, hd⟩
      obtain rfl := Option.some.inj hm
      exact ⟨f mi, hmi', hreacts.mpr hr, fun h => hd (hdefined.mp h)⟩

/-! ## Runs -/

/-- No machine is made to schedule padding while a divisor that is used is zero. -/
def Defined (w : World) : CellEvent → Prop
  | .nonpaddingReceived => ∀ i mi, w.paddingInfo i = some mi → Reacts w mi .nonpaddingRecv → LimitDefined w mi
  | .paddingReceived => ∀ i mi, w.paddingInfo i = some mi → Reacts w mi .paddingRecv → LimitDefined w mi
  | _ => True

theorem step_error {x : Stop} : step fuel w e = .error x ↔ handle fuel e w = .error x := by
  show (handle fuel e w).map _ = _ ↔ _
  cases handle fuel e w with
  | error y => exact ⟨fun h => congrArg _ (Except.error.inj h), fun h => congrArg _ (Except.error.inj h)⟩
  | ok p => exact iff_of_false nofun nofun

theorem step_ok (h : step fuel w e = .ok w') : ∃ a, handle fuel e w = .ok (a, w') := by
  change (handle fuel e w).map _ = _ at h
  cases hh : handle fuel e w with
  | error y =>
    rw [hh] at h
    cases h
  | ok p =>
    rw [hh] at h
    cases h
    exact ⟨p.1, rfl⟩

/-- Between the events of one machine's circuit. -/
structure OneMachine (i : Fin 2) (w : World) : Prop where
  fit : w.CountersFit
  only : Only i w

theorem oneMachine_freshWorld (spec : MachineSpec) (isOrigin : Bool) (around : Surroundings) (tape : Nat → Draw) :
    OneMachine spec.machineIndex (freshWorld spec isOrigin around tape) := by
  constructor
  · intro i mi hmi
    by_cases hi : i = spec.machineIndex
    · subst hi
      change Function.update (fun _ => none) _ _ _ = _ at hmi
      rw [Function.update_self] at hmi
      obtain rfl := Option.some.inj hmi
      exact ⟨show (0 : UInt16) < UINT16_MAX by decide, show (0 : UInt16) < UINT16_MAX by decide⟩
    · change Function.update (fun _ => none) _ _ _ = _ at hmi
      rw [Function.update_of_ne hi] at hmi
      cases hmi
  · intro j hj
    show Function.update (fun _ => none) _ _ _ = _
    rw [Function.update_of_ne hj]

theorem step_oneMachine (h : OneMachine i w) (hs : step fuel w e = .ok w') : OneMachine i w' := by
  obtain ⟨a, ha⟩ := step_ok hs
  have hsafe := safe_specTransition (fuel + 1)
  have hkeep : Safe (handle fuel e) → OneMachine i w' := by
    intro hm
    have hext := (hm w h.fit).1 a w' ha
    exact ⟨hext.fit, hext.only h.only⟩
  cases e with
  | nonpaddingSent => exact hkeep (safe_nonpaddingSent hsafe)
  | nonpaddingReceived => exact hkeep (safe_forEachActive (safe_nonpaddingReceivedBody hsafe))
  | paddingReceived => exact hkeep (safe_forEachActive fun j => safe_discard (hsafe j _))
  | timer j =>
    exact hkeep (safe_bind safe_get fun _ => safe_ite (safe_discard (safe_sendPaddingCell hsafe j)) (safe_pure _))
  | surroundings s =>
    cases ha
    exact ⟨h.fit, h.only⟩

/-- The loop over the machines divides by zero if its body does for one of them. -/
theorem received_divides {event : Event} (h : OneMachine i w) (hsafe : ∀ j, Safe (body j))
    (hbody : body i w = .error .divisionByZero ↔
      ∃ mi, w.paddingInfo i = some mi ∧ Reacts w mi event ∧ ¬LimitDefined w mi) :
    forEachActive body w = .error .divisionByZero ↔
      ¬∀ j mi, w.paddingInfo j = some mi → Reacts w mi event → LimitDefined w mi := by
  rw [forEachActive_divides h.fit h.only hsafe, hbody]
  constructor
  · rintro ⟨-, mi, hmi, hr, hd⟩ hall
    exact hd (hall i mi hmi hr)
  · intro hnot
    push Not at hnot
    obtain ⟨j, mi, hmi, hr, hd⟩ := hnot
    have hj : j = i := by
      by_contra hj
      rw [h.only j hj] at hmi
      cases hmi
    subst hj
    exact ⟨⟨mi, hmi⟩, mi, hmi, hr, hd⟩

theorem step_divides (h : OneMachine i w) : step fuel w e = .error .divisionByZero ↔ ¬Defined w e := by
  have hsafe := safe_specTransition (fuel + 1)
  rw [step_error]
  cases e with
  | nonpaddingSent => exact iff_of_false (nonpaddingSent_noDivision hsafe h.fit h.only) fun hd => hd trivial
  | nonpaddingReceived =>
    exact received_divides h (safe_nonpaddingReceivedBody hsafe) (nonpaddingReceivedBody_divides h.fit h.only)
  | paddingReceived =>
    refine received_divides h (fun j => safe_discard (hsafe j _)) ?_
    rw [discard_error]
    exact transition_divides (safe_specTransition fuel) h.fit h.only
  | timer j =>
    refine iff_of_false (fun hdiv => ?_) fun hd => hd trivial
    have hdiv' : (if (w.paddingInfo j).any Machine.isPaddingTimerScheduled then
        discard (sendPaddingCellForCallback (specTransition (fuel + 1)) j) else pure () : M Unit) w =
          .error .divisionByZero := hdiv
    by_cases hj : j = i
    · subst hj
      split at hdiv'
      · rw [discard_error] at hdiv'
        exact (noDivision_sendPaddingCell hsafe j w h.fit h.only).1 hdiv'
      · cases hdiv'
    · rw [h.only j hj] at hdiv'
      cases hdiv'
  | surroundings s => exact iff_of_false nofun fun hd => hd trivial

/-- Over every run of a fresh machine in a fresh process the counters stay below their bound; and the check of the
limits never divides by zero exactly if no received cell makes the machine schedule padding while a divisor is zero. -/
theorem limit_divides_iff (fuel : Nat) (spec : MachineSpec) (isOrigin : Bool) (around : Surroundings)
    (tape : Nat → Draw) (events : List CellEvent) :
    AllStates (fun w e => (step fuel w e).toOption) World.CountersFit (freshWorld spec isOrigin around tape) events ∧
      (AllSteps (fun w e => (step fuel w e).toOption) (fun w e => step fuel w e ≠ .error .divisionByZero)
          (freshWorld spec isOrigin around tape) events ↔
        AllSteps (fun w e => (step fuel w e).toOption) Defined (freshWorld spec isOrigin around tape) events) := by
  have hinv : ∀ pre w, Lib.run (fun w e => (step fuel w e).toOption) (freshWorld spec isOrigin around tape) pre =
      some w → OneMachine spec.machineIndex w := by
    intro pre w hrun
    refine run_inv_hist (I := fun _ w => OneMachine spec.machineIndex w)
      (oneMachine_freshWorld spec isOrigin around tape) (fun ls t l u _ ht hl => ?_) hrun
    cases hs : step fuel t l with
    | error x =>
      rw [hs] at hl
      cases hl
    | ok v =>
      rw [hs] at hl
      cases hl
      exact step_oneMachine ht hs
  refine ⟨fun pre w _ hrun => (hinv pre w hrun).fit, ?_⟩
  constructor
  · intro h pre l w hp hrun
    by_contra hnot
    exact h pre l w hp hrun ((step_divides (hinv pre w hrun)).mpr hnot)
  · intro h pre l w hp hrun hdiv
    exact (step_divides (hinv pre w hrun)).mp hdiv (h pre l w hp hrun)

section

local instance halfPadding_neZero : NeZero 2 := ⟨Nat.succ_ne_zero 1⟩

/-- A machine that lets half of the cells be padding, with none allowed before, and starts on the first cell received. -/
def halfPadding : MachineSpec where
  machineIndex := 0
  shouldNegotiateEnd := false
  allowedPaddingCount := 0
  maxPaddingPercent := 50
  states := [
    { delay := ⟨0, fun _ => 0, fun _ => 0, 0, .none, false, .none, Nat.zero_le _⟩
      nextState := fun e => if e = .nonpaddingRecv then 1 else CIRCPAD_STATE_IGNORE
      lengthDist := .none
      lengthIncludesNonpadding := false },
    { delay := ⟨0, fun _ => 0, fun _ => 0, 0, .uniform, false, .none, Nat.zero_le _⟩
      nextState := fun _ => CIRCPAD_STATE_IGNORE
      lengthDist := .none
      lengthIncludesNonpadding := false }]
  valid := by decide

end

/-- A relay that has just set such a machine up takes in the cell that asked for it, under a consensus that sets no parameter. -/
theorem a_first_cell_divides_by_zero : (circpadNewConsensusParams none).map (fun params =>
      step 0 (freshWorld halfPadding false ⟨params, true, true, true, false⟩
        fun _ => ⟨⟨fun _ => 0, fun _ _ => 0, 0⟩, 0, 0, true⟩) .nonpaddingReceived) =
    some (.error .divisionByZero) := by
  rfl

end Badnet.Circpad.PadMachine
