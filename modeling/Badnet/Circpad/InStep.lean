/-
  Badnet.Circpad.InStep — the client's and the relay's padding machines stay in step.

  The commands under way to a slot lead from what the relay has running there to what the client has running there
  (`InOrder`), the STARTs under way carry the counters the relay will reach next, and what a STOP response names no
  longer runs at the relay (`Agree`). This holds as long as the client starts, ends and shuts down machines only while
  it is not sending a negotiation cell (`negotiation_in_step`); a machine that ends on the first cell sent ends while
  its own START is being sent (`a_stop_overtakes_its_start`).
-/

import Badnet.Circpad.Negotiation
import Mathlib.Data.List.Range

namespace Badnet.Circpad

open Lib

/-! ## The commands under way to one slot -/

/-- The commands the client has given and the relay has not handled, the oldest first. -/
def Net.inFlight (n : Net) : List Negotiate := n.toRelay ++ n.sending

/-- Those for slot `i`. -/
def slotCommands (S : Setting) (i : Slot) (qs : List Negotiate) : List Negotiate :=
  qs.filter fun q => S.index q.machineType = i

/-- The counters of the STARTs among the commands. -/
def startCtrs (qs : List Negotiate) : List Nat :=
  (qs.filter fun q => q.command = .start).map Negotiate.machineCtr

/-- The commands take a slot from running `R` to running `C`: a START comes to a slot where
    nothing runs, a STOP names what runs. -/
def Leads : Option (MachineNum × Nat) → List Negotiate → Option (MachineNum × Nat) → Prop
  | R, [], C => R = C
  | R, q :: qs, C =>
    match q.command with
    | .start => R = none ∧ Leads (some (q.machineType, q.machineCtr)) qs C
    | .stop => R = some (q.machineType, q.machineCtr) ∧ Leads none qs C

variable {R C : Option (MachineNum × Nat)} {ps qs : List Negotiate} {m : MachineNum} {c k : Nat}

theorem Leads.trans {M : Option (MachineNum × Nat)} (h : Leads R ps M)
    (h' : Leads M qs C) : Leads R (ps ++ qs) C := by
  induction ps generalizing R with
  | nil =>
    have hR : R = M := h
    exact hR ▸ h'
  | cons q ps ih =>
    rcases hq : q.command with _ | _ <;> simp only [Leads, List.cons_append, hq] at h ⊢ <;>
      exact ⟨h.1, ih h.2⟩

theorem Leads.split (h : Leads R (ps ++ qs) C) : ∃ M, Leads R ps M ∧ Leads M qs C := by
  induction ps generalizing R with
  | nil => exact ⟨R, rfl, h⟩
  | cons q ps ih =>
    rcases hq : q.command with _ | _ <;> simp only [Leads, List.cons_append, hq] at h ⊢ <;>
    · obtain ⟨hR, h⟩ := h
      obtain ⟨M, hM, h⟩ := ih h
      exact ⟨M, ⟨hR, hM⟩, h⟩

/-- With commands under way, what the client has running is started by one of them. -/
theorem Leads.started (h : Leads R qs (some (m, c))) (hne : qs ≠ []) : ⟨.start, m, c⟩ ∈ qs := by
  induction qs generalizing R with
  | nil => exact absurd rfl hne
  | cons q qs ih =>
    obtain ⟨command, m', c'⟩ := q
    rcases command with _ | _ <;> obtain ⟨-, h⟩ := h
    · rcases qs with _ | ⟨p, qs⟩
      · cases h
      · exact List.mem_cons_of_mem _ (ih h (by simp))
    · rcases qs with _ | ⟨p, qs⟩
      · cases h
        exact List.mem_cons_self
      · exact List.mem_cons_of_mem _ (ih h (by simp))

/-- The slot runs `R` at the relay after `k` starts, `C` at the client, and the `qs` under way lead from the one to
the other, or from a machine that has ended by itself. -/
def InOrder (k : Nat) (R : Option (MachineNum × Nat)) (qs : List Negotiate)
    (C : Option (MachineNum × Nat)) : Prop :=
  ∃ R', Leads R' qs C ∧ (R' = R ∨ R = none ∧ ∃ r, R' = some r ∧ r.2 ≤ k)

theorem InOrder.append {M : Option (MachineNum × Nat)}
    (h : InOrder k R ps M) (h' : Leads M qs C) : InOrder k R (ps ++ qs) C := by
  obtain ⟨R', hl, hR⟩ := h
  exact ⟨R', hl.trans h', hR⟩

theorem InOrder.split (h : InOrder k R (ps ++ qs) C) : ∃ M, InOrder k R ps M ∧ Leads M qs C := by
  obtain ⟨R', hl, hR⟩ := h
  obtain ⟨M, hM, hl⟩ := hl.split
  exact ⟨M, ⟨R', hM, hR⟩, hl⟩

theorem InOrder.mono {k' : Nat} (hk : k ≤ k') (h : InOrder k R qs C) : InOrder k' R qs C := by
  obtain ⟨R', hl, hR | ⟨hR, r, hr, hle⟩⟩ := h
  · exact ⟨R', hl, .inl hR⟩
  · exact ⟨R', hl, .inr ⟨hR, r, hr, le_trans hle hk⟩⟩

/-- A START at the head finds the slot free. -/
theorem InOrder.start_head (h : InOrder k R (⟨.start, m, c⟩ :: qs) C) : R = none ∧ Leads (some (m, c)) qs C := by
  obtain ⟨R', ⟨hR', hl⟩, hR | ⟨hR, -⟩⟩ := h
  · exact ⟨by rw [← hR, hR'], hl⟩
  · exact ⟨hR, hl⟩

/-- A STOP at the head names the machine in the slot, or one that has ended by itself. -/
theorem InOrder.stop_head
    (h : InOrder k R (⟨.stop, m, c⟩ :: qs) C) : (R = some (m, c) ∨ R = none ∧ c ≤ k) ∧ Leads none qs C := by
  obtain ⟨R', ⟨hR', hl⟩, hR | ⟨hR, r, hr, hle⟩⟩ := h
  · exact ⟨.inl (by rw [← hR, hR']), hl⟩
  · rw [hR', Option.some.injEq] at hr
    rw [← hr] at hle
    exact ⟨.inr ⟨hR, hle⟩, hl⟩

/-! ## The invariant -/

variable (S : Setting)

/-- An answer under way: it is OK, and what a STOP response names does not run at the relay,
    nor will it again. -/
def SoundAnswer (relay : Circ) (r : Negotiated) : Prop :=
  r.response = .ok ∧ r.machineCtr ≠ 0 ∧
    (r.command = .stop → r.machineCtr ≤ relay.paddingMachineCtr ∧
      relay.running (S.index r.machineType) ≠ some (r.machineType, r.machineCtr))

structure Agree (S : Setting) (n : Net) : Prop where
  client : n.client.Placed S
  relay : n.relay.Placed S
  freed : ∀ i, n.relay.paddingInfo i = none → n.relay.paddingMachine i = none
  behind : n.relay.paddingMachineCtr ≤ n.client.paddingMachineCtr
  starts : startCtrs n.inFlight =
    List.range' (n.relay.paddingMachineCtr + 1) (n.client.paddingMachineCtr - n.relay.paddingMachineCtr)
  commands : ∀ q ∈ n.inFlight, q.machineCtr ≠ 0 ∧ (q.command = .start → q.machineType ∈ S.relayMachines)
  clientCtr : ∀ i c, n.client.paddingInfo i = some c → c ≠ 0 ∧ c ≤ n.client.paddingMachineCtr
  relayCtr : ∀ i c, n.relay.paddingInfo i = some c → c ≠ 0 ∧ c ≤ n.relay.paddingMachineCtr
  slots : ∀ i, InOrder n.relay.paddingMachineCtr (n.relay.running i) (slotCommands S i n.inFlight)
    (n.client.running i)
  answers : ∀ r, Cell.negotiated r ∈ n.toClient ∨ r ∈ n.answering → SoundAnswer S n.relay r

theorem empty_placed : Circ.empty.Placed S := by
  refine ⟨?_, ?_⟩
  · intro i m h
    cases h
  · intro i _
    rfl

theorem agree_init : Agree S Net.init where
  client := empty_placed S
  relay := empty_placed S
  freed := by intro i _; rfl
  behind := le_refl _
  starts := rfl
  commands := by intro q hq; cases hq
  clientCtr := by intro i c h; cases h
  relayCtr := by intro i c h; cases h
  slots := by intro i; exact ⟨none, rfl, .inl rfl⟩
  answers := by intro r hr; rcases hr with hr | hr <;> cases hr

section Steps

variable {S : Setting} {n : Net} {m : MachineNum} {c : Nat} {q : Negotiate} {i : Slot} {rest : List Negotiate}

/-- A START under way has a counter the client has reached and the relay has not. -/
theorem Agree.start_ahead (ha : Agree S n) (h : ⟨.start, m, c⟩ ∈ n.inFlight) :
    n.relay.paddingMachineCtr < c ∧ c ≤ n.client.paddingMachineCtr := by
  have hmem : c ∈ startCtrs n.inFlight := by
    simp only [startCtrs, List.mem_map, List.mem_filter]
    exact ⟨_, ⟨h, by simp⟩, rfl⟩
  rw [ha.starts, List.mem_range'_1] at hmem
  omega

theorem slotCommands_append (i : Slot) (ps qs : List Negotiate) :
    slotCommands S i (ps ++ qs) = slotCommands S i ps ++ slotCommands S i qs := List.filter_append ..

theorem startCtrs_append (ps qs : List Negotiate) : startCtrs (ps ++ qs) = startCtrs ps ++ startCtrs qs := by
  simp [startCtrs]

@[simp] theorem slotCommands_self (q : Negotiate) : slotCommands S (S.index q.machineType) [q] = [q] := by
  simp [slotCommands]

theorem slotCommands_other (h : i ≠ S.index q.machineType) : slotCommands S i [q] = [] := by
  simp [slotCommands, Ne.symm h]

/-- The client gives a command while it is sending none: the slot of the command goes where
    the command leads, the other slots stay. -/
theorem Agree.command (ha : Agree S n) (hs : n.sending = []) {circ : Circ}
    (hp : circ.Placed S) (hle : n.client.paddingMachineCtr ≤ circ.paddingMachineCtr)
    (hstarts : startCtrs [q] =
      List.range' (n.client.paddingMachineCtr + 1) (circ.paddingMachineCtr - n.client.paddingMachineCtr))
    (hq : q.machineCtr ≠ 0 ∧ (q.command = .start → q.machineType ∈ S.relayMachines))
    (hctr : ∀ i c, circ.paddingInfo i = some c → c ≠ 0 ∧ c ≤ circ.paddingMachineCtr)
    (hrun : ∀ i, Leads (n.client.running i) (slotCommands S i [q]) (circ.running i)) :
    Agree S { n with client := circ, sending := q :: n.sending } := by
  have hF : Net.inFlight { n with client := circ, sending := q :: n.sending } = n.inFlight ++ [q] := by
    simp [Net.inFlight, hs]
  have hb := ha.behind
  refine ⟨hp, ha.relay, ha.freed, le_trans hb hle, ?_, ?_, hctr, ha.relayCtr, ?_, ha.answers⟩
  · rw [hF, startCtrs_append, ha.starts, hstarts]
    have hsum : n.client.paddingMachineCtr + 1 =
        n.relay.paddingMachineCtr + 1 + 1 * (n.client.paddingMachineCtr - n.relay.paddingMachineCtr) := by
      omega
    rw [hsum, List.range'_append]
    congr 1
    show n.client.paddingMachineCtr - n.relay.paddingMachineCtr +
      (circ.paddingMachineCtr - n.client.paddingMachineCtr) = circ.paddingMachineCtr - n.relay.paddingMachineCtr
    omega
  · rw [hF]
    intro p hpm
    rcases List.mem_append.mp hpm with hpm | hpm
    · exact ha.commands p hpm
    · rw [List.mem_singleton.mp hpm]
      exact hq
  · intro i
    rw [hF, slotCommands_append]
    exact (ha.slots i).append (hrun i)

theorem Agree.add_machine (ha : Agree S n) (hs : n.sending = [])
    (hm : m ∈ S.originMachines) (hfree : n.client.paddingInfo (S.index m) = none)
    (hlt : n.client.paddingMachineCtr + 1 < 2 ^ 32) : Agree S (addMachine S n m) := by
  rw [addMachine_eq hfree hlt]
  refine ha.command hs (install_placed ha.client m) (Nat.le_succ _) ?_ ⟨Nat.succ_ne_zero _, ?_⟩ ?_ ?_
  · simp [startCtrs, Circ.install]
  · intro _
    exact S.known m hm
  · intro i c hc
    simp only [Circ.install] at hc ⊢
    by_cases hi : i = S.index m
    · subst hi
      rw [Function.update_self, Option.some.injEq] at hc
      omega
    · rw [Function.update_of_ne hi] at hc
      have := ha.clientCtr i c hc
      omega
  · intro i
    rw [running_install]
    by_cases hi : i = S.index m
    · subst hi
      simp [slotCommands, Leads, (running_eq_none ha.client).mpr hfree]
    · simp [slotCommands, Leads, hi, Ne.symm hi]

theorem Agree.end_machine (ha : Agree S n) (hs : n.sending = [])
    (hc : n.client.paddingInfo i = some c) (hm : n.client.paddingMachine i = some m) :
    Agree S (endMachine n i m c) := by
  refine ha.command hs ?_ (le_refl _) ?_ ⟨(ha.clientCtr i c hc).1, by intro h; cases h⟩ ?_ ?_
  · refine ⟨ha.client.index, ?_⟩
    intro j hj
    by_cases hji : j = i
    · simp [hji]
    · simpa [hji] using ha.client.whole j hj
  · simp [startCtrs]
  · intro j c' hc'
    by_cases hji : j = i
    · simp [hji] at hc'
    · exact ha.clientCtr j c' (by simpa [hji] using hc')
  · intro j
    by_cases hji : j = i
    · subst hji
      simp [slotCommands, Leads, ha.client.index j m hm, Circ.running, hm, hc]
    · have hne : S.index m ≠ j := by
        intro h
        exact hji (h.symm.trans (ha.client.index i m hm))
      simp [slotCommands, Leads, hne, Circ.running, hji]

theorem inFlight_cons (hq : n.toRelay = q :: rest) : n.inFlight = [q] ++ (rest ++ n.sending) := by
  rw [Net.inFlight, hq]
  rfl

section

variable (ha : Agree S n)
include ha

/-- The relay handles the oldest command under way and answers it. -/
theorem Agree.answered (hq : n.toRelay = q :: rest) {circ : Circ} {answer : Negotiated} (hp : circ.Placed S)
    (hfreed : ∀ i, circ.paddingInfo i = none → circ.paddingMachine i = none) (hstarts : startCtrs [q] =
      List.range' (n.relay.paddingMachineCtr + 1) (circ.paddingMachineCtr - n.relay.paddingMachineCtr))
    (hle : n.relay.paddingMachineCtr ≤ circ.paddingMachineCtr)
    (hle' : circ.paddingMachineCtr ≤ n.client.paddingMachineCtr)
    (hctr : ∀ i c, circ.paddingInfo i = some c → c ≠ 0 ∧ c ≤ circ.paddingMachineCtr)
    (hrun : ∀ i M, InOrder n.relay.paddingMachineCtr (n.relay.running i) (slotCommands S i [q]) M →
      InOrder circ.paddingMachineCtr (circ.running i) [] M)
    (hkeep : ∀ r, SoundAnswer S n.relay r → SoundAnswer S circ r) (hsound : SoundAnswer S circ answer) :
    Agree S { n with relay := circ, toRelay := rest, answering := [answer] } := by
  have hF := inFlight_cons hq
  refine ⟨ha.client, hp, hfreed, hle', ?_, ?_, ha.clientCtr, hctr, ?_, ?_⟩
  · have hs := ha.starts
    have hsum : n.client.paddingMachineCtr - n.relay.paddingMachineCtr =
        circ.paddingMachineCtr - n.relay.paddingMachineCtr +
          (n.client.paddingMachineCtr - circ.paddingMachineCtr) := by omega
    have hnext : n.relay.paddingMachineCtr + 1 + 1 * (circ.paddingMachineCtr - n.relay.paddingMachineCtr) =
        circ.paddingMachineCtr + 1 := by omega
    rw [hF, startCtrs_append, hstarts, hsum, ← List.range'_append, hnext] at hs
    exact List.append_cancel_left hs
  · intro p hpm
    exact ha.commands p (by rw [hF]; exact List.mem_append_right _ hpm)
  · intro i
    have hslot := ha.slots i
    rw [hF, slotCommands_append] at hslot
    obtain ⟨M, hM, hl⟩ := hslot.split
    exact (hrun i M hM).append hl
  · intro r hr
    rcases hr with hr | hr
    · exact hkeep r (ha.answers r (.inl hr))
    · rw [List.mem_singleton.mp hr]
      exact hsound

/-- The relay handles a START: its slot is free, and it installs the counter the START names. -/
theorem Agree.relay_start (hq : n.toRelay = ⟨.start, m, c⟩ :: rest) (hlt : n.client.paddingMachineCtr < 2 ^ 32) :
    n.relay.paddingMachine (S.index m) = none ∧ n.relay.paddingInfo (S.index m) = none ∧
      c = n.relay.paddingMachineCtr + 1 ∧ c ≤ n.client.paddingMachineCtr ∧
      handlePaddingNegotiate S n.relay ⟨.start, m, c⟩ = (n.relay.install (S.index m) m, ⟨.start, .ok, m, c⟩) := by
  have hF := inFlight_cons hq
  have hmem : ⟨.start, m, c⟩ ∈ n.inFlight := by
    rw [hF]
    exact List.mem_cons_self
  have hslot := ha.slots (S.index m)
  rw [hF, slotCommands_append, slotCommands_self ⟨.start, m, c⟩] at hslot
  have hinfo := (running_eq_none ha.relay).mp hslot.start_head.1
  have hmach := ha.freed _ hinfo
  have hc : c = n.relay.paddingMachineCtr + 1 := by
    have hs := ha.starts
    rw [hF, startCtrs_append, eq_comm] at hs
    exact (List.range'_eq_cons_iff.mp hs).1.symm
  have hknown : m ∈ S.relayMachines := (ha.commands _ hmem).2 rfl
  have hbound := ha.start_ahead hmem
  refine ⟨hmach, hinfo, hc, hbound.2, ?_⟩
  simp [handlePaddingNegotiate, hknown, setup_eq_install hmach hinfo (by omega)]

/-- The relay handles a STOP: the machine it names runs there, or has ended by itself; the
    answer is OK. -/
theorem Agree.relay_stop (hq : n.toRelay = ⟨.stop, m, c⟩ :: rest) :
    c ≠ 0 ∧ c ≤ n.relay.paddingMachineCtr ∧
      handlePaddingNegotiate S n.relay ⟨.stop, m, c⟩ =
        ((freeCircMachineinfosWithMachineNum n.relay m c).1, ⟨.stop, .ok, m, c⟩) := by
  have hF := inFlight_cons hq
  have h0 : c ≠ 0 := (ha.commands ⟨.stop, m, c⟩ (by rw [hF]; exact List.mem_cons_self)).1
  have hslot := ha.slots (S.index m)
  rw [hF, slotCommands_append, slotCommands_self ⟨.stop, m, c⟩] at hslot
  have hle : c ≤ n.relay.paddingMachineCtr := by
    rcases hslot.stop_head.1 with hR | ⟨-, hle⟩
    · exact (ha.relayCtr _ c (running_eq_some.mp hR).2).2
    · exact hle
  refine ⟨h0, hle, ?_⟩
  simp [handlePaddingNegotiate, hle]

/-- A command leaves the other slots of the relay alone. -/
theorem Agree.relay_other (hq : n.toRelay = q :: rest) (hlt : n.client.paddingMachineCtr < 2 ^ 32)
    (hi : i ≠ S.index q.machineType) : (handlePaddingNegotiate S n.relay q).1.running i = n.relay.running i := by
  obtain ⟨command, m, c⟩ := q
  cases command with
  | start =>
    rw [(ha.relay_start hq hlt).2.2.2.2]
    exact (running_install n.relay (S.index m) i m).trans (if_neg hi)
  | stop =>
    obtain ⟨h0, -, hh⟩ := ha.relay_stop hq
    have hne : n.relay.running i ≠ some (m, c) := by
      intro h
      exact hi (ha.relay.index i m (running_eq_some.mp h).1).symm
    rw [hh]
    exact (running_free h0 i).trans (if_neg hne)

theorem Agree.relay_receive_start (hq : n.toRelay = ⟨.start, m, c⟩ :: rest)
    (hlt : n.client.paddingMachineCtr < 2 ^ 32) :
    Agree S { n with
      relay := n.relay.install (S.index m) m
      toRelay := rest
      answering := [⟨.start, .ok, m, c⟩] } := by
  obtain ⟨hmach, hinfo, hc, hle, -⟩ := ha.relay_start hq hlt
  refine ha.answered hq (install_placed ha.relay m) ?_ ?_ (Nat.le_succ _) ?_ ?_ ?_ ?_ ⟨rfl, ?_, ?_⟩
  · intro i hi
    by_cases him : i = S.index m
    · simp [Circ.install, him] at hi
    · simp only [Circ.install, Function.update_of_ne him] at hi ⊢
      exact ha.freed i hi
  · simp [startCtrs, Circ.install, hc]
  · simp only [Circ.install]
    omega
  · intro i c' hc'
    by_cases him : i = S.index m
    · subst him
      simp only [Circ.install, Function.update_self, Option.some.injEq] at hc' ⊢
      omega
    · simp only [Circ.install, Function.update_of_ne him] at hc' ⊢
      have := ha.relayCtr i c' hc'
      omega
  · intro i M hM
    rw [running_install]
    by_cases him : i = S.index m
    · subst him
      rw [slotCommands_self ⟨.start, m, c⟩] at hM
      rw [if_pos rfl, ← hc]
      exact ⟨_, hM.start_head.2, .inl rfl⟩
    · rw [slotCommands_other (q := ⟨.start, m, c⟩) him] at hM
      rw [if_neg him]
      exact hM.mono (Nat.le_succ _)
  · intro r hr
    obtain ⟨hok, h0, hstop⟩ := hr
    refine ⟨hok, h0, ?_⟩
    intro hs
    obtain ⟨hle', hne⟩ := hstop hs
    refine ⟨Nat.le_succ_of_le hle', ?_⟩
    rw [running_install]
    split
    · intro h
      rw [Option.some.injEq, Prod.mk.injEq] at h
      omega
    · exact hne
  · show c ≠ 0
    omega
  · intro h
    cases h

theorem Agree.relay_receive_stop (hq : n.toRelay = ⟨.stop, m, c⟩ :: rest) : Agree S { n with
      relay := (freeCircMachineinfosWithMachineNum n.relay m c).1
      toRelay := rest
      answering := [⟨.stop, .ok, m, c⟩] } := by
  obtain ⟨h0, hle, -⟩ := ha.relay_stop hq
  refine ha.answered hq (free_placed ha.relay m c) ?_ ?_ (le_refl _) ha.behind ?_ ?_ ?_ ⟨rfl, h0, ?_⟩
  · intro i hi
    simp only [freeCircMachineinfosWithMachineNum] at hi ⊢
    split
    · rfl
    · next hno => exact ha.freed i (by simpa [hno] using hi)
  · simp [startCtrs, freeCircMachineinfosWithMachineNum]
  · intro i c' hc'
    exact ha.relayCtr i c' (free_info_some hc')
  · intro i M hM
    rw [running_free h0]
    by_cases him : i = S.index m
    · subst him
      rw [slotCommands_self ⟨.stop, m, c⟩] at hM
      obtain ⟨hR, hl⟩ := hM.stop_head
      refine ⟨none, hl, .inl ?_⟩
      rcases hR with hR | ⟨hR, -⟩ <;> simp [hR]
    · rw [slotCommands_other (q := ⟨.stop, m, c⟩) him] at hM
      have hne : n.relay.running i ≠ some (m, c) := by
        intro h
        exact him (ha.relay.index i m (running_eq_some.mp h).1).symm
      rw [if_neg hne]
      exact hM
  · intro r hr
    obtain ⟨hok, h0', hstop⟩ := hr
    refine ⟨hok, h0', ?_⟩
    intro hs
    obtain ⟨hle', hne⟩ := hstop hs
    refine ⟨hle', ?_⟩
    rw [running_free h0]
    split
    · simp
    · exact hne
  · intro _
    refine ⟨hle, ?_⟩
    rw [running_free h0]
    split
    · simp
    · assumption

/-- The relay's machine ends by itself. -/
theorem Agree.relay_ends (hc : n.relay.paddingInfo i = some c) (hm : n.relay.paddingMachine i = some m) :
    Agree S (relayEndMachine n i m c) := by
  have hrun : ∀ j, (relayEndMachine n i m c).relay.running j = if j = i then none else n.relay.running j := by
    intro j
    by_cases hji : j = i <;> simp [relayEndMachine, Circ.running, hji]
  have hctr := ha.relayCtr i c hc
  refine ⟨ha.client, ⟨?_, ?_⟩, ?_, ha.behind, ha.starts, ha.commands, ha.clientCtr, ?_, ?_, ?_⟩
  · intro j m' hj
    by_cases hji : j = i
    · simp [relayEndMachine, hji] at hj
    · exact ha.relay.index j m' (by simpa [relayEndMachine, hji] using hj)
  · intro j hj
    by_cases hji : j = i
    · simp [relayEndMachine, hji]
    · simpa [relayEndMachine, hji] using ha.relay.whole j (by simpa [relayEndMachine, hji] using hj)
  · intro j hj
    by_cases hji : j = i
    · simp [relayEndMachine, hji]
    · simpa [relayEndMachine, hji] using ha.freed j (by simpa [relayEndMachine, hji] using hj)
  · intro j c' hj
    by_cases hji : j = i
    · simp [relayEndMachine, hji] at hj
    · exact ha.relayCtr j c' (by simpa [relayEndMachine, hji] using hj)
  · intro j
    rw [hrun]
    split
    · next hji =>
      subst hji
      obtain ⟨R', hl, hR | ⟨hR, -⟩⟩ := ha.slots j
      · rw [running_eq_some.mpr ⟨hm, hc⟩] at hR
        exact ⟨R', hl, .inr ⟨rfl, (m, c), hR, hctr.2⟩⟩
      · rw [running_eq_some.mpr ⟨hm, hc⟩] at hR
        cases hR
    · exact ha.slots j
  · have hkeep : ∀ r, SoundAnswer S n.relay r → SoundAnswer S (relayEndMachine n i m c).relay r := by
      intro r hr
      obtain ⟨hok, h0, hstop⟩ := hr
      refine ⟨hok, h0, ?_⟩
      intro hs
      refine ⟨(hstop hs).1, ?_⟩
      rw [hrun]
      split
      · simp
      · exact (hstop hs).2
    intro r hr
    rcases hr with hr | hr
    · exact hkeep r (ha.answers r (.inl hr))
    · rcases List.mem_cons.mp hr with hr | hr
      · subst hr
        refine ⟨rfl, hctr.1, ?_⟩
        intro _
        refine ⟨hctr.2, ?_⟩
        rw [hrun, if_pos (ha.relay.index i m hm)]
        simp
      · exact hkeep r (ha.answers r (.inr hr))

/-- A STOP response frees the client's running machine only where the relay's has ended by
    itself and nothing is under way to the slot. -/
theorem Agree.client_free {r : Negotiated} (hr : SoundAnswer S n.relay r) (hs : r.command = .stop) :
    Agree S { n with
      client := (freeCircMachineinfosWithMachineNum n.client r.machineType r.machineCtr).1 } := by
  obtain ⟨-, h0, hstop⟩ := hr
  obtain ⟨hle, hne⟩ := hstop hs
  refine ⟨free_placed ha.client _ _, ha.relay, ha.freed, ha.behind, ha.starts, ha.commands, ?_, ha.relayCtr,
    ?_, ha.answers⟩
  · intro i c hc
    exact ha.clientCtr i c (free_info_some hc)
  · intro i
    rw [running_free h0]
    split
    · next hrun =>
      have hi : S.index r.machineType = i := ha.client.index i _ (running_eq_some.mp hrun).1
      subst hi
      obtain ⟨R', hl, hR⟩ := ha.slots (S.index r.machineType)
      rw [hrun] at hl
      by_cases hnil : slotCommands S (S.index r.machineType) n.inFlight = []
      · have hR' : R' = some (r.machineType, r.machineCtr) := by
          rw [hnil] at hl
          exact hl
        show InOrder _ _ (slotCommands S (S.index r.machineType) n.inFlight) _
        rw [hnil]
        refine ⟨none, rfl, .inl ?_⟩
        rcases hR with hR | ⟨hR, -⟩
        · exact absurd (hR.symm.trans hR') hne
        · exact hR.symm
      · -- the machine's START would still be under way, but the relay has had its counter
        have hmem := List.mem_of_mem_filter (hl.started hnil)
        have := (ha.start_ahead hmem).1
        omega
    · exact ha.slots i

theorem Agree.client_handle {cell : Cell} (hc : ∀ r, cell = .negotiated r → SoundAnswer S n.relay r) :
    Agree S (clientHandle n cell) := by
  rcases cell with r | i
  · have hr := hc r rfl
    rcases hs : r.command with _ | _
    · rcases hx : circpadPaddingIsFromExpectedHop n.client with _ | _
      · rw [clientHandle_unexpected hx]
        exact ha
      · rw [clientHandle_stop hs hx]
        exact ha.client_free hr hs
    · rw [clientHandle_start hs hr.1]
      exact ha
  · exact ha

end

/-! ## Every step keeps it -/

/-- The client gives no command while it is sending one. -/
def Quiet (n : Net) : Event → Prop
  | .start _ => n.sending = []
  | .stop _ => n.sending = []
  | _ => True

instance (n : Net) (e : Event) : Decidable (Quiet n e) :=
  match e with
  | .start _ => inferInstanceAs (Decidable (n.sending = []))
  | .stop _ => inferInstanceAs (Decidable (n.sending = []))
  | .package | .clientReceive | .relayReceive | .relayEnd _ | .relayPad _ | .relayPackage => .isTrue trivial

def Event.isStart : Event → Bool
  | .start _ => true
  | _ => false

def starts (es : List Event) : Nat := es.countP Event.isStart

theorem Agree.step (ha : Agree S n) {e : Event} {n' : Net} (hq : Quiet n e)
    (hlt : n.client.paddingMachineCtr + Circpad.starts [e] < 2 ^ 32) (h : step S n e = some n') : Agree S n' := by
  cases e with
  | start m =>
    obtain ⟨hm, -, hfree, rfl⟩ := step_start.mp h
    exact ha.add_machine hq hm hfree hlt
  | stop i =>
    obtain ⟨m, c, hc, hm, rfl⟩ := step_stop.mp h
    exact ha.end_machine hq hc hm
  | package =>
    obtain ⟨q, rest, hs, rfl⟩ := step_package.mp h
    have hF : Net.inFlight { n with sending := rest, toRelay := n.toRelay ++ [q] } = n.inFlight := by
      simp [Net.inFlight, hs]
    refine ⟨ha.client, ha.relay, ha.freed, ha.behind, ?_, ?_, ha.clientCtr, ha.relayCtr, ?_, ha.answers⟩ <;> rw [hF]
    · exact ha.starts
    · exact ha.commands
    · exact ha.slots
  | clientReceive =>
    obtain ⟨cell, rest, -, hc, rfl⟩ := step_clientReceive.mp h
    have hpop : Agree S { n with toClient := rest } := by
      refine { ha with answers := ?_ }
      intro r hr
      apply ha.answers r
      rw [hc]
      exact hr.imp_left (List.mem_cons_of_mem _)
    apply hpop.client_handle
    intro r hr
    apply ha.answers r
    rw [hc, hr]
    exact .inl List.mem_cons_self
  | relayReceive =>
    obtain ⟨q, rest, -, hr, rfl⟩ := step_relayReceive.mp h
    have hlt' : n.client.paddingMachineCtr < 2 ^ 32 := by omega
    obtain ⟨command, m, c⟩ := q
    cases command with
    | start =>
      rw [(ha.relay_start hr hlt').2.2.2.2]
      exact ha.relay_receive_start hr hlt'
    | stop =>
      rw [(ha.relay_stop hr).2.2]
      exact ha.relay_receive_stop hr
  | relayEnd i =>
    obtain ⟨m, c, hc, hm, rfl⟩ := step_relayEnd.mp h
    exact ha.relay_ends hc hm
  | relayPad i =>
    obtain ⟨-, rfl⟩ := step_relayPad.mp h
    refine { ha with answers := ?_ }
    intro r hr
    apply ha.answers r
    simpa using hr
  | relayPackage =>
    obtain ⟨r, rest, hr, rfl⟩ := step_relayPackage.mp h
    refine { ha with answers := ?_ }
    intro p hp
    apply ha.answers p
    rw [hr]
    have hp' : (Cell.negotiated p ∈ n.toClient ∨ p = r) ∨ p ∈ rest := by simpa using hp
    rcases hp' with (hp | hp) | hp
    · exact .inl hp
    · exact .inr (List.mem_cons.mpr (.inl hp))
    · exact .inr (List.mem_cons_of_mem _ hp)

end Steps

/-! ## The negotiation stays in step -/

/-- The machines running under a counter other than `c` keep running. -/
def KeepsOthers (c : Nat) (before after : Circ) : Prop :=
  ∀ i c', before.paddingInfo i = some c' → c' ≠ c → after.paddingInfo i = some c'

/-- When the relay handles a command, the answer is OK; a START finds its slot free and the machine it installs gets
its counter; a STOP frees no machine of another counter. -/
def InStepRelay (relay : Circ) (q : Negotiate) : Prop :=
  (handlePaddingNegotiate S relay q).2.response = .ok ∧
    match q.command with
    | .start =>
      relay.paddingMachine (S.index q.machineType) = none ∧ relay.paddingInfo (S.index q.machineType) = none ∧
        (handlePaddingNegotiate S relay q).1.running (S.index q.machineType) = some (q.machineType, q.machineCtr)
    | .stop => KeepsOthers q.machineCtr relay (handlePaddingNegotiate S relay q).1

/-- What is to hold of a step: of the relay handling a command, and of the client handling a
    STOP response. -/
def InStep (n : Net) : Event → Prop
  | .relayReceive => ∀ q rest, n.answering = [] → n.toRelay = q :: rest → InStepRelay S n.relay q
  | .clientReceive =>
    ∀ r rest, n.sending = [] → n.toClient = .negotiated r :: rest → r.command = .stop →
      KeepsOthers r.machineCtr n.client (handlePaddingNegotiated n.client r).1
  | _ => True

section InStep

variable {S : Setting} {n : Net}

theorem Agree.in_step_relay (ha : Agree S n) (hlt : n.client.paddingMachineCtr < 2 ^ 32) {q : Negotiate}
    {rest : List Negotiate} (hq : n.toRelay = q :: rest) : InStepRelay S n.relay q := by
  obtain ⟨command, m, c⟩ := q
  cases command with
  | start =>
    obtain ⟨hm, hinfo, hc, -, hh⟩ := ha.relay_start hq hlt
    refine ⟨by rw [hh], hm, hinfo, ?_⟩
    rw [hh]
    show (n.relay.install (S.index m) m).running (S.index m) = some (m, c)
    rw [running_install, if_pos rfl, hc]
  | stop =>
    obtain ⟨h0, -, hh⟩ := ha.relay_stop hq
    refine ⟨by rw [hh], ?_⟩
    intro i c' hi hne
    rw [hh]
    exact free_keeps_other h0 hi hne

theorem Agree.in_step (ha : Agree S n) (hlt : n.client.paddingMachineCtr < 2 ^ 32) (e : Event) :
    InStep S n e := by
  cases e with
  | relayReceive =>
    intro q rest _ hq
    exact ha.in_step_relay hlt hq
  | clientReceive =>
    intro r rest _ hc hs i c' hi hne
    have h0 := (ha.answers r (by rw [hc]; exact .inl List.mem_cons_self)).2.1
    unfold handlePaddingNegotiated
    split
    · exact hi
    · rw [hs]
      exact free_keeps_other h0 hi hne
  | start | stop | package | relayEnd | relayPad | relayPackage => trivial

/-- The client's counter counts its starts, while there are fewer than 2^32. -/
theorem client_ctr_run {es : List Event} (hfew : starts es < 2 ^ 32) (h : run (step S) Net.init es = some n) :
    n.client.paddingMachineCtr = starts es := by
  refine run_inv_hist (I := fun es n => starts es < 2 ^ 32 → n.client.paddingMachineCtr = starts es)
    (fun _ => rfl) ?_ h hfew
  intro es n e n' _ ih hstep hfew
  have hsum : starts (es ++ [e]) = starts es + starts [e] := List.countP_append
  have hctr := ih (by omega)
  cases e with
  | start m =>
    obtain ⟨-, -, hfree, rfl⟩ := step_start.mp hstep
    have hlt : n.client.paddingMachineCtr + 1 < 2 ^ 32 := by
      rw [hctr]
      exact hsum ▸ hfew
    rw [addMachine_eq hfree hlt, hsum, ← hctr]
    rfl
  | stop i =>
    obtain ⟨m, c, -, -, rfl⟩ := step_stop.mp hstep
    exact hctr.trans hsum.symm
  | package =>
    obtain ⟨q, rest, -, rfl⟩ := step_package.mp hstep
    exact hctr.trans hsum.symm
  | clientReceive =>
    obtain ⟨cell, rest, -, -, rfl⟩ := step_clientReceive.mp hstep
    rw [clientHandle_ctr]
    exact hctr.trans hsum.symm
  | relayReceive =>
    obtain ⟨q, rest, -, -, rfl⟩ := step_relayReceive.mp hstep
    exact hctr.trans hsum.symm
  | relayEnd i =>
    obtain ⟨m, c, -, -, rfl⟩ := step_relayEnd.mp hstep
    exact hctr.trans hsum.symm
  | relayPad i =>
    obtain ⟨-, rfl⟩ := step_relayPad.mp hstep
    exact hctr.trans hsum.symm
  | relayPackage =>
    obtain ⟨r, rest, -, rfl⟩ := step_relayPackage.mp hstep
    exact hctr.trans hsum.symm

/-- In a run with fewer than 2^32 starts the counter has room at every step. -/
theorem room_of_starts {es : List Event} (hfew : starts es < 2 ^ 32) :
    AllSteps (step S) (fun n e => n.client.paddingMachineCtr + starts [e] < 2 ^ 32) Net.init es := by
  intro pre e n hp hrun
  have hle : starts (pre ++ [e]) ≤ starts es := hp.sublist.countP_le
  have hsum : starts (pre ++ [e]) = starts pre + starts [e] := List.countP_append
  rw [client_ctr_run (by omega) hrun]
  omega

theorem agree_run {es : List Event} (hfew : starts es < 2 ^ 32) (hq : AllSteps (step S) Quiet Net.init es)
    (h : run (step S) Net.init es = some n) : Agree S n := by
  refine run_inv_steps (C := fun n e => Quiet n e ∧ n.client.paddingMachineCtr + starts [e] < 2 ^ 32)
    ?_ (agree_init S) ?_ h
  · intro n e n' ha hc hstep
    exact ha.step hc.1 hc.2 hstep
  · intro pre e n' hp hrun
    exact ⟨hq pre e n' hp hrun, room_of_starts hfew pre e n' hp hrun⟩

end InStep

/-- In every run with fewer than 2^32 starts in which the client starts, ends and shuts down only while it is not
sending a negotiation cell, every step is in step. -/
theorem negotiation_in_step {S : Setting} {es : List Event} (hfew : starts es < 2 ^ 32)
    (hquiet : AllSteps (step S) Quiet Net.init es) : AllSteps (step S) (InStep S) Net.init es := by
  intro pre e n hp hrun
  have hpre : pre <+: es := (List.prefix_append pre [e]).trans hp
  have hroom := room_of_starts hfew pre e n hp hrun
  have ha : Agree S n := by
    apply agree_run (lt_of_le_of_lt hpre.sublist.countP_le hfew) _ hrun
    intro pre' e' n' hp'
    exact hquiet pre' e' n' (hp'.trans hpre)
  exact ha.in_step (by omega) e

def firstSlot : Slot := 0

/-- One machine, number 1 in the first slot, known to both. -/
def oneMachine : Setting where
  index := fun _ => firstSlot
  originMachines := [1]
  relayMachines := [1]
  known := by intro m hm; exact hm

/-- The machine is started; both ends end it at once, and the client starts it again before
    the STOPs have arrived. -/
def crossingStops : List Event :=
  [.start 1, .package, .relayReceive, .relayPackage, .relayEnd firstSlot, .stop firstSlot, .package, .start 1, .package,
    .relayPackage, .clientReceive, .clientReceive, .relayReceive, .relayPackage, .relayReceive]

theorem crossing_stops_in_step :
    (run (step oneMachine) Net.init crossingStops).isSome ∧
      AllSteps (step oneMachine) (InStep oneMachine) Net.init crossingStops :=
  ⟨by decide +kernel, negotiation_in_step (by decide) (allSteps_of_check (by decide +kernel))⟩

/-- A machine ends while its own START is being sent. Its STOP is the first on the wire, and the relay, which knows
of no such machine, answers with an error. -/
theorem a_stop_overtakes_its_start :
    starts [.start 1, .stop firstSlot, .package, .package, .relayReceive] < 2 ^ 32 ∧
      ¬ AllSteps (step oneMachine) (InStep oneMachine) Net.init
        [.start 1, .stop firstSlot, .package, .package, .relayReceive] := by
  refine ⟨by decide, ?_⟩
  intro h
  have hlast := h [.start 1, .stop firstSlot, .package, .package] .relayReceive _ (List.prefix_refl _) rfl
    ⟨.stop, 1, 1⟩ [⟨.start, 1, 1⟩] rfl rfl
  exact absurd hlast.1 (by decide +kernel)

end Badnet.Circpad
