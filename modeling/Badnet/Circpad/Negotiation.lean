/-
  Badnet.Circpad.Negotiation — the client and the relay agreeing on which padding machine runs in which slot of a
  circuit (`circuitpadding.c`).

  Both ends keep, for each slot, the machine the slot is for and, while it runs, its counter. The client sends START and
  STOP, the relay answers each, and once more when its machine ends by itself. `Net` is both circuits and the cells
  under way; a label of `step` is one thing one of the two does.

  Before a cell is on the wire, `relay_send_command_from_edge_` runs its padding events, whose cells are packaged before
  it. So the cells being sent are a stack (`sending`, `answering`) and only `package` puts the top one on the wire.
-/

import Badnet.Lib.Run
import Mathlib.Logic.Function.Basic
import Mathlib.Algebra.Ring.Nat

namespace Badnet.Circpad

open Lib

/-- An index below `CIRCPAD_MAX_MACHINES`. -/
abbrev Slot := Fin 2

/-- `circpad_machine_num_t`. -/
abbrev MachineNum := UInt8

/-- The machines of both sides: the client's all target the one relay, which knows every
    machine number of the client at the same index. -/
structure Setting where
  index : MachineNum → Slot
  originMachines : List MachineNum
  relayMachines : List MachineNum
  known : ∀ m ∈ originMachines, m ∈ relayMachines

/-- The padding fields of a `circuit_t`; `paddingInfo` is the running machine's `machine_ctr`. -/
structure Circ where
  paddingMachine : Slot → Option MachineNum
  paddingInfo : Slot → Option Nat
  paddingMachineCtr : Nat

inductive Command | stop | start
deriving DecidableEq

inductive Response | ok | err
deriving DecidableEq

/-- `circpad_negotiate_t`. -/
structure Negotiate where
  command : Command
  machineType : MachineNum
  machineCtr : Nat
deriving DecidableEq

/-- `circpad_negotiated_t`. -/
structure Negotiated where
  command : Command
  response : Response
  machineType : MachineNum
  machineCtr : Nat
deriving DecidableEq

/-- What the relay sends: a PADDING_NEGOTIATED cell, or a DROP cell of the machine in a slot. -/
inductive Cell
  | negotiated (r : Negotiated)
  | drop (i : Slot)
deriving DecidableEq

/-! ## The operations on one circuit -/

/-- `circpad_setup_machine_on_circ`. -/
def setupMachineOnCirc (S : Setting) (circ : Circ) (m : MachineNum) : Circ :=
  if (circ.paddingMachine (S.index m)).isSome then circ
  else if (circ.paddingInfo (S.index m)).isSome then circ
  else
    let bumped := (circ.paddingMachineCtr + 1) % 2 ^ 32
    -- 0 means "any machine": the counter wraps to 1
    let ctr := if bumped = 0 then 1 else bumped
    { paddingMachine := Function.update circ.paddingMachine (S.index m) (some m)
      paddingInfo := Function.update circ.paddingInfo (S.index m) (some ctr)
      paddingMachineCtr := ctr }

variable (circ : Circ)

/-- The test of `free_circ_machineinfos_with_machine_num` on slot `i`. -/
def matchesStop (num : MachineNum) (ctr : Nat) (i : Slot) : Bool :=
  circ.paddingMachine i == some num &&
    !(ctr != 0 && match circ.paddingInfo i with | some c => c != ctr | none => false)

/-- `free_circ_machineinfos_with_machine_num`, with whether a slot was freed. -/
def freeCircMachineinfosWithMachineNum (num : MachineNum) (ctr : Nat) : Circ × Bool :=
  ({ circ with
      paddingMachine := fun i => if matchesStop circ num ctr i then none else circ.paddingMachine i
      paddingInfo := fun i => if matchesStop circ num ctr i then none else circ.paddingInfo i },
    decide (∃ i, matchesStop circ num ctr i))

variable (S : Setting)

/-- `circpad_handle_padding_negotiate`: the relay's circuit after the cell, and its answer. -/
def handlePaddingNegotiate (circ : Circ) (q : Negotiate) : Circ × Negotiated :=
  let answer (r : Response) : Negotiated := ⟨q.command, r, q.machineType, q.machineCtr⟩
  match q.command with
  | .stop =>
    let (freed, found) := freeCircMachineinfosWithMachineNum circ q.machineType q.machineCtr
    if found then (freed, answer .ok)
    else if q.machineCtr ≤ circ.paddingMachineCtr then (freed, answer .ok)
    else (freed, answer .err)
  | .start =>
    if S.relayMachines.contains q.machineType then (setupMachineOnCirc S circ q.machineType, answer .ok)
    else (circ, answer .err)

/-- `circpad_padding_is_from_expected_hop`, for a cell of the one hop every machine targets. -/
def circpadPaddingIsFromExpectedHop : Bool :=
  decide (∃ i, (circ.paddingMachine i).isSome)

/-- `circpad_handle_padding_negotiated`: the client's circuit after the cell, and whether the
    negotiation now counts as failed. -/
def handlePaddingNegotiated (r : Negotiated) : Circ × Bool :=
  if !circpadPaddingIsFromExpectedHop circ then (circ, false)
  else match r.command, r.response with
    | .stop, _ => ((freeCircMachineinfosWithMachineNum circ r.machineType r.machineCtr).1, false)
    | .start, .err => freeCircMachineinfosWithMachineNum circ r.machineType r.machineCtr
    | .start, .ok => (circ, false)

/-! ## The client, the relay and the cells under way -/

/-- `sending` and `answering` are the cells whose padding events still run, the latest first; `toRelay` and
`toClient` are on the wire, the oldest first. -/
structure Net where
  client : Circ
  failed : Bool
  sending : List Negotiate
  toRelay : List Negotiate
  relay : Circ
  answering : List Negotiated
  toClient : List Cell

inductive Event
  | start (m : MachineNum)
  | stop (i : Slot)
  | package
  | clientReceive
  | relayReceive
  | relayEnd (i : Slot)
  | relayPad (i : Slot)
  | relayPackage
deriving DecidableEq

def Circ.empty : Circ := ⟨fun _ => none, fun _ => none, 0⟩

def Net.init : Net := ⟨.empty, false, [], [], .empty, [], []⟩

variable (n : Net)

/-- One iteration of `circpad_add_matching_machines` that finds machine `m`. -/
def addMachine (m : MachineNum) : Net :=
  -- a machine waiting for its STOP response is replaced
  let replaced := { n.client with
    paddingMachine := Function.update n.client.paddingMachine (S.index m) none }
  let circ := setupMachineOnCirc S replaced m
  { n with client := circ, sending := ⟨.start, m, circ.paddingMachineCtr⟩ :: n.sending }

variable (i : Slot) (m : MachineNum)

/-- The origin side of `circpad_machine_spec_transitioned_to_end`: the info goes, the machine waits for the response. -/
def endMachine (ctr : Nat) : Net :=
  { n with
    client := { n.client with paddingInfo := Function.update n.client.paddingInfo i none }
    sending := ⟨.stop, m, ctr⟩ :: n.sending }

/-- The relay side of `circpad_machine_spec_transitioned_to_end`. -/
def relayEndMachine (ctr : Nat) : Net :=
  { n with
    relay := { n.relay with
      paddingMachine := Function.update n.relay.paddingMachine i none
      paddingInfo := Function.update n.relay.paddingInfo i none }
    answering := ⟨.stop, .ok, m, ctr⟩ :: n.answering }

/-- The client handles a cell of the relay. A DROP cell changes none of these fields. -/
def clientHandle : Cell → Net
  | .drop _ => n
  | .negotiated r =>
    let (circ, failed) := handlePaddingNegotiated n.client r
    { n with client := circ, failed := n.failed || failed }

/-- One step of the client, the relay or the wire. An end handles a cell only when none of
    its own is half sent. -/
def step : Event → Option Net
  | .start m =>
    if S.originMachines.contains m && !n.failed && (n.client.paddingInfo (S.index m)).isNone then
      some (addMachine S n m)
    else none
  | .stop i =>
    match n.client.paddingInfo i, n.client.paddingMachine i with
    | some ctr, some m => some (endMachine n i m ctr)
    | _, _ => none
  | .package =>
    match n.sending with
    | q :: rest => some { n with sending := rest, toRelay := n.toRelay ++ [q] }
    | [] => none
  | .clientReceive =>
    match n.sending, n.toClient with
    | [], cell :: rest => some (clientHandle { n with toClient := rest } cell)
    | _, _ => none
  | .relayReceive =>
    match n.answering, n.toRelay with
    | [], q :: rest =>
      let (circ, answer) := handlePaddingNegotiate S n.relay q
      some { n with relay := circ, toRelay := rest, answering := [answer] }
    | _, _ => none
  | .relayEnd i =>
    match n.relay.paddingInfo i, n.relay.paddingMachine i with
    | some ctr, some m => some (relayEndMachine n i m ctr)
    | _, _ => none
  | .relayPad i =>
    if (n.relay.paddingInfo i).isSome then some { n with toClient := n.toClient ++ [.drop i] } else none
  | .relayPackage =>
    match n.answering with
    | r :: rest => some { n with answering := rest, toClient := n.toClient ++ [.negotiated r] }
    | [] => none

/-! ## What each operation does to the running machines -/

/-- The machine running in slot `i` and its counter. -/
def Circ.running : Option (MachineNum × Nat) :=
  match circ.paddingMachine i, circ.paddingInfo i with
  | some m, some c => some (m, c)
  | _, _ => none

theorem running_eq_some {circ : Circ} {i : Slot} {m : MachineNum} {c : Nat} :
    circ.running i = some (m, c) ↔ circ.paddingMachine i = some m ∧ circ.paddingInfo i = some c := by
  unfold Circ.running
  rcases circ.paddingMachine i with _ | a <;> rcases circ.paddingInfo i with _ | b <;> simp

/-- Every machine is in the slot of its index, and only machines run. -/
structure Circ.Placed (S : Setting) (circ : Circ) : Prop where
  index : ∀ i m, circ.paddingMachine i = some m → S.index m = i
  whole : ∀ i, circ.paddingMachine i = none → circ.paddingInfo i = none

theorem running_eq_none {S : Setting} {circ : Circ} (hp : circ.Placed S) {i : Slot} :
    circ.running i = none ↔ circ.paddingInfo i = none := by
  rcases hm : circ.paddingMachine i with _ | m
  · simp [Circ.running, hm, hp.whole i hm]
  · rcases hc : circ.paddingInfo i with _ | c <;> simp [Circ.running, hm, hc]

theorem matchesStop_iff {circ : Circ} {num : MachineNum} {ctr : Nat} (h0 : ctr ≠ 0) (i : Slot) :
    matchesStop circ num ctr i = true ↔
      circ.paddingMachine i = some num ∧ (circ.paddingInfo i = none ∨ circ.paddingInfo i = some ctr) := by
  unfold matchesStop
  rcases circ.paddingInfo i with _ | c <;> simp [h0]

theorem free_placed {S : Setting} {circ : Circ} (hp : circ.Placed S) (num : MachineNum) (ctr : Nat) :
    (freeCircMachineinfosWithMachineNum circ num ctr).1.Placed S := by
  refine ⟨?_, ?_⟩
  · intro i m hm
    simp only [freeCircMachineinfosWithMachineNum] at hm
    split at hm
    · cases hm
    · exact hp.index i m hm
  · intro i hm
    simp only [freeCircMachineinfosWithMachineNum] at hm ⊢
    split
    · rfl
    · next hno => exact hp.whole i (by simpa [hno] using hm)

/-- A STOP of a counter other than 0 stops the machine of that number and counter, and no other. -/
theorem running_free {circ : Circ} {num : MachineNum} {ctr : Nat} (h0 : ctr ≠ 0) (i : Slot) :
    (freeCircMachineinfosWithMachineNum circ num ctr).1.running i =
      if circ.running i = some (num, ctr) then none else circ.running i := by
  have hiff := @matchesStop_iff circ num ctr h0 i
  by_cases h : matchesStop circ num ctr i = true
  · obtain ⟨hm, hc⟩ := hiff.mp h
    rcases hc with hc | hc <;> simp [freeCircMachineinfosWithMachineNum, Circ.running, h, hm, hc]
  · have hne : circ.running i ≠ some (num, ctr) := by
      intro hr
      obtain ⟨hm, hc⟩ := running_eq_some.mp hr
      exact h (hiff.mpr ⟨hm, .inr hc⟩)
    rw [if_neg hne]
    simp [freeCircMachineinfosWithMachineNum, Circ.running, h]

/-- A STOP of a counter other than 0 leaves the machines of the other counters running. -/
theorem free_keeps_other {circ : Circ} {num : MachineNum} {ctr c : Nat} {i : Slot} (h0 : ctr ≠ 0)
    (hc : circ.paddingInfo i = some c) (hne : c ≠ ctr) :
    (freeCircMachineinfosWithMachineNum circ num ctr).1.paddingInfo i = some c := by
  have hno : matchesStop circ num ctr i ≠ true := by
    intro h
    obtain ⟨-, hn | hs⟩ := (matchesStop_iff h0 i).mp h
    · rw [hc] at hn
      cases hn
    · rw [hc, Option.some.injEq] at hs
      exact hne hs
  simp [freeCircMachineinfosWithMachineNum, hno, hc]

theorem free_info_some {circ : Circ} {num : MachineNum} {ctr c : Nat} {i : Slot}
    (h : (freeCircMachineinfosWithMachineNum circ num ctr).1.paddingInfo i = some c) :
    circ.paddingInfo i = some c := by
  simp only [freeCircMachineinfosWithMachineNum] at h
  split at h
  · cases h
  · exact h

/-- A machine put into slot `i` with the next counter. -/
def Circ.install : Circ :=
  { paddingMachine := Function.update circ.paddingMachine i (some m)
    paddingInfo := Function.update circ.paddingInfo i (some (circ.paddingMachineCtr + 1))
    paddingMachineCtr := circ.paddingMachineCtr + 1 }

theorem setup_eq_install {S : Setting} {circ : Circ} {m : MachineNum}
    (hm : circ.paddingMachine (S.index m) = none) (hc : circ.paddingInfo (S.index m) = none)
    (hlt : circ.paddingMachineCtr + 1 < 2 ^ 32) :
    setupMachineOnCirc S circ m = circ.install (S.index m) m := by
  have hmod : (circ.paddingMachineCtr + 1) % 2 ^ 32 = circ.paddingMachineCtr + 1 := Nat.mod_eq_of_lt hlt
  simp only [setupMachineOnCirc, hm, hc, hmod]
  simp [Circ.install]

/-- The machine the client had left in the slot does not matter. -/
theorem addMachine_eq {S : Setting} {n : Net} {m : MachineNum}
    (hc : n.client.paddingInfo (S.index m) = none) (hlt : n.client.paddingMachineCtr + 1 < 2 ^ 32) :
    addMachine S n m =
      { n with
        client := n.client.install (S.index m) m
        sending := ⟨.start, m, n.client.paddingMachineCtr + 1⟩ :: n.sending } := by
  have hset := @setup_eq_install S
    { n.client with paddingMachine := Function.update n.client.paddingMachine (S.index m) none } m (by simp) hc hlt
  simp only [addMachine, hset]
  simp [Circ.install]

theorem install_placed {S : Setting} {circ : Circ} (hp : circ.Placed S) (m : MachineNum) :
    (circ.install (S.index m) m).Placed S := by
  refine ⟨?_, ?_⟩
  · intro i m' h
    by_cases hi : i = S.index m
    · subst hi
      have heq : some m = some m' := by simpa [Circ.install] using h
      cases heq
      rfl
    · exact hp.index i m' (by simpa [Circ.install, hi] using h)
  · intro i h
    by_cases hi : i = S.index m
    · subst hi
      simp [Circ.install] at h
    · simp only [Circ.install, Function.update_of_ne hi] at h ⊢
      exact hp.whole i h

theorem running_install (j : Slot) (m : MachineNum) :
    (circ.install i m).running j = if j = i then some (m, circ.paddingMachineCtr + 1) else circ.running j := by
  by_cases hi : j = i
  · subst hi
    simp [Circ.running, Circ.install]
  · simp [Circ.running, Circ.install, hi]

/-! ## What a step is -/

section Step

variable {S : Setting} {n : Net} {n' : Net} {r : Negotiated}

theorem step_start {m : MachineNum} : step S n (.start m) = some n' ↔ m ∈ S.originMachines ∧ n.failed = false ∧
      n.client.paddingInfo (S.index m) = none ∧ addMachine S n m = n' := by
  simp [step, and_assoc]

theorem step_stop {i : Slot} : step S n (.stop i) = some n' ↔ ∃ m c, n.client.paddingInfo i = some c ∧
      n.client.paddingMachine i = some m ∧ endMachine n i m c = n' := by
  simp only [step]
  split <;> simp_all

theorem step_package : step S n .package = some n' ↔ ∃ q rest, n.sending = q :: rest ∧
      { n with sending := rest, toRelay := n.toRelay ++ [q] } = n' := by
  simp only [step]
  split <;> simp_all

theorem step_clientReceive :
    step S n .clientReceive = some n' ↔ ∃ cell rest, n.sending = [] ∧ n.toClient = cell :: rest ∧
      clientHandle { n with toClient := rest } cell = n' := by
  simp only [step]
  split <;> simp_all

theorem step_relayReceive : step S n .relayReceive = some n' ↔ ∃ q rest, n.answering = [] ∧ n.toRelay = q :: rest ∧
      { n with
        relay := (handlePaddingNegotiate S n.relay q).1
        toRelay := rest
        answering := [(handlePaddingNegotiate S n.relay q).2] } = n' := by
  simp only [step]
  split <;> simp_all

theorem step_relayEnd {i : Slot} : step S n (.relayEnd i) = some n' ↔ ∃ m c, n.relay.paddingInfo i = some c ∧
      n.relay.paddingMachine i = some m ∧ relayEndMachine n i m c = n' := by
  simp only [step]
  split <;> simp_all

theorem step_relayPad {i : Slot} : step S n (.relayPad i) = some n' ↔ (n.relay.paddingInfo i).isSome ∧
      { n with toClient := n.toClient ++ [.drop i] } = n' := by
  simp [step]

theorem step_relayPackage : step S n .relayPackage = some n' ↔ ∃ r rest, n.answering = r :: rest ∧
      { n with answering := rest, toClient := n.toClient ++ [.negotiated r] } = n' := by
  simp only [step]
  split <;> simp_all

theorem clientHandle_stop (hs : r.command = .stop) (hx : circpadPaddingIsFromExpectedHop n.client = true) :
    clientHandle n (.negotiated r) =
      { n with client := (freeCircMachineinfosWithMachineNum n.client r.machineType r.machineCtr).1 } := by
  simp [clientHandle, handlePaddingNegotiated, hx, hs]

theorem clientHandle_start (hs : r.command = .start) (hok : r.response = .ok) :
    clientHandle n (.negotiated r) = n := by
  simp only [clientHandle, handlePaddingNegotiated, hs, hok]
  split <;> simp

theorem clientHandle_unexpected (hx : circpadPaddingIsFromExpectedHop n.client = false) :
    clientHandle n (.negotiated r) = n := by
  simp [clientHandle, handlePaddingNegotiated, hx]

theorem clientHandle_ctr (cell : Cell) :
    (clientHandle n cell).client.paddingMachineCtr = n.client.paddingMachineCtr := by
  rcases cell with r | i
  · simp only [clientHandle, handlePaddingNegotiated]
    split
    · rfl
    · split <;> rfl
  · rfl

end Step

end Badnet.Circpad
