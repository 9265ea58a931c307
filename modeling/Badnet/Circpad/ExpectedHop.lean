/-
  Badnet.Circpad.ExpectedHop — a relay's padding arrives while the client expects it.

  The client takes padding and PADDING_NEGOTIATED cells from a hop as long as a `padding_machine` of that hop is set
  (`circpad_padding_is_from_expected_hop`). A STOP response clears the record of its machine number whenever that
  machine is not running, whatever counter the response carries.

  - `padding_expected`: the runs in which every cell of the relay finds its slot's machine set.
  - `both_ends_end_the_machine`: the relay's own STOP response clears the record and the response to the client's STOP
    finds none.
-/

import Badnet.Circpad.InStep

namespace Badnet.Circpad

open Lib

/-! ## The cells under way, slot by slot -/

variable (S : Setting)

def Cell.slot : Cell → Slot
  | .negotiated r => S.index r.machineType
  | .drop i => i

/-- The command a cell answers; a DROP cell answers none. -/
def Cell.note : Cell → Option Negotiate
  | .negotiated r => some ⟨r.command, r.machineType, r.machineCtr⟩
  | .drop _ => none

/-- The cells of slot `i` the relay has sent or is sending, as the commands they answer. -/
def slotNotes (i : Slot) (cells : List Cell) : List (Option Negotiate) :=
  (cells.filter fun cell => cell.slot S = i).map Cell.note

/-- What is under way about slot `i`, what the client will see first at the head: the relay's
    cells, then the commands it has not handled. -/
def Net.underway (n : Net) (i : Slot) : List (Option Negotiate) :=
  slotNotes S i n.toClient ++ (slotNotes S i (n.answering.map .negotiated) ++
    (slotCommands S i n.inFlight).map some)

variable (machine : Option MachineNum)

/-- The record of a slot is kept as long as it is needed: without it nothing is under way; after the machine's end
its STOP is the last thing under way; while the machine runs, it is not, unless the relay's machine has ended by
itself. -/
def Kept (info : Option Nat) (R : Option (MachineNum × Nat)) (qs : List Negotiate) (us : List (Option Negotiate)) :
    Prop :=
  match machine, info with
  | none, _ => us = [] ∧ R = none
  | some m, none => ∃ us' c, us = us' ++ [some ⟨.stop, m, c⟩] ∧ ∀ c', some ⟨.stop, m, c'⟩ ∉ us'
  | some m, some c =>
    some ⟨.stop, m, c⟩ ∉ us ∨
      ∃ us', us = us' ++ [some ⟨.stop, m, c⟩] ∧ some ⟨.stop, m, c⟩ ∉ us' ∧ qs = [] ∧ R = none

/-- A note clears the record: it is a STOP of the machine's number while the machine does not
    run, or of its number and counter while it does. -/
def Clears (info : Option Nat) (o : Option Negotiate) : Prop :=
  ∃ m c, o = some ⟨.stop, m, c⟩ ∧ machine = some m ∧ (info = none ∨ info = some c)

section Kept

variable {machine : Option MachineNum} {info : Option Nat} {R R' : Option (MachineNum × Nat)}
  {qs qs' : List Negotiate} {us vs : List (Option Negotiate)} {o : Option Negotiate}

theorem Kept.isSome (h : Kept machine info R qs (o :: us)) : machine.isSome = true := by
  rcases machine with _ | m
  · exact absurd h.1 (by simp)
  · rfl

/-- A note that clears nothing arrives. -/
theorem Kept.tail (h : Kept machine info R qs (o :: us)) (hno : ¬ Clears machine info o) :
    Kept machine info R qs us := by
  have hpop : ∀ {m c us'}, o :: us = us' ++ [some ⟨.stop, m, c⟩] → o ≠ some ⟨.stop, m, c⟩ →
      ∃ us'', us' = o :: us'' ∧ us = us'' ++ [some ⟨.stop, m, c⟩] := by
    intro m c us' heq hne
    rcases us' with _ | ⟨p, us'⟩
    · exact absurd (List.cons.inj heq).1 hne
    · obtain ⟨rfl, rfl⟩ := List.cons.inj heq
      exact ⟨us', rfl, rfl⟩
  rcases machine with _ | m
  · exact absurd h.1 (by simp)
  · rcases info with _ | c
    · obtain ⟨us', c, heq, hall⟩ := h
      obtain ⟨us'', rfl, rfl⟩ := hpop heq (by
        intro ho
        exact hno ⟨m, c, ho, rfl, .inl rfl⟩)
      exact ⟨us'', c, rfl, fun c' hc' => hall c' (List.mem_cons_of_mem _ hc')⟩
    · rcases h with h | ⟨us', heq, hnot, hqs, hR⟩
      · exact .inl fun hm => h (List.mem_cons_of_mem _ hm)
      · obtain ⟨us'', rfl, rfl⟩ := hpop heq (by
          intro ho
          exact hno ⟨m, c, ho, rfl, .inr rfl⟩)
        exact .inr ⟨us'', rfl, fun hm => hnot (List.mem_cons_of_mem _ hm), hqs, hR⟩

/-- A note that clears the record is the last one under way. -/
theorem Kept.last (h : Kept machine info R qs (o :: us)) (hc : Clears machine info o) :
    us = [] ∧ (info = none ∨ R = none) := by
  obtain ⟨m, c, rfl, rfl, hinfo⟩ := hc
  have hhead : ∀ {us' x}, some ⟨.stop, m, c⟩ :: us = us' ++ [x] → some ⟨.stop, m, c⟩ ∉ us' → us = [] := by
    intro us' x heq hnot
    rcases us' with _ | ⟨p, us'⟩
    · exact (List.cons.inj heq).2
    · obtain ⟨rfl, -⟩ := List.cons.inj heq
      exact absurd List.mem_cons_self hnot
  rcases hinfo with rfl | rfl
  · obtain ⟨us', c', heq, hall⟩ := h
    exact ⟨hhead heq (hall c), .inl rfl⟩
  · rcases h with h | ⟨us', heq, hnot, -, hR⟩
    · exact absurd List.mem_cons_self h
    · exact ⟨hhead heq hnot, .inr hR⟩

/-- The relay sends a cell that clears nothing, behind the cells it has sent. -/
theorem Kept.insert {r : MachineNum × Nat} (h : Kept machine info (some r) qs (us ++ vs))
    (hno : ¬ Clears machine info o) (hvs : info = none → vs ≠ []) : Kept machine info R' qs (us ++ o :: vs) := by
  rcases machine with _ | m
  · cases h.2
  · rcases info with _ | c
    · obtain ⟨us', c, heq, hall⟩ := h
      rcases List.eq_nil_or_concat vs with hnil | ⟨vs', x, hx⟩
      · exact absurd hnil (hvs rfl)
      · -- the machine's own STOP is the last of the commands still to come
        rw [List.concat_eq_append] at hx
        subst hx
        rw [← List.append_assoc] at heq
        obtain ⟨rfl, hx⟩ := List.append_inj' heq rfl
        rw [List.cons.injEq] at hx
        refine ⟨us ++ o :: vs', c, by simp [hx.1], ?_⟩
        intro c' hc'
        rcases List.mem_append.mp hc' with hc' | hc'
        · exact hall c' (List.mem_append_left _ hc')
        · rcases List.mem_cons.mp hc' with ho | hc'
          · exact hno ⟨m, c', ho.symm, rfl, .inl rfl⟩
          · exact hall c' (List.mem_append_right _ hc')
    · rcases h with h | ⟨us', heq, hnot, hqs, hR⟩
      · refine .inl ?_
        intro hm
        rcases List.mem_append.mp hm with hm | hm
        · exact h (List.mem_append_left _ hm)
        · rcases List.mem_cons.mp hm with ho | hm
          · exact hno ⟨m, c, ho.symm, rfl, .inr rfl⟩
          · exact h (List.mem_append_right _ hm)
      · cases hR

/-- The relay handles a command of the slot. -/
theorem Kept.handled (h : Kept machine info R qs us) (hqs : qs ≠ []) (hus : us ≠ []) :
    Kept machine info R' qs' us := by
  rcases machine with _ | m
  · exact absurd h.1 hus
  · rcases info with _ | c
    · exact h
    · rcases h with h | ⟨us', heq, hnot, hnil, -⟩
      · exact .inl h
      · exact absurd hnil hqs

end Kept

/-! ## What each step does to the cells under way -/

section Underway

variable {S : Setting} {n : Net}

theorem slotNotes_append (i : Slot) (xs ys : List Cell) :
    slotNotes S i (xs ++ ys) = slotNotes S i xs ++ slotNotes S i ys := by
  simp [slotNotes]

/-- The client gives a command. -/
theorem underway_command (hs : n.sending = []) (circ : Circ) (q : Negotiate) (i : Slot) :
    Net.underway S { n with client := circ, sending := q :: n.sending } i =
      n.underway S i ++ (slotCommands S i [q]).map some := by
  have hF : Net.inFlight { n with client := circ, sending := q :: n.sending } = n.inFlight ++ [q] := by
    simp [Net.inFlight, hs]
  simp [Net.underway, hF, slotCommands_append]

theorem underway_package {q : Negotiate} {rest : List Negotiate} (hs : n.sending = q :: rest) (i : Slot) :
    Net.underway S { n with sending := rest, toRelay := n.toRelay ++ [q] } i = n.underway S i := by
  simp [Net.underway, Net.inFlight, hs]

theorem underway_relayPackage {r : Negotiated} {rest : List Negotiated} (hr : n.answering = r :: rest) (i : Slot) :
    Net.underway S { n with answering := rest, toClient := n.toClient ++ [.negotiated r] } i = n.underway S i := by
  have hone : slotNotes S i (n.answering.map .negotiated) =
      slotNotes S i [.negotiated r] ++ slotNotes S i (rest.map .negotiated) := by
    rw [hr, ← slotNotes_append]
    rfl
  simp [Net.underway, Net.inFlight, hone, slotNotes_append]

theorem answer_note (circ : Circ) (q : Negotiate) :
    (Cell.negotiated (handlePaddingNegotiate S circ q).2).note = some q := by
  obtain ⟨command, m, c⟩ := q
  cases command with
  | stop =>
    simp only [handlePaddingNegotiate]
    split
    · rfl
    · split <;> rfl
  | start =>
    simp only [handlePaddingNegotiate]
    split <;> rfl

theorem answer_slot (circ : Circ) (q : Negotiate) :
    (Cell.negotiated (handlePaddingNegotiate S circ q).2).slot S = S.index q.machineType := by
  have h := @answer_note S circ q
  simp only [Cell.note, Option.some.injEq] at h
  exact congrArg (fun q => S.index q.machineType) h

/-- The answer takes the command's place. -/
theorem underway_relayReceive {q : Negotiate} {rest : List Negotiate} (hidle : n.answering = [])
    (hq : n.toRelay = q :: rest) (i : Slot) :
    Net.underway S { n with
      relay := (handlePaddingNegotiate S n.relay q).1
      toRelay := rest
      answering := [(handlePaddingNegotiate S n.relay q).2] } i = n.underway S i := by
  have hone : slotNotes S i [.negotiated (handlePaddingNegotiate S n.relay q).2] =
      (slotCommands S i [q]).map some := by
    by_cases hi : S.index q.machineType = i <;> simp [slotNotes, slotCommands, answer_slot, answer_note, hi]
  have hF : n.inFlight = [q] ++ (rest ++ n.sending) := inFlight_cons hq
  simp only [Net.underway, hF, hidle, slotCommands_append, List.map_append, List.map_cons, List.map_nil, hone]
  simp [Net.inFlight, slotCommands_append, slotNotes]

/-- A cell reaches the client. -/
theorem underway_clientReceive {cell : Cell} {rest : List Cell} (hc : n.toClient = cell :: rest) (i : Slot) :
    n.underway S i = slotNotes S i [cell] ++ Net.underway S { n with toClient := rest } i := by
  have hone : slotNotes S i n.toClient = slotNotes S i [cell] ++ slotNotes S i rest := by
    rw [hc, ← slotNotes_append]
    rfl
  simp [Net.underway, hone, Net.inFlight]

end Underway

/-! ## The record is kept -/

/-- The machine number of a STOP or a STOP response. -/
def stopNum : Option Negotiate → Option MachineNum
  | some ⟨.stop, m, _⟩ => some m
  | _ => none

/-- The client ends a machine when no STOP of that number, nor its response, is under way. The relay's machine ends
by itself when the client does not wait for such a response and no answer about the slot is being sent. -/
def Settled (n : Net) : Event → Prop
  | .start _ => n.sending = []
  | .stop i => n.sending = [] ∧
      ∀ m ∈ n.client.paddingMachine i, ∀ o ∈ n.underway S i, stopNum o ≠ some m
  | .relayEnd i => ∀ r ∈ n.relay.running i,
      (n.client.paddingMachine i = some r.1 → n.client.paddingInfo i ≠ none) ∧
      (n.client.paddingInfo i = some r.2 → ∀ answer ∈ n.answering, S.index answer.machineType ≠ i)
  | _ => True

structure Expecting (S : Setting) (n : Net) : Prop where
  agree : Agree S n
  old : ∀ q ∈ n.inFlight, q.machineCtr ≤ n.client.paddingMachineCtr
  kept : ∀ i, Kept (n.client.paddingMachine i) (n.client.paddingInfo i) (n.relay.running i)
    (slotCommands S i n.inFlight) (n.underway S i)

theorem expecting_init : Expecting S Net.init where
  agree := agree_init S
  old := by intro q hq; cases hq
  kept := by intro i; exact ⟨rfl, rfl⟩

section Expecting

variable {S : Setting} {n : Net}

theorem Settled.quiet {e : Event} (h : Settled S n e) : Quiet n e := by
  cases e with
  | start m => exact h
  | stop i => exact h.1
  | package | clientReceive | relayReceive | relayEnd | relayPad | relayPackage => trivial

variable {i : Slot} {m : MachineNum} {c : Nat} {cell : Cell} {rest : List Cell}

theorem mem_underway {q : Negotiate} (h : some q ∈ n.underway S i) :
    (∃ r, (Cell.negotiated r ∈ n.toClient ∨ r ∈ n.answering) ∧ Cell.note (.negotiated r) = some q) ∨
      q ∈ n.inFlight := by
  simp only [Net.underway, slotNotes, slotCommands, List.mem_append, List.mem_map, List.mem_filter] at h
  rcases h with ⟨cell, ⟨hc, -⟩, hn⟩ | ⟨cell, ⟨⟨r, hr, rfl⟩, -⟩, hn⟩ | ⟨p, ⟨hp, -⟩, hpq⟩
  · rcases cell with r | j
    · exact .inl ⟨r, .inl hc, hn⟩
    · cases hn
  · exact .inl ⟨r, .inr hr, hn⟩
  · cases hpq
    exact .inr hp

/-- No STOP under way carries a counter the client has not given out. -/
theorem Expecting.fresh (he : Expecting S n) (i : Slot) (m : MachineNum) :
    some ⟨.stop, m, n.client.paddingMachineCtr + 1⟩ ∉ n.underway S i := by
  intro h
  rcases mem_underway h with ⟨r, hr, hn⟩ | hq
  · obtain ⟨hs, -, hc⟩ := Negotiate.mk.injEq .. ▸ Option.some.inj hn
    have hle := ((he.agree.answers r hr).2.2 hs).1
    have := he.agree.behind
    omega
  · have : n.client.paddingMachineCtr + 1 ≤ n.client.paddingMachineCtr := he.old _ hq
    omega

/-- Where the relay runs a machine the client does not, commands are still to come. -/
theorem Agree.commands_to_come (ha : Agree S n) {r : MachineNum × Nat}
    (hr : n.relay.running i = some r) (hc : n.client.running i ≠ some r) : slotCommands S i n.inFlight ≠ [] := by
  intro hnil
  obtain ⟨R', hl, hR | ⟨hR, -⟩⟩ := ha.slots i
  · rw [hnil] at hl
    have hR' : R' = n.client.running i := hl
    exact hc (by rw [← hR', hR, hr])
  · rw [hr] at hR
    cases hR

/-- Where both run the machine of one counter, no command is under way to the slot. -/
theorem Agree.no_commands (ha : Agree S n) {m' : MachineNum}
    (hr : n.relay.running i = some (m, c)) (hc : n.client.running i = some (m', c)) :
    slotCommands S i n.inFlight = [] ∧ m' = m := by
  obtain ⟨R', hl, hR | ⟨hR, -⟩⟩ := ha.slots i
  · rw [hc] at hl
    by_cases hnil : slotCommands S i n.inFlight = []
    · rw [hnil] at hl
      have hR' : R' = some (m', c) := hl
      rw [hR', hr, Option.some.injEq, Prod.mk.injEq] at hR
      exact ⟨hnil, hR.1⟩
    · have hmem := List.mem_of_mem_filter (hl.started hnil)
      have := (ha.start_ahead hmem).1
      have := (ha.relayCtr i c (running_eq_some.mp hr).2).2
      omega
  · rw [hr] at hR
    cases hR

/-- The client gives a command about one slot. -/
theorem Expecting.command (he : Expecting S n) (hs : n.sending = []) {circ : Circ} {q : Negotiate}
    (ha : Agree S { n with client := circ, sending := q :: n.sending })
    (hle : n.client.paddingMachineCtr ≤ circ.paddingMachineCtr) (hq : q.machineCtr ≤ circ.paddingMachineCtr)
    (hother : ∀ i, i ≠ S.index q.machineType →
      circ.paddingMachine i = n.client.paddingMachine i ∧ circ.paddingInfo i = n.client.paddingInfo i)
    (hself : ∀ R qs, Kept (circ.paddingMachine (S.index q.machineType)) (circ.paddingInfo (S.index q.machineType)) R qs
      (n.underway S (S.index q.machineType) ++ [some q])) :
    Expecting S { n with client := circ, sending := q :: n.sending } := by
  have hF : Net.inFlight { n with client := circ, sending := q :: n.sending } = n.inFlight ++ [q] := by
    simp [Net.inFlight, hs]
  refine ⟨ha, ?_, ?_⟩
  · intro p hp
    rw [hF] at hp
    show p.machineCtr ≤ circ.paddingMachineCtr
    rcases List.mem_append.mp hp with hp | hp
    · exact le_trans (he.old p hp) hle
    · rw [List.mem_singleton.mp hp]
      exact hq
  · intro i
    rw [underway_command hs]
    by_cases hi : i = S.index q.machineType
    · subst hi
      rw [slotCommands_self]
      exact hself _ _
    · rw [hF, slotCommands_append, slotCommands_other hi, List.append_nil, List.map_nil, List.append_nil]
      show Kept (circ.paddingMachine i) (circ.paddingInfo i) _ _ _
      rw [(hother i hi).1, (hother i hi).2]
      exact he.kept i

theorem Expecting.add_machine (he : Expecting S n) (ha : Agree S (addMachine S n m))
    (hs : n.sending = []) (hfree : n.client.paddingInfo (S.index m) = none)
    (hlt : n.client.paddingMachineCtr + 1 < 2 ^ 32) : Expecting S (addMachine S n m) := by
  rw [addMachine_eq hfree hlt] at ha ⊢
  refine he.command hs ha (Nat.le_succ _) (le_refl _) ?_ ?_
  · intro i hi
    simp only [Circ.install]
    exact ⟨Function.update_of_ne hi _ _, Function.update_of_ne hi _ _⟩
  · intro R qs
    simp only [Circ.install, Function.update_self]
    refine .inl ?_
    intro h
    rcases List.mem_append.mp h with h | h
    · exact he.fresh _ m h
    · simp at h

theorem Expecting.end_machine (he : Expecting S n)
    (ha : Agree S (endMachine n i m c)) (hs : n.sending = []) (hc : n.client.paddingInfo i = some c)
    (hm : n.client.paddingMachine i = some m) (hno : ∀ c', some ⟨.stop, m, c'⟩ ∉ n.underway S i) :
    Expecting S (endMachine n i m c) := by
  have hi : S.index m = i := he.agree.client.index i m hm
  refine he.command hs ha (le_refl _) (he.agree.clientCtr i c hc).2 ?_ ?_
  · intro j hj
    have hji : j ≠ i := by
      intro h
      exact hj (h.trans hi.symm)
    exact ⟨rfl, Function.update_of_ne hji _ _⟩
  · intro R qs
    show Kept (n.client.paddingMachine (S.index m)) (Function.update n.client.paddingInfo i none (S.index m)) R qs
      (n.underway S (S.index m) ++ [some ⟨.stop, m, c⟩])
    rw [hi, hm, Function.update_self]
    exact ⟨n.underway S i, c, rfl, hno⟩

/-- The relay sends a cell about slot `i` that clears nothing, from a machine running there. -/
theorem Expecting.insert (he : Expecting S n) {r : MachineNum × Nat} (hr : n.relay.running i = some r)
    {o : Option Negotiate} (hno : ¬ Clears (n.client.paddingMachine i) (n.client.paddingInfo i) o)
    (R' : Option (MachineNum × Nat)) :
    Kept (n.client.paddingMachine i) (n.client.paddingInfo i) R' (slotCommands S i n.inFlight)
      (slotNotes S i n.toClient ++ o :: (slotNotes S i (n.answering.map .negotiated) ++
        (slotCommands S i n.inFlight).map some)) := by
  have hkept := he.kept i
  rw [hr] at hkept
  apply hkept.insert hno
  intro hinfo h
  obtain ⟨-, hcmd⟩ := List.append_eq_nil_iff.mp h
  refine he.agree.commands_to_come hr ?_ (List.map_eq_nil_iff.mp hcmd)
  rw [(running_eq_none he.agree.client).mpr hinfo]
  simp

theorem slotNotes_self (cell : Cell) : slotNotes S (cell.slot S) [cell] = [cell.note] := by
  simp [slotNotes]

theorem slotNotes_other (h : i ≠ cell.slot S) : slotNotes S i [cell] = [] := by
  simp [slotNotes, Ne.symm h]

theorem Expecting.relay_pad (he : Expecting S n) (hi : (n.relay.paddingInfo i).isSome = true)
    (ha : Agree S { n with toClient := n.toClient ++ [.drop i] }) :
    Expecting S { n with toClient := n.toClient ++ [.drop i] } := by
  refine ⟨ha, he.old, ?_⟩
  intro j
  show Kept (n.client.paddingMachine j) (n.client.paddingInfo j) (n.relay.running j) (slotCommands S j n.inFlight)
    (slotNotes S j (n.toClient ++ [.drop i]) ++ _)
  rw [slotNotes_append]
  by_cases hji : j = i
  · subst hji
    rcases hr : n.relay.running j with _ | r
    · rw [(running_eq_none he.agree.relay).mp hr] at hi
      cases hi
    · have hself : slotNotes S j [.drop j] = [none] := slotNotes_self (.drop j)
      rw [hself, List.append_assoc, List.singleton_append]
      apply he.insert hr
      intro hcl
      obtain ⟨m, c, ho, -⟩ := hcl
      cases ho
  · have hother : slotNotes S j [.drop i] = [] := slotNotes_other hji
    rw [hother, List.append_nil]
    exact he.kept j

/-- The relay's machine ends by itself: the STOP response clears nothing, or it is the last the client will hear of
its machine. -/
theorem Expecting.relay_ends (he : Expecting S n)
    (hc : n.relay.paddingInfo i = some c) (hm : n.relay.paddingMachine i = some m)
    (hset : Settled S n (.relayEnd i)) : Expecting S (relayEndMachine n i m c) := by
  have hr : n.relay.running i = some (m, c) := running_eq_some.mpr ⟨hm, hc⟩
  have hi : S.index m = i := he.agree.relay.index i m hm
  refine ⟨he.agree.relay_ends hc hm, he.old, ?_⟩
  intro j
  have hnotes : slotNotes S j ((⟨.stop, .ok, m, c⟩ :: n.answering).map .negotiated) =
      slotNotes S j [.negotiated ⟨.stop, .ok, m, c⟩] ++ slotNotes S j (n.answering.map .negotiated) := by
    rw [← slotNotes_append]
    rfl
  show Kept (n.client.paddingMachine j) (n.client.paddingInfo j) ((relayEndMachine n i m c).relay.running j)
    (slotCommands S j n.inFlight) (slotNotes S j n.toClient ++
      (slotNotes S j ((⟨.stop, .ok, m, c⟩ :: n.answering).map .negotiated) ++ (slotCommands S j n.inFlight).map some))
  rw [hnotes]
  by_cases hji : j = i
  · subst hji
    have hself : slotNotes S j [.negotiated ⟨.stop, .ok, m, c⟩] = [some ⟨.stop, m, c⟩] := by
      simp [slotNotes, Cell.slot, Cell.note, hi]
    have hstopped : (relayEndMachine n j m c).relay.running j = none := by
      simp [relayEndMachine, Circ.running]
    rw [hself, List.append_assoc, List.singleton_append, hstopped]
    by_cases hcl : Clears (n.client.paddingMachine j) (n.client.paddingInfo j) (some ⟨.stop, m, c⟩)
    · obtain ⟨m', c', ho, hcm, hcc⟩ := hcl
      cases ho
      obtain ⟨hwait, hquiet⟩ := hset (m, c) hr
      have hcc : n.client.paddingInfo j = some c := hcc.resolve_left (hwait hcm)
      have hcmd := (he.agree.no_commands hr (running_eq_some.mpr ⟨hcm, hcc⟩)).1
      have hans : slotNotes S j (n.answering.map .negotiated) = [] := by
        simp only [slotNotes, List.map_eq_nil_iff, List.filter_eq_nil_iff, List.mem_map, decide_eq_true_eq]
        intro cell hcell
        obtain ⟨r, hrm, rfl⟩ := hcell
        exact hquiet hcc r hrm
      have hkept := he.kept j
      rw [Net.underway, hcm, hcc, hr, hcmd, hans] at hkept
      rw [hcm, hcc, hcmd, hans]
      rcases hkept with hnot | ⟨us', -, -, -, hR⟩
      · exact .inr ⟨slotNotes S j n.toClient, by simp, by simpa using hnot, rfl, rfl⟩
      · cases hR
    · exact he.insert hr hcl _
  · have hother : slotNotes S j [.negotiated ⟨.stop, .ok, m, c⟩] = [] := by
      apply slotNotes_other
      intro h
      exact hji (h.trans hi)
    have hrun : (relayEndMachine n i m c).relay.running j = n.relay.running j := by
      simp [relayEndMachine, Circ.running, hji]
    rw [hother, List.nil_append, hrun]
    exact he.kept j

section

variable (he : Expecting S n) (hc : n.toClient = cell :: rest)
include he hc

/-- A cell that reaches the client finds the record of its slot. -/
theorem Expecting.expected : (n.client.paddingMachine (cell.slot S)).isSome = true := by
  have hkept := he.kept (cell.slot S)
  rw [underway_clientReceive hc, slotNotes_self, List.singleton_append] at hkept
  exact hkept.isSome

/-- The client handles a cell that clears no record. -/
theorem Expecting.unclear (i : Slot)
    (hno : i = cell.slot S → ¬ Clears (n.client.paddingMachine i) (n.client.paddingInfo i) cell.note) :
    Kept (n.client.paddingMachine i) (n.client.paddingInfo i) (n.relay.running i) (slotCommands S i n.inFlight)
      (Net.underway S { n with toClient := rest } i) := by
  have hkept := he.kept i
  rw [underway_clientReceive hc] at hkept
  by_cases hi : i = cell.slot S
  · subst hi
    rw [slotNotes_self, List.singleton_append] at hkept
    exact hkept.tail (hno rfl)
  · rw [slotNotes_other hi, List.nil_append] at hkept
    exact hkept

/-- A STOP response that clears the record of slot `i` is the last thing under way about it. -/
theorem Expecting.cleared
    (hcl : Clears (n.client.paddingMachine (cell.slot S)) (n.client.paddingInfo (cell.slot S)) cell.note) :
    Net.underway S { n with toClient := rest } (cell.slot S) = [] ∧ n.relay.running (cell.slot S) = none := by
  have hkept := he.kept (cell.slot S)
  rw [underway_clientReceive hc, slotNotes_self, List.singleton_append] at hkept
  obtain ⟨hnil, hR⟩ := hkept.last hcl
  refine ⟨hnil, ?_⟩
  rcases hR with hinfo | hR
  · have hcmd : slotCommands S (cell.slot S) n.inFlight = [] := by
      obtain ⟨-, h⟩ := List.append_eq_nil_iff.mp hnil
      exact List.map_eq_nil_iff.mp (List.append_eq_nil_iff.mp h).2
    rcases hr : n.relay.running (cell.slot S) with _ | r
    · rfl
    · refine absurd hcmd (he.agree.commands_to_come hr ?_)
      rw [(running_eq_none he.agree.client).mpr hinfo]
      simp
  · exact hR

end

theorem Expecting.stop_response (he : Expecting S n) {r : Negotiated}
    (hc : n.toClient = .negotiated r :: rest) (hs : r.command = .stop) (h0 : r.machineCtr ≠ 0)
    (ha : Agree S { n with
      toClient := rest
      client := (freeCircMachineinfosWithMachineNum n.client r.machineType r.machineCtr).1 }) :
    Expecting S { n with
      toClient := rest
      client := (freeCircMachineinfosWithMachineNum n.client r.machineType r.machineCtr).1 } := by
  refine ⟨ha, he.old, ?_⟩
  intro i
  have hiff := @matchesStop_iff n.client r.machineType r.machineCtr h0 i
  have hnote : Cell.note (.negotiated r) = some ⟨.stop, r.machineType, r.machineCtr⟩ := by simp [Cell.note, hs]
  show Kept (if matchesStop n.client r.machineType r.machineCtr i then none else n.client.paddingMachine i)
    (if matchesStop n.client r.machineType r.machineCtr i then none else n.client.paddingInfo i) _ _ _
  by_cases hm : matchesStop n.client r.machineType r.machineCtr i = true
  · rw [if_pos hm, if_pos hm]
    obtain ⟨hmach, hinfo⟩ := hiff.mp hm
    have hi : S.index r.machineType = i := he.agree.client.index i _ hmach
    subst hi
    exact he.cleared hc ⟨_, _, hnote, hmach, hinfo⟩
  · rw [if_neg hm, if_neg hm]
    apply he.unclear hc i
    intro _ hcl
    obtain ⟨m, c, ho, hmach, hinfo⟩ := hcl
    rw [hnote] at ho
    cases ho
    exact hm (hiff.mpr ⟨hmach, hinfo⟩)

theorem expected_of_isSome {circ : Circ} (h : (circ.paddingMachine i).isSome = true) :
    circpadPaddingIsFromExpectedHop circ = true := by
  unfold circpadPaddingIsFromExpectedHop
  exact decide_eq_true ⟨i, h⟩

theorem Expecting.client_receive (he : Expecting S n)
    (hc : n.toClient = cell :: rest) (ha : Agree S (clientHandle { n with toClient := rest } cell)) :
    Expecting S (clientHandle { n with toClient := rest } cell) := by
  have hx := expected_of_isSome (he.expected hc)
  have hplain : clientHandle { n with toClient := rest } cell = { n with toClient := rest } →
      (∀ m c, cell.note ≠ some ⟨.stop, m, c⟩) → Expecting S (clientHandle { n with toClient := rest } cell) := by
    intro heq hnot
    rw [heq] at ha ⊢
    refine ⟨ha, he.old, ?_⟩
    intro i
    apply he.unclear hc i
    intro _ hcl
    obtain ⟨m, c, ho, -⟩ := hcl
    exact hnot m c ho
  rcases cell with r | i
  · obtain ⟨hok, h0, -⟩ := he.agree.answers r (by rw [hc]; exact .inl List.mem_cons_self)
    rcases hs : r.command with _ | _
    · have hstop := @clientHandle_stop { n with toClient := rest } r hs hx
      rw [hstop] at ha ⊢
      exact he.stop_response hc hs h0 ha
    · apply hplain (clientHandle_start hs hok)
      intro m c ho
      rw [Cell.note, hs] at ho
      cases ho
  · apply hplain rfl
    intro m c ho
    cases ho

theorem Expecting.relay_receive (he : Expecting S n) (hidle : n.answering = []) {q : Negotiate}
    {rest : List Negotiate} (hq : n.toRelay = q :: rest) (hlt : n.client.paddingMachineCtr < 2 ^ 32)
    (ha : Agree S { n with
      relay := (handlePaddingNegotiate S n.relay q).1
      toRelay := rest
      answering := [(handlePaddingNegotiate S n.relay q).2] }) :
    Expecting S { n with
      relay := (handlePaddingNegotiate S n.relay q).1
      toRelay := rest
      answering := [(handlePaddingNegotiate S n.relay q).2] } := by
  have hF := inFlight_cons hq
  refine ⟨ha, ?_, ?_⟩
  · intro p hp
    apply he.old p
    rw [hF]
    exact List.mem_append_right _ hp
  · intro i
    rw [underway_relayReceive hidle hq]
    by_cases hi : i = S.index q.machineType
    · subst hi
      have hcmd : slotCommands S (S.index q.machineType) n.inFlight ≠ [] := by
        rw [hF, slotCommands_append, slotCommands_self]
        simp
      apply (he.kept _).handled hcmd
      intro hnil
      obtain ⟨-, h⟩ := List.append_eq_nil_iff.mp hnil
      exact hcmd (List.map_eq_nil_iff.mp (List.append_eq_nil_iff.mp h).2)
    · have hkept := he.kept i
      rw [hF, slotCommands_append, slotCommands_other hi, List.nil_append] at hkept
      show Kept _ _ ((handlePaddingNegotiate S n.relay q).1.running i) _ _
      rw [he.agree.relay_other hq hlt hi]
      exact hkept

theorem Expecting.step (he : Expecting S n) {e : Event} {n' : Net} (hset : Settled S n e)
    (hlt : n.client.paddingMachineCtr + starts [e] < 2 ^ 32) (h : step S n e = some n') : Expecting S n' := by
  have ha := he.agree.step hset.quiet hlt h
  cases e with
  | start m =>
    obtain ⟨hm, -, hfree, rfl⟩ := step_start.mp h
    exact he.add_machine ha hset hfree hlt
  | stop i =>
    obtain ⟨m, c, hc, hm, rfl⟩ := step_stop.mp h
    apply he.end_machine ha hset.1 hc hm
    intro c' hmem
    exact hset.2 m hm _ hmem rfl
  | package =>
    obtain ⟨q, rest, hs, rfl⟩ := step_package.mp h
    have hF : Net.inFlight { n with sending := rest, toRelay := n.toRelay ++ [q] } = n.inFlight := by
      simp [Net.inFlight, hs]
    refine ⟨ha, hF ▸ he.old, ?_⟩
    intro i
    rw [underway_package hs, hF]
    exact he.kept i
  | clientReceive =>
    obtain ⟨cell, rest, -, hc, rfl⟩ := step_clientReceive.mp h
    exact he.client_receive hc ha
  | relayReceive =>
    obtain ⟨q, rest, hidle, hq, rfl⟩ := step_relayReceive.mp h
    exact he.relay_receive hidle hq (by omega) ha
  | relayEnd i =>
    obtain ⟨m, c, hc, hm, rfl⟩ := step_relayEnd.mp h
    exact he.relay_ends hc hm hset
  | relayPad i =>
    obtain ⟨hi, rfl⟩ := step_relayPad.mp h
    exact he.relay_pad hi ha
  | relayPackage =>
    obtain ⟨r, rest, hr, rfl⟩ := step_relayPackage.mp h
    refine ⟨ha, he.old, ?_⟩
    intro i
    rw [underway_relayPackage hr]
    exact he.kept i

theorem expecting_run {es : List Event} (hfew : starts es < 2 ^ 32)
    (hset : AllSteps (step S) (Settled S) Net.init es) (h : run (step S) Net.init es = some n) : Expecting S n := by
  refine run_inv_steps (C := fun n e => Settled S n e ∧ n.client.paddingMachineCtr + starts [e] < 2 ^ 32)
    ?_ (expecting_init S) ?_ h
  · intro n e n' he hc hstep
    exact he.step hc.1 hc.2 hstep
  · intro pre e n' hp hrun
    exact ⟨hset pre e n' hp hrun, room_of_starts hfew pre e n' hp hrun⟩

end Expecting

/-- What is to hold when a PADDING_NEGOTIATED or a padding cell of the relay reaches the
    client: it comes from an expected hop, for its own slot's machine is still set. -/
def ExpectedCell (n : Net) : Event → Prop
  | .clientReceive => ∀ cell rest, n.sending = [] → n.toClient = cell :: rest →
      circpadPaddingIsFromExpectedHop n.client = true ∧ (n.client.paddingMachine (cell.slot S)).isSome = true
  | _ => True

/-- In every run whose steps are `Settled`, every cell of the relay is expected when it
    reaches the client. -/
theorem padding_expected {S : Setting} {es : List Event} (hfew : starts es < 2 ^ 32)
    (hset : AllSteps (step S) (Settled S) Net.init es) : AllSteps (step S) (ExpectedCell S) Net.init es := by
  intro pre e n hp hrun
  have hpre : pre <+: es := (List.prefix_append pre [e]).trans hp
  have he : Expecting S n := by
    apply expecting_run (lt_of_le_of_lt hpre.sublist.countP_le hfew) _ hrun
    intro pre' e' n' hp'
    exact hset pre' e' n' (hp'.trans hpre)
  cases e with
  | clientReceive =>
    intro cell rest _ hc
    have hsome := he.expected hc
    exact ⟨expected_of_isSome hsome, hsome⟩
  | start | stop | package | relayReceive | relayEnd | relayPad | relayPackage => trivial

instance (S : Setting) (n : Net) (e : Event) : Decidable (Settled S n e) :=
  match e with
  | .start _ => inferInstanceAs (Decidable (n.sending = []))
  | .stop i => inferInstanceAs (Decidable (n.sending = [] ∧
      ∀ m ∈ n.client.paddingMachine i, ∀ o ∈ n.underway S i, stopNum o ≠ some m))
  | .relayEnd i => inferInstanceAs (Decidable (∀ r ∈ n.relay.running i,
      (n.client.paddingMachine i = some r.1 → n.client.paddingInfo i ≠ none) ∧
      (n.client.paddingInfo i = some r.2 → ∀ answer ∈ n.answering, S.index answer.machineType ≠ i)))
  | .package | .clientReceive | .relayReceive | .relayPad _ | .relayPackage => .isTrue trivial

/-- The client ends its machine and starts it again before the STOP has arrived, and the
    relay's second machine pads and ends by itself. -/
def restart : List Event :=
  [.start 1, .package, .relayReceive, .relayPad firstSlot, .relayPackage, .stop firstSlot, .package, .start 1, .package,
    .clientReceive, .clientReceive, .relayReceive, .relayPackage, .clientReceive, .relayReceive, .relayPackage,
    .relayPad firstSlot, .relayEnd firstSlot, .relayPackage, .clientReceive, .clientReceive, .clientReceive]

theorem a_restart_is_expected :
    (run (step oneMachine) Net.init restart).isSome ∧
      AllSteps (step oneMachine) (ExpectedCell oneMachine) Net.init restart :=
  ⟨by decide +kernel, padding_expected (by decide) (allSteps_of_check (by decide +kernel))⟩

/-- The machine runs at both ends, and both end it before either has heard of the other. -/
def bothEnd : List Event :=
  [.start 1, .package, .relayReceive, .relayPackage, .clientReceive, .relayEnd firstSlot, .relayPackage,
    .stop firstSlot, .package, .clientReceive, .relayReceive, .relayPackage]

/-- The client and the relay end the same machine: the response to the client's STOP is taken for one of a wrong hop. -/
theorem both_ends_end_the_machine :
    starts (bothEnd ++ [.clientReceive]) < 2 ^ 32 ∧
      ¬ AllSteps (step oneMachine) (ExpectedCell oneMachine) Net.init (bothEnd ++ [.clientReceive]) := by
  refine ⟨by decide, ?_⟩
  intro h
  have hlast := h bothEnd .clientReceive _ (List.prefix_refl _) rfl (.negotiated ⟨.stop, .ok, 1, 1⟩) [] rfl rfl
  exact absurd hlast.1 (by decide +kernel)

end Badnet.Circpad
