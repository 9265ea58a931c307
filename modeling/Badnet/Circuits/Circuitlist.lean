/-
  Badnet.Circuits.Circuitlist — the map from channel and circuit ID to circuit (`chan_circid_map` of
  `core/or/circuitlist.c`).

  A circuit has a pair of channel and ID on each side; the map has an entry for each pair in use, and an entry without a
  circuit for each pair whose DESTROY is queued. An entry is an object with an address, so that the pointer
  `_last_circid_chan_ent` can outlive it: reading a freed entry is `none`, as a failed assertion is. The calls into the
  mux are left out: they do not touch the map. `view` is what the map says of a pair.
-/

import Mathlib.Data.List.Nodup
import Mathlib.Logic.Function.Basic
import Badnet.Circuits.Circuitmux

namespace Badnet.Circuits.Circuitlist

open Lib

/-! ## Circuits, channels and entries -/

/-- What an `or_circuit_t` has beyond a `circuit_t`. -/
structure OrCircuit where
  pChan : Option UInt64
  pCircId : UInt32
  deriving DecidableEq, Repr

structure Circuit where
  nChan : Option UInt64
  nCircId : UInt32
  nDeletePending : Bool
  pDeletePending : Bool
  /-- for `OR_CIRCUIT_MAGIC` -/
  orCircuit : Option OrCircuit
  deriving DecidableEq, Repr

structure Channel where
  numNCircuits : UInt32
  numPCircuits : UInt32
  timestampLastHadCircuits : Int
  deriving DecidableEq, Repr

/-- `chan_circid_circuit_map_t`; the circuit of a placeholder is `none`. -/
structure MapEntry where
  addr : Nat
  key : ChanCirc
  circuit : Option Nat
  madePlaceholderAt : Int
  deriving DecidableEq, Repr

structure St where
  circuits : List Circuit
  channels : UInt64 → Channel
  chanCircidMap : List MapEntry
  /-- entries that left the map and were not freed -/
  leaked : List MapEntry
  lastCircidChanEnt : Option Nat
  approxTime : Int

def init : St where
  circuits := []
  channels _ := ⟨0, 0, 0⟩
  chanCircidMap := []
  leaked := []
  lastCircidChanEnt := none
  approxTime := 0

namespace Circuit

/-- `init_circuit_base` -/
def fresh (isOrigin : Bool) : Circuit := ⟨none, 0, false, false, if isOrigin then none else some ⟨none, 0⟩⟩

variable (circ : Circuit)

/-- The channel and ID of a side; `none` is a failed `TO_OR_CIRCUIT`. -/
def side : CellDirection → Option (Option UInt64 × UInt32)
  | .OUT => some (circ.nChan, circ.nCircId)
  | .IN => circ.orCircuit.map fun c => (c.pChan, c.pCircId)

variable (direction : CellDirection)

def setSide (chan : Option UInt64) (id : UInt32) : Circuit :=
  match direction with
  | .OUT => { circ with nChan := chan, nCircId := id }
  | .IN => { circ with orCircuit := circ.orCircuit.map fun _ => ⟨chan, id⟩ }

def deletePending : CellDirection → Bool
  | .OUT => circ.nDeletePending
  | .IN => circ.pDeletePending

def setDeletePending (b : Bool) : Circuit :=
  match direction with
  | .OUT => { circ with nDeletePending := b }
  | .IN => { circ with pDeletePending := b }

/-- The pair of a side that has a channel. -/
def pair : Option ChanCirc :=
  (circ.side direction).bind fun (chan, id) => chan.map (⟨·, id⟩)

end Circuit

def Channel.numCircuits (c : Channel) : CellDirection → UInt32
  | .OUT => c.numNCircuits
  | .IN => c.numPCircuits

def Channel.setNumCircuits (c : Channel) (direction : CellDirection) (n : UInt32) : Channel :=
  match direction with
  | .OUT => { c with numNCircuits := n }
  | .IN => { c with numPCircuits := n }

/-! ## The map -/

/-- `HT_FIND` -/
def htFind (map : List MapEntry) (key : ChanCirc) : Option MapEntry := map.find? fun e => e.key = key

/-- What `HT_REMOVE` leaves. -/
def htRemove (map : List MapEntry) (key : ChanCirc) : List MapEntry := map.eraseP fun e => e.key = key

/-- The entry at an address changes. -/
def modifyAt (map : List MapEntry) (addr : Nat) (f : MapEntry → MapEntry) : List MapEntry :=
  map.map fun e => if e.addr = addr then f e else e

variable (s : St)

/-- Reading through a pointer. -/
def deref (addr : Nat) : Option MapEntry := (s.chanCircidMap ++ s.leaked).find? fun e => e.addr = addr

def setCircuit (i : Nat) (circ : Circuit) : St := { s with circuits := s.circuits.set i circ }

def setChannel (chan : UInt64) (c : Channel) : St := { s with channels := Function.update s.channels chan c }

/-- `num_n_circuits` or `num_p_circuits` of a channel changes. -/
def addToNum (direction : CellDirection) (chan : UInt64) (n : UInt32) : St :=
  let c := s.channels chan
  setChannel s chan (c.setNumCircuits direction (c.numCircuits direction + n))

section
-- the address of a new object, given those in use
variable (malloc : List Nat → Nat) (s : St)

def htInsert (key : ChanCirc) (circuit : Option Nat) (madePlaceholderAt : Int) : St :=
  { s with chanCircidMap :=
      ⟨malloc ((s.chanCircidMap ++ s.leaked).map (·.addr)), key, circuit, madePlaceholderAt⟩ :: s.chanCircidMap }

/-! ## Lookups -/

/-- The entry found, through the cache if it is the one searched. -/
def circuitGetByCircidChannelImpl (key : ChanCirc) : Option (St × Option MapEntry) :=
  let search := (({ s with lastCircidChanEnt := (htFind s.chanCircidMap key).map (·.addr) } : St),
    htFind s.chanCircidMap key)
  match s.lastCircidChanEnt with
  | none => some search
  | some addr => (deref s addr).map fun e => if e.key = key then (s, some e) else search

def circuitGetByCircidChannelEvenIfMarked (key : ChanCirc) : Option (St × Option Nat) :=
  (circuitGetByCircidChannelImpl s key).map fun (s, found) => (s, found.bind (·.circuit))

def circuitIdInUseOnChannel (key : ChanCirc) : Option (St × Nat) :=
  (circuitGetByCircidChannelImpl s key).map fun (s, found) =>
    (s, match found with
      | none => 0
      | some e => if e.circuit.isSome then 1 else 2)

/-! ## Sides -/

/-- The cache is dropped if its entry is for one of two pairs. -/
def forgetCached (old new : Option ChanCirc) : Option St :=
  match s.lastCircidChanEnt with
  | none => some s
  | some addr => (deref s addr).map fun e =>
    if old = some e.key ∨ new = some e.key then { s with lastCircidChanEnt := none } else s

variable (direction : CellDirection)

/-- The entry of the old pair is freed, if there is one. -/
def dropOldEntry : Option ChanCirc → St
  | none => s
  | some key =>
    match htFind s.chanCircidMap key with
    | none => s
    | some _ => addToNum { s with chanCircidMap := htRemove s.chanCircidMap key } direction key.chanId (-1)

variable (circ : Nat)

/-- The entry of the new pair is taken over or made. -/
def addNewEntry : Option ChanCirc → St
  | none => s
  | some key =>
    match htFind s.chanCircidMap key with
    | some found =>
      let map := modifyAt s.chanCircidMap found.addr fun e => { e with circuit := some circ, madePlaceholderAt := 0 }
      addToNum { s with chanCircidMap := map } direction key.chanId 1
    | none => addToNum (htInsert malloc s key (some circ) 0) direction key.chanId 1

def circuitSetCircidChanHelper (direction : CellDirection) (id : UInt32) (chan : Option UInt64) : Option St :=
  s.circuits[circ]?.bind fun c =>
    (c.side direction).bind fun (oldChan, oldId) =>
      if id = oldId ∧ chan = oldChan then some s
      else
        (forgetCached s (oldChan.map (⟨·, oldId⟩)) (chan.map (⟨·, id⟩))).map fun s =>
          let dropped := dropOldEntry s direction (oldChan.map (⟨·, oldId⟩))
          addNewEntry malloc (setCircuit dropped circ (c.setSide direction chan id)) direction circ (chan.map (⟨·, id⟩))

/-! ## Reservations -/

def channelMarkCircidUnusable (key : ChanCirc) : St :=
  match htFind s.chanCircidMap key with
  | some ent =>
    if ent.circuit.isSome then s
    else if ent.madePlaceholderAt = 0 then
      { s with chanCircidMap := modifyAt s.chanCircidMap ent.addr fun e => { e with madePlaceholderAt := s.approxTime } }
    else s
  | none => htInsert malloc s key none s.approxTime

def channelMarkCircidUsable (key : ChanCirc) : St :=
  match htFind s.chanCircidMap key with
  | some ent =>
    let s := { s with chanCircidMap := htRemove s.chanCircidMap key }
    if ent.circuit.isSome then { s with leaked := ent :: s.leaked }
    else if s.lastCircidChanEnt = some ent.addr then { s with lastCircidChanEnt := none } else s
  | none => s

/-- The flag of the side that has the pair. -/
def setPendingFlag (key : ChanCirc) (b : Bool) : Option St :=
  s.circuits[circ]?.bind fun c =>
    if c.pair .OUT = some key then some (setCircuit s circ (c.setDeletePending .OUT b))
    else
      -- `TO_OR_CIRCUIT`
      c.orCircuit.map fun _ => if c.pair .IN = some key then setCircuit s circ (c.setDeletePending .IN b) else s

def channelNoteDestroyPending (key : ChanCirc) : Option St :=
  (circuitGetByCircidChannelEvenIfMarked s key).bind fun (s, circ) =>
    match circ with
    | some circ => setPendingFlag s circ key true
    | none => some (channelMarkCircidUnusable malloc s key)

def channelNoteDestroyNotPending (key : ChanCirc) : Option St :=
  (circuitGetByCircidChannelEvenIfMarked s key).bind fun (s, circ) =>
    match circ with
    | some circ => setPendingFlag s circ key false
    | none => some (channelMarkCircidUsable s key)

def noteHadCircuits (chan : Option UInt64) : St :=
  match chan with
  | none => s
  | some chan => setChannel s chan { s.channels chan with timestampLastHadCircuits := s.approxTime }

/-- The old pair stays reserved if its DESTROY is queued. -/
def keepReserved (direction : CellDirection) (old : Option ChanCirc) : Option St :=
  s.circuits[circ]?.map fun c =>
    match old with
    | some key =>
      if c.deletePending direction then
        setCircuit (channelMarkCircidUnusable malloc s key) circ (c.setDeletePending direction false)
      else s
    | none => s

def circuitSetCircidChan (s : St) (circ : Nat) (id : UInt32) (chan : Option UInt64) : Option St :=
  s.circuits[circ]?.bind fun c =>
    (circuitSetCircidChanHelper malloc s circ direction id chan).bind fun s =>
      keepReserved malloc (noteHadCircuits s chan) circ direction (c.pair direction)

def circuitSetPCircidChan : St → Nat → UInt32 → Option UInt64 → Option St := circuitSetCircidChan malloc .IN

def circuitSetNCircidChan : St → Nat → UInt32 → Option UInt64 → Option St := circuitSetCircidChan malloc .OUT

/-! ## Runs -/

inductive Op where
  | newCircuit (isOrigin : Bool)
  | setN (circ : Nat) (id : UInt32) (chan : Option UInt64)
  | setP (circ : Nat) (id : UInt32) (chan : Option UInt64)
  | noteDestroyPending (key : ChanCirc)
  | noteDestroyNotPending (key : ChanCirc)
  | get (key : ChanCirc)
  | inUse (key : ChanCirc)
  | setTime (t : Int)
  deriving DecidableEq, Repr

def step : Op → Option St
  | .newCircuit isOrigin => some { s with circuits := s.circuits ++ [.fresh isOrigin] }
  | .setN circ id chan => circuitSetNCircidChan malloc s circ id chan
  | .setP circ id chan => circuitSetPCircidChan malloc s circ id chan
  | .noteDestroyPending key => channelNoteDestroyPending malloc s key
  | .noteDestroyNotPending key => channelNoteDestroyNotPending s key
  | .get key => (circuitGetByCircidChannelEvenIfMarked s key).map (·.1)
  | .inUse key => (circuitIdInUseOnChannel s key).map (·.1)
  | .setTime t => some { s with approxTime := t }

end

/-! ## What a run may do -/

/-- The circuit has the pair on one of its sides. -/
def Circuit.Has (c : Circuit) (key : ChanCirc) : Prop := c.pair .OUT = some key ∨ c.pair .IN = some key

instance (c : Circuit) (key : ChanCirc) : Decidable (c.Has key) := inferInstanceAs (Decidable (_ ∨ _))

variable {key : ChanCirc} {map : List MapEntry}

theorem Circuit.has_iff {c : Circuit} : c.Has key ↔ ∃ d, c.pair d = some key := by
  refine ⟨fun h => h.elim (⟨.OUT, ·⟩) (⟨.IN, ·⟩), fun h => ?_⟩
  obtain ⟨d, hd⟩ := h
  cases d with
  | OUT => exact .inl hd
  | IN => exact .inr hd

def Holds (i : Nat) (key : ChanCirc) : Prop := ∃ c ∈ s.circuits[i]?, c.Has key

/-- There is a placeholder for the pair. -/
def Reserved (key : ChanCirc) : Prop := ∃ e ∈ s.chanCircidMap, e.key = key ∧ e.circuit = none

instance (s : St) (i : Nat) (key : ChanCirc) : Decidable (Holds s i key) :=
  inferInstanceAs (Decidable (∃ c ∈ s.circuits[i]?, c.Has key))

instance (s : St) (key : ChanCirc) : Decidable (Reserved s key) :=
  inferInstanceAs (Decidable (∃ e ∈ s.chanCircidMap, e.key = key ∧ e.circuit = none))

/-- A side gets a new pair, which is not reserved and which no circuit of a kind has. -/
def SetAllowed (kind : Nat → Prop) (s : St) (direction : CellDirection) (circ : Nat) (id : UInt32) (chan : Option UInt64) :
    Prop :=
  (chan.isSome ↔ id ≠ 0) ∧ (∃ c ∈ s.circuits[circ]?, ∃ old ∈ c.side direction, old ≠ (chan, id)) ∧
    ∀ key ∈ chan.map (⟨·, id⟩ : UInt64 → ChanCirc),
      ¬ Reserved s key ∧ ∀ i, i < s.circuits.length → kind i → ¬ Holds s i key

instance (kind : Nat → Prop) [DecidablePred kind] (s : St) (direction : CellDirection) (circ : Nat) (id : UInt32)
    (chan : Option UInt64) : Decidable (SetAllowed kind s direction circ id chan) := inferInstanceAs (Decidable (_ ∧ _ ∧ _))

/-- `kind circ i`: the pair that `circ` gets may not be one of `i`. -/
def Allowed (kind : Nat → Nat → Prop) (s : St) : Op → Prop
  | .setN circ id chan => SetAllowed (kind circ) s .OUT circ id chan
  | .setP circ id chan => SetAllowed (kind circ) s .IN circ id chan
  | _ => True

/-! ## Sides of a circuit -/

namespace Circuit

variable {c : Circuit} {d d' : CellDirection} {chan : Option UInt64} {id : UInt32} {b : Bool}

theorem pair_setSide {old : Option UInt64 × UInt32} (h : c.side d = some old) :
    (c.setSide d chan id).pair d = chan.map (⟨·, id⟩) := by
  cases d with
  | OUT => rfl
  | IN =>
    obtain ⟨o, ho, -⟩ := Option.map_eq_some_iff.mp h
    simp [pair, side, setSide, ho]

theorem pair_setSide_of_ne (h : d' ≠ d) : (c.setSide d chan id).pair d' = c.pair d' := by
  cases d <;> cases d' <;> first | rfl | exact absurd rfl h

@[simp] theorem deletePending_setSide : (c.setSide d chan id).deletePending d' = c.deletePending d' := by
  cases d <;> cases d' <;> rfl

@[simp] theorem pair_setDeletePending : (c.setDeletePending d b).pair d' = c.pair d' := by
  cases d <;> cases d' <;> rfl

@[simp] theorem deletePending_setDeletePending_self : (c.setDeletePending d b).deletePending d = b := by
  cases d <;> rfl

theorem deletePending_setDeletePending_of_ne (h : d' ≠ d) :
    (c.setDeletePending d b).deletePending d' = c.deletePending d' := by
  cases d <;> cases d' <;> first | rfl | exact absurd rfl h

end Circuit

/-! ## The map by its keys -/

def Distinct (map : List MapEntry) : Prop := (map.map (·.key)).Nodup

/-- What the map says of a pair. -/
def view (map : List MapEntry) (key : ChanCirc) : Option (Option Nat) := (htFind map key).map (·.circuit)

theorem Distinct.inj (h : Distinct map) :
    ∀ a ∈ map, ∀ b ∈ map, a.key = b.key → a = b := fun _ ha _ hb => List.inj_on_of_nodup_map h ha hb

theorem htFind_eq_some (h : Distinct map) {e : MapEntry} :
    htFind map key = some e ↔ e ∈ map ∧ e.key = key := find?_key_iff h.inj

theorem Distinct.htRemove (h : Distinct map) (key : ChanCirc) : Distinct (htRemove map key) :=
  h.sublist (List.eraseP_sublist.map _)

theorem mem_htRemove (h : Distinct map) {e : MapEntry} : e ∈ htRemove map key ↔ e ∈ map ∧ e.key ≠ key := by
  induction map with
  | nil => simp [htRemove]
  | cons a map ih =>
    obtain ⟨hnot, hmap⟩ := List.nodup_cons.mp h
    by_cases ha : a.key = key
    · have hrest : e ∈ map → e.key ≠ key := fun he hk => hnot (List.mem_map.mpr ⟨e, he, hk.trans ha.symm⟩)
      rw [htRemove, List.eraseP_cons_of_pos (by simpa using ha), List.mem_cons]
      exact ⟨fun he => ⟨.inr he, hrest he⟩, fun ⟨he, hk⟩ => he.resolve_left fun hea => hk (hea ▸ ha)⟩
    · have ih : e ∈ map.eraseP (fun e => e.key = key) ↔ e ∈ map ∧ e.key ≠ key := ih hmap
      rw [htRemove, List.eraseP_cons_of_neg (by simpa using ha), List.mem_cons, List.mem_cons, ih, or_and_right]
      exact or_congr_left ⟨fun he => ⟨he, he ▸ ha⟩, And.left⟩

theorem view_htRemove (h : Distinct map) (key k : ChanCirc) :
    view (htRemove map key) k = if k = key then none else view map k := by
  have hfind : htFind (htRemove map key) k = if k = key then none else htFind map k := by
    refine Option.ext fun e => ?_
    rw [htFind_eq_some (h.htRemove key), mem_htRemove h]
    by_cases hk : k = key
    · simp only [if_pos hk, reduceCtorEq, iff_false]
      exact fun ⟨⟨_, hne⟩, he⟩ => hne (he.trans hk)
    · rw [if_neg hk, htFind_eq_some h]
      exact ⟨fun ⟨⟨hm, _⟩, he⟩ => ⟨hm, he⟩, fun ⟨hm, he⟩ => ⟨⟨hm, fun hkey => hk (he.symm.trans hkey)⟩, he⟩⟩
  unfold view
  rw [hfind]
  split <;> rfl

theorem view_cons (e : MapEntry) (map : List MapEntry) (k : ChanCirc) :
    view (e :: map) k = if e.key = k then some e.circuit else view map k := by
  unfold view htFind
  rw [List.find?_cons]
  split
  next h => rw [if_pos (of_decide_eq_true h)]; rfl
  next h => rw [if_neg (of_decide_eq_false h)]

theorem view_modifyAt (map : List MapEntry) (addr : Nat) (t : Int) (k : ChanCirc) :
    view (modifyAt map addr fun e => { e with madePlaceholderAt := t }) k = view map k := by
  induction map with
  | nil => rfl
  | cons e map ih =>
    have hcons : modifyAt (e :: map) addr (fun e => { e with madePlaceholderAt := t }) =
      (if e.addr = addr then { e with madePlaceholderAt := t } else e) ::
        modifyAt map addr fun e => { e with madePlaceholderAt := t } := rfl
    rw [hcons, view_cons, view_cons, ih]
    split <;> rfl

theorem view_eq_none : view map key = none ↔ ∀ e ∈ map, e.key ≠ key := by
  simp [view, htFind]

end Badnet.Circuits.Circuitlist
