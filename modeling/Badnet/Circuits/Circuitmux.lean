/-
  Badnet.Circuits.Circuitmux — the circuit multiplexer of a channel (`core/or/circuitmux.c`).

  A mux keeps an entry for each attached circuit, under the pair of the side it is attached by. Beside it stand three
  counters of 32 bits, and a policy that is told when a circuit gets its first cell and when it loses its last one (as
  `circuitmux_ewma.c` is). `none` is an assertion that fails.

  Over every run in which a circuit is attached in one direction at a time, the counters are what they count, up to
  2^32, and the notes on each pair alternate (`mux_counts_and_notes`).
-/

import Mathlib.Algebra.Ring.Nat
import Mathlib.Data.UInt
import Mathlib.Data.List.Chain
import Mathlib.Logic.Function.Basic
import Badnet.Lib.Intrusive
import Badnet.Lib.Run

namespace Badnet.Circuits

open Lib

/-! ## Circuits and entries -/

inductive CellDirection where
  | IN
  | OUT
  deriving DecidableEq, Repr

/-- The global identifier of a channel and an ID on it. -/
structure ChanCirc where
  chanId : UInt64
  circId : UInt32
  deriving DecidableEq, Repr

/-- What an `or_circuit_t` has beyond a `circuit_t`. -/
structure OrSide where
  pChan : Option UInt64
  pCircId : UInt32
  pChanCells : UInt32
  deriving DecidableEq, Repr

structure CircuitT where
  nChan : Option UInt64
  nCircId : UInt32
  nChanCells : UInt32
  /-- for `OR_CIRCUIT_MAGIC` -/
  orSide : Option OrSide
  deriving DecidableEq, Repr

namespace CircuitT

/-- The channel and the ID of a side, if it has a channel. -/
def pair (circ : CircuitT) : CellDirection → Option ChanCirc
  | .OUT => circ.nChan.map (⟨·, circ.nCircId⟩)
  | .IN => circ.orSide.bind fun c => c.pChan.map (⟨·, c.pCircId⟩)

def cells (circ : CircuitT) : CellDirection → UInt32
  | .OUT => circ.nChanCells
  | .IN => (circ.orSide.map (·.pChanCells)).getD 0

end CircuitT

structure CircuitMuxinfo where
  cellCount : UInt32
  direction : CellDirection
  deriving DecidableEq, Repr

structure CircuitmuxT where
  /-- the pairs that have an entry, and the entries -/
  map : List ChanCirc
  muxinfo : ChanCirc → CircuitMuxinfo
  nCircuits : UInt32
  nActiveCircuits : UInt32
  nCells : UInt32
  /-- the notes to the policy: a pair, and whether it became active -/
  notes : List (ChanCirc × Bool)

/-- `circuitmux_alloc` -/
def circuitmuxAlloc : CircuitmuxT where
  map := []
  muxinfo _ := ⟨0, .OUT⟩
  nCircuits := 0
  nActiveCircuits := 0
  nCells := 0
  notes := []

/-! ## Entries -/

section

variable (s : CircuitmuxT)

/-- `HT_FIND` -/
def htFind (key : Option ChanCirc) : Option ChanCirc := key.filter (· ∈ s.map)

section

variable (circ : CircuitT)

/-- The pair of the circuit's entry; the outer `none` is an entry found from the wrong side. -/
def circuitmuxFindMapEntry : Option (Option ChanCirc) :=
  match htFind s (circ.pair .OUT) with
  | some key => if (s.muxinfo key).direction = .OUT then some (some key) else none
  | none =>
    match htFind s (circ.pair .IN) with
    | some key => if (s.muxinfo key).direction = .IN then some (some key) else none
    | none => some none

def note (active : Bool) : Option CircuitmuxT :=
  match circuitmuxFindMapEntry s circ with
  | some (some key) => some { s with notes := s.notes ++ [(key, active)] }
  | _ => none

def circuitmuxMakeCircuitActive : Option CircuitmuxT := note s circ true

def circuitmuxMakeCircuitInactive : Option CircuitmuxT := note s circ false

def setCellCount (key : ChanCirc) (n : UInt32) : CircuitmuxT :=
  { s with muxinfo := Function.update s.muxinfo key { s.muxinfo key with cellCount := n } }

/-- The active circuits and the policy follow a count that goes to zero or comes from it. -/
def noteChange (old new : UInt32) : Option CircuitmuxT :=
  if old > 0 ∧ new = 0 then
    circuitmuxMakeCircuitInactive { s with nActiveCircuits := s.nActiveCircuits - 1 } circ
  else if old = 0 ∧ new > 0 then
    circuitmuxMakeCircuitActive { s with nActiveCircuits := s.nActiveCircuits + 1 } circ
  else some s

/-! ## Operations -/

/-- The branch for a circuit that was already attached. -/
def attachAgain (direction : CellDirection) (key : ChanCirc) (cellCount : UInt32) : Option CircuitmuxT :=
  if (s.muxinfo key).direction ≠ direction then none
  else
    (noteChange s circ (s.muxinfo key).cellCount cellCount).map fun t =>
      setCellCount { t with nCells := t.nCells - (t.muxinfo key).cellCount + cellCount } key cellCount

def attachNew (direction : CellDirection) (key : ChanCirc) (cellCount : UInt32) : Option CircuitmuxT :=
  let s := { s with
    map := key :: s.map
    muxinfo := Function.update s.muxinfo key ⟨cellCount, direction⟩
    nCircuits := s.nCircuits + 1 }
  (noteChange s circ 0 cellCount).map fun t => { t with nCells := t.nCells + cellCount }

def circuitmuxAttachCircuit (direction : CellDirection) : Option CircuitmuxT :=
  match circ.pair direction with
  | none => none
  | some key =>
    if key.circId = 0 then none
    else if key ∈ s.map then attachAgain s circ direction key (circ.cells direction)
    else attachNew s circ direction key (circ.cells direction)

def detachFound (lastSearchedDirection : CellDirection) (key : ChanCirc) : Option CircuitmuxT :=
  (noteChange { s with nCircuits := s.nCircuits - 1 } circ (s.muxinfo key).cellCount 0).bind fun t =>
    if (t.muxinfo key).direction ≠ lastSearchedDirection then none
    else some { t with nCells := t.nCells - (t.muxinfo key).cellCount, map := t.map.erase key }

def circuitmuxDetachCircuit : Option CircuitmuxT :=
  match htFind s (circ.pair .OUT), htFind s (circ.pair .IN) with
  | some key, _ => detachFound s circ .OUT key
  | none, some key => detachFound s circ .IN key
  -- a circuit without a channel on either side has not been searched for
  | none, none => if circ.pair .OUT = none ∧ circ.pair .IN = none then none else some s

def circuitmuxSetNumCells (nCells : UInt32) : Option CircuitmuxT :=
  match circuitmuxFindMapEntry s circ with
  | some (some key) =>
    let old := (s.muxinfo key).cellCount
    noteChange (setCellCount { s with nCells := s.nCells - old + nCells } key nCells) circ old nCells
  | _ => none

def circuitmuxNotifyXmitCells (nCells : UInt32) : Option CircuitmuxT :=
  if nCells = 0 then some s
  else match circuitmuxFindMapEntry s circ with
    | some (some key) =>
      let old := (s.muxinfo key).cellCount
      if ¬ nCells ≤ old then none
      else noteChange (setCellCount { s with nCells := s.nCells - nCells } key (old - nCells)) circ old (old - nCells)
    | _ => none

end

/-- One entry of the walk of `circuitmux_detach_all_circuits`; `find` looks up the channel and then the circuit.
Without one the data of the policy stays, which is asserted not to be. -/
def detachEntry (find : ChanCirc → Option CircuitT) (s : CircuitmuxT) (key : ChanCirc) : Option CircuitmuxT :=
  match find key with
  | none => none
  | some circ =>
    let noted :=
      if (s.muxinfo key).cellCount > 0 ∧ ((s.muxinfo key).direction = .OUT ∨ circ.orSide.isSome) then
        circuitmuxMakeCircuitInactive s circ
      else some s
    noted.map fun t => { t with map := t.map.erase key }

/-- An order in which a walk goes through the map. -/
abbrev MapOrder := { order : List ChanCirc → List ChanCirc // ∀ l, (order l).Perm l }

def circuitmuxDetachAllCircuits (order : MapOrder) (find : ChanCirc → Option CircuitT) (s : CircuitmuxT) :
    Option CircuitmuxT :=
  ((order.1 s.map).foldlM (detachEntry find) s).map fun t => { t with nCircuits := 0, nActiveCircuits := 0, nCells := 0 }

/-- What `circuitmux_get_first_active_circuit` decides on. -/
inductive Pick where
  | destroyQueue
  | activeCircuit
  | nothing
  deriving DecidableEq, Repr

/-- `destroys` is the length of the queue of DESTROY cells. -/
def circuitmuxGetFirstActiveCircuit (destroys : Nat) (lastCellWasDestroy : Bool) : Option Pick :=
  if destroys ≠ 0 ∧ (!lastCellWasDestroy ∨ s.nActiveCircuits = 0) then some .destroyQueue
  else if s.nActiveCircuits > 0 then if s.nCells > 0 then some .activeCircuit else none
  else if s.nCells = 0 ∧ destroys = 0 then some .nothing
  else none

inductive Op where
  | attach (circ : CircuitT) (direction : CellDirection)
  | detach (circ : CircuitT)
  | setNumCells (circ : CircuitT) (nCells : UInt32)
  | notifyXmitCells (circ : CircuitT) (nCells : UInt32)
  | detachAll (order : MapOrder) (find : ChanCirc → Option CircuitT)

def step : Op → Option CircuitmuxT
  | .attach circ direction => circuitmuxAttachCircuit s circ direction
  | .detach circ => circuitmuxDetachCircuit s circ
  | .setNumCells circ nCells => circuitmuxSetNumCells s circ nCells
  | .notifyXmitCells circ nCells => circuitmuxNotifyXmitCells s circ nCells
  | .detachAll order find => circuitmuxDetachAllCircuits order find s

/-! ## Alternating notes -/

/-- The first note is that a circuit became active, and each one differs from the one before. -/
def Alternates (l : List Bool) : Prop := l.head? ≠ some false ∧ l.IsChain (· ≠ ·)

theorem alternates_snoc {l : List Bool} {b : Bool} (h : Alternates l) (hb : l.getLast? = some true ↔ b = false) :
    Alternates (l ++ [b]) := by
  obtain ⟨hhead, hchain⟩ := h
  rcases List.eq_nil_or_concat' l with rfl | ⟨init, last, rfl⟩
  · have htrue : b ≠ false := fun e => by simpa using hb.mpr e
    refine ⟨?_, List.isChain_singleton _⟩
    rw [List.nil_append, List.head?_cons]
    exact fun e => htrue (Option.some.inj e)
  · refine ⟨?_, List.isChain_append.mpr ⟨hchain, List.isChain_singleton _, fun x hx y hy => ?_⟩⟩
    · rwa [List.head?_append_of_ne_nil _ (by simp)]
    · rw [List.getLast?_concat] at hb hx
      rw [← Option.some.inj hy]
      have hx : last = x := Option.some.inj hx
      rw [← hx]
      cases last <;> cases b <;> simp_all

/-- The notes about a pair. -/
def notesOn (key : ChanCirc) : List Bool := (s.notes.filter (·.1 = key)).map (·.2)

/-- The pair has an entry, and cells wait there. -/
def isActive (key : ChanCirc) : Bool := key ∈ s.map ∧ (s.muxinfo key).cellCount > 0

/-- The notes on each pair alternate, and the last one is right. -/
def Noted : Prop :=
  ∀ key, Alternates (notesOn s key) ∧ ((notesOn s key).getLast? = some true ↔ isActive s key = true)

end

variable {s t : CircuitmuxT} {circ : CircuitT} {key : ChanCirc} {direction : CellDirection} {n : UInt32}
  {find : ChanCirc → Option CircuitT}

/-- One pair changes, and if it became active or ceased to be that is noted. -/
theorem Noted.change (h : Noted s) (key : ChanCirc)
    (hsame : ∀ other, other ≠ key → isActive t other = isActive s other)
    (hnotes : t.notes = s.notes ++ if isActive t key = isActive s key then [] else [(key, isActive t key)]) : Noted t := by
  intro other
  by_cases hk : other = key
  · subst hk
    obtain ⟨halt, hlast⟩ := h other
    split at hnotes
    next hsame' =>
      have he : notesOn t other = notesOn s other := by simp [notesOn, hnotes]
      rw [he, hsame']
      exact ⟨halt, hlast⟩
    next hne =>
      have he : notesOn t other = notesOn s other ++ [isActive t other] := by simp [notesOn, hnotes]
      rw [he, List.getLast?_concat, Option.some.injEq]
      refine ⟨alternates_snoc halt (hlast.trans ?_), Iff.rfl⟩
      revert hne
      cases isActive t other <;> cases isActive s other <;> simp
  · have he : notesOn t other = notesOn s other := by
      rw [notesOn, notesOn, hnotes, List.filter_append, List.map_append]
      split <;> simp [Ne.symm hk]
    rw [he, hsame other hk]
    exact h other

/-! ## The counters -/

def waiting (s : CircuitmuxT) (key : ChanCirc) : Nat := (s.muxinfo key).cellCount.toNat

/-- Each counter is what it counts, up to the width of an `unsigned int`. -/
structure Counted (s : CircuitmuxT) : Prop where
  circuits : s.nCircuits.toNat = s.map.length % 2 ^ 32
  active : s.nActiveCircuits.toNat = s.map.countP (isActive s) % 2 ^ 32
  cells : s.nCells.toNat = (s.map.map (waiting s)).sum % 2 ^ 32

structure MuxOk (s : CircuitmuxT) : Prop where
  nodup : s.map.Nodup
  noted : Noted s
  counted : Counted s

theorem circuitmuxAlloc_ok : MuxOk circuitmuxAlloc where
  nodup := List.nodup_nil
  noted key := by simp [Alternates, notesOn, isActive, circuitmuxAlloc]
  counted := ⟨rfl, rfl, rfl⟩

/-- One for a count above zero. -/
def activeFlag (n : UInt32) : UInt32 := if n > 0 then 1 else 0

/-- What `noteChange` leaves when the circuit's entry is under `key`. -/
def noted (s : CircuitmuxT) (key : ChanCirc) (old new : UInt32) : CircuitmuxT :=
  { s with
    nActiveCircuits := s.nActiveCircuits - activeFlag old + activeFlag new
    notes := s.notes ++ if decide (new > 0) = decide (old > 0) then [] else [(key, decide (new > 0))] }

theorem noteChange_eq {old new : UInt32}
    (hkey : ∀ k, circuitmuxFindMapEntry s circ = some (some k) → k = key) (h : noteChange s circ old new = some t) :
    t = noted s key old new := by
  have hnote : ∀ {n b}, note { s with nActiveCircuits := n } circ b = some t →
      t = { s with nActiveCircuits := n, notes := s.notes ++ [(key, b)] } := by
    intro n b ht
    unfold note at ht
    split at ht
    next k hk =>
      have hk : k = key := hkey k hk
      rw [← Option.some.inj ht, hk]
    · cases ht
  unfold noteChange at h
  split at h
  next hcase =>
    rw [hnote h]
    simp [noted, activeFlag, hcase.1, hcase.2]
  next hcase =>
    split at h
    next hcase' =>
      rw [hnote h]
      simp [noted, activeFlag, hcase'.1, hcase'.2]
    next hcase' =>
      rw [← Option.some.inj h]
      by_cases ho : old > 0 <;> by_cases hn : new > 0
      · simp [noted, activeFlag, ho, hn]
      · exact absurd ⟨ho, by simpa using hn⟩ hcase
      · exact absurd ⟨by simpa using ho, hn⟩ hcase'
      · simp [noted, activeFlag, ho, hn]

/-! ## What an operation does to the entry of one pair -/

section
variable {s : CircuitmuxT} {key : ChanCirc}

/-- The count of an entry changes. -/
def changed (s : CircuitmuxT) (key : ChanCirc) (n : UInt32) : CircuitmuxT :=
  let old := (s.muxinfo key).cellCount
  setCellCount (noted { s with nCells := s.nCells - old + n } key old n) key n

/-- An entry without cells. -/
def added (s : CircuitmuxT) (key : ChanCirc) (direction : CellDirection) : CircuitmuxT :=
  { s with
    map := key :: s.map
    muxinfo := Function.update s.muxinfo key ⟨0, direction⟩
    nCircuits := s.nCircuits + 1 }

/-- An entry goes, with its cells. -/
def removed (s : CircuitmuxT) (key : ChanCirc) : CircuitmuxT :=
  let old := (s.muxinfo key).cellCount
  { noted s key old 0 with
    map := s.map.erase key
    nCircuits := s.nCircuits - 1
    nCells := s.nCells - old }

theorem activeFlag_toNat (n : UInt32) : (activeFlag n).toNat = if decide (n > 0) then 1 else 0 := by
  unfold activeFlag
  by_cases h : n > 0 <;> simp [h]

theorem changed_isActive (hkey : key ∈ s.map) (n : UInt32) : isActive (changed s key n) key = decide (n > 0) := by
  simp [isActive, changed, setCellCount, noted, hkey]

theorem changed_isActive_of_ne {other : ChanCirc} (h : other ≠ key) (n : UInt32) :
    isActive (changed s key n) other = isActive s other := by
  simp [isActive, changed, setCellCount, noted, h]

theorem isActive_of_mem (hkey : key ∈ s.map) : isActive s key = decide ((s.muxinfo key).cellCount > 0) := by
  simp [isActive, hkey]

theorem changed_ok (hs : MuxOk s) (hkey : key ∈ s.map) (n : UInt32) : MuxOk (changed s key n) := by
  refine ⟨hs.nodup, ?_, ?_⟩
  · refine hs.noted.change key (fun other h => changed_isActive_of_ne h n) ?_
    rw [changed_isActive hkey, isActive_of_mem hkey]
    rfl
  · have hactive := countP_change hs.nodup hkey (fun b hb => changed_isActive_of_ne (s := s) hb n)
    have hcells := sum_change hs.nodup hkey (f := waiting s) (g := waiting (changed s key n)) (by
      intro other h
      simp [waiting, changed, setCellCount, noted, h])
    rw [changed_isActive hkey, isActive_of_mem hkey, ← activeFlag_toNat, ← activeFlag_toNat] at hactive
    have hnew : waiting (changed s key n) key = n.toNat := by simp [waiting, changed, setCellCount, noted]
    have hold : waiting s key = (s.muxinfo key).cellCount.toNat := rfl
    obtain ⟨hcircuits, ha, hc⟩ := hs.counted
    refine ⟨hcircuits, ?_, ?_⟩
    · change (s.nActiveCircuits - activeFlag _ + activeFlag n).toNat = (s.map.countP _) % _
      rw [UInt32.toNat_add, UInt32.toNat_sub, ha]
      have hle := (activeFlag (s.muxinfo key).cellCount).toNat_lt
      omega
    · change (s.nCells - (s.muxinfo key).cellCount + n).toNat = (s.map.map _).sum % _
      rw [UInt32.toNat_add, UInt32.toNat_sub, hc]
      have hle := ((s.muxinfo key).cellCount).toNat_lt
      omega

theorem added_ok (hs : MuxOk s) (hkey : key ∉ s.map) (direction : CellDirection) : MuxOk (added s key direction) := by
  have hsame : ∀ other, isActive (added s key direction) other = isActive s other := by
    intro other
    by_cases h : other = key
    · subst h; simp [isActive, added, hkey]
    · simp [isActive, added, h]
  refine ⟨List.nodup_cons.mpr ⟨hkey, hs.nodup⟩, ?_, ?_⟩
  · refine hs.noted.change key (fun other _ => hsame other) ?_
    rw [if_pos (hsame key), List.append_nil]
    rfl
  · obtain ⟨hcircuits, ha, hc⟩ := hs.counted
    refine ⟨?_, ?_, ?_⟩
    · change (s.nCircuits + 1).toNat = (key :: s.map).length % _
      rw [UInt32.toNat_add, hcircuits, List.length_cons]
      simp
    · change s.nActiveCircuits.toNat = (key :: s.map).countP _ % _
      have hidle : isActive s key = false := by simp [isActive, hkey]
      rw [ha, funext hsame, List.countP_cons, hidle]
      rfl
    · change s.nCells.toNat = ((key :: s.map).map _).sum % _
      have hwait : ∀ other ∈ s.map, waiting (added s key direction) other = waiting s other := by
        intro other ho
        have hne : other ≠ key := fun e => hkey (e ▸ ho)
        simp [waiting, added, hne]
      have hnew : waiting (added s key direction) key = 0 := by simp [waiting, added]
      rw [hc, List.map_cons, List.sum_cons, List.map_congr_left hwait, hnew, Nat.zero_add]

theorem removed_noted (hn : s.map.Nodup) (hs : Noted s) (hkey : key ∈ s.map) : Noted (removed s key) := by
  have hgone : isActive (removed s key) key = false := by simp [isActive, removed, hn.not_mem_erase]
  refine hs.change key (fun other h => ?_) ?_
  · simp [isActive, removed, noted, List.mem_erase_of_ne h]
  · rw [hgone, isActive_of_mem hkey]
    simp [removed, noted]

theorem removed_ok (hs : MuxOk s) (hkey : key ∈ s.map) : MuxOk (removed s key) := by
  refine ⟨hs.nodup.erase key, removed_noted hs.nodup hs.noted hkey, ?_⟩
  have hperm := List.perm_cons_erase hkey
  have hlength := hperm.length_eq
  have hactive := hperm.countP_eq (isActive s)
  have hcells := (hperm.map (waiting s)).sum_nat
  have hsame : (s.map.erase key).countP (isActive (removed s key)) = (s.map.erase key).countP (isActive s) := by
    refine List.countP_congr fun other ho => ?_
    have hne : other ≠ key := fun e => hs.nodup.not_mem_erase (e ▸ ho)
    simp [isActive, removed, noted, List.mem_erase_of_ne hne]
  rw [List.length_cons] at hlength
  rw [List.countP_cons, isActive_of_mem hkey, ← activeFlag_toNat] at hactive
  rw [List.map_cons, List.sum_cons] at hcells
  have hold : waiting s key = (s.muxinfo key).cellCount.toNat := rfl
  obtain ⟨hcircuits, ha, hc⟩ := hs.counted
  refine ⟨?_, ?_, ?_⟩
  · change (s.nCircuits - 1).toNat = (s.map.erase key).length % _
    rw [UInt32.toNat_sub, hcircuits, hlength]
    simp only [UInt32.reduceToNat]
    omega
  · change (s.nActiveCircuits - activeFlag _ + 0).toNat = (s.map.erase key).countP _ % _
    rw [hsame, UInt32.add_zero, UInt32.toNat_sub, ha]
    have hle := (activeFlag (s.muxinfo key).cellCount).toNat_lt
    omega
  · change (s.nCells - (s.muxinfo key).cellCount).toNat = ((s.map.erase key).map (waiting s)).sum % _
    rw [UInt32.toNat_sub, hc]
    have hle := ((s.muxinfo key).cellCount).toNat_lt
    omega

end

/-! ## Operations keep the invariants -/

def CellDirection.other : CellDirection → CellDirection
  | .IN => .OUT
  | .OUT => .IN

/-- The circuit has an entry of this direction. -/
def attachedBy (s : CircuitmuxT) (circ : CircuitT) (direction : CellDirection) : Prop :=
  ∃ key, circ.pair direction = some key ∧ key ∈ s.map ∧ (s.muxinfo key).direction = direction

theorem htFind_some {key : Option ChanCirc} {k : ChanCirc} (h : htFind s key = some k) :
    key = some k ∧ k ∈ s.map := by
  unfold htFind at h
  rw [Option.filter_eq_some_iff, decide_eq_true_eq] at h
  exact h

theorem found_of_pair {k : ChanCirc}
    (hpair : circ.pair direction = some key) (hmem : key ∈ s.map) (hother : ¬ attachedBy s circ direction.other)
    (h : circuitmuxFindMapEntry s circ = some (some k)) : k = key := by
  have hfind : htFind s (circ.pair direction) = some key := by simp [htFind, hpair, hmem]
  unfold circuitmuxFindMapEntry at h
  cases direction with
  | OUT =>
    rw [hfind] at h
    split at h
    next k' hk =>
      split at h
      · cases hk; cases h; rfl
      · cases h
    next hk => cases hk
  | IN =>
    split at h
    next k' hk =>
      split at h
      next hdir =>
        obtain ⟨hp, hm⟩ := htFind_some hk
        exact absurd ⟨k', hp, hm, hdir⟩ hother
      · cases h
    next hk =>
      rw [hfind] at h
      split at h
      next k'' hk' =>
        split at h
        · cases hk'; cases h; rfl
        · cases h
      next hk' => cases hk'

theorem found_mem (h : circuitmuxFindMapEntry s circ = some (some key)) : key ∈ s.map := by
  unfold circuitmuxFindMapEntry at h
  split at h
  next k hk =>
    split at h
    · cases h; exact (htFind_some hk).2
    · cases h
  next hk =>
    split at h
    next k hk' =>
      split at h
      · cases h; exact (htFind_some hk').2
      · cases h
    · cases h

theorem find_setCellCount (s : CircuitmuxT) (circ : CircuitT) (key : ChanCirc) (n : UInt32) :
    circuitmuxFindMapEntry (setCellCount s key n) circ = circuitmuxFindMapEntry s circ := by
  have hdir : ∀ k, ((setCellCount s key n).muxinfo k).direction = (s.muxinfo k).direction := by
    intro k
    by_cases h : k = key
    · subst h; simp [setCellCount]
    · simp [setCellCount, h]
  have hmap : (setCellCount s key n).map = s.map := rfl
  simp only [circuitmuxFindMapEntry, htFind, hmap, hdir]

theorem attachAgain_ok
    (hs : MuxOk s) (hmem : key ∈ s.map) (hfound : ∀ k, circuitmuxFindMapEntry s circ = some (some k) → k = key)
    (h : attachAgain s circ direction key n = some t) : MuxOk t := by
  unfold attachAgain at h
  split at h
  · cases h
  · obtain ⟨u, hu, rfl⟩ := Option.map_eq_some_iff.mp h
    rw [noteChange_eq hfound hu]
    exact changed_ok hs hmem n

/-- A new entry is one without cells, and then its count changes. -/
theorem attachNew_ok (hs : MuxOk s) (hnew : key ∉ s.map)
    (hfound : ∀ k, circuitmuxFindMapEntry (added s key direction) circ = some (some k) → k = key)
    (h : attachNew s circ direction key n = some t) : MuxOk t := by
  obtain ⟨u, hu, rfl⟩ := Option.map_eq_some_iff.mp h
  have hstart : { s with
      map := key :: s.map
      muxinfo := Function.update s.muxinfo key ⟨n, direction⟩
      nCircuits := s.nCircuits + 1 } = setCellCount (added s key direction) key n := by
    simp [setCellCount, added]
  rw [hstart] at hu
  rw [noteChange_eq (fun k hk => hfound k (find_setCellCount _ circ key n ▸ hk)) hu]
  have hok := changed_ok (added_ok hs hnew direction) List.mem_cons_self n
  simpa [changed, added, setCellCount, noted] using hok

/-- An entry made for one direction is none of the other one. -/
theorem added_attachedBy_other
    (h : attachedBy (added s key direction) circ direction.other) : attachedBy s circ direction.other := by
  obtain ⟨k, hk, hmem, hdir⟩ := h
  by_cases he : k = key
  · have hself : direction = direction.other := by simpa [added, he] using hdir
    revert hself
    cases direction <;> simp [CellDirection.other]
  · refine ⟨k, hk, (List.mem_cons.mp hmem).resolve_left he, ?_⟩
    simpa [added, he] using hdir

theorem attach_ok (hs : MuxOk s)
    (hone : ¬ attachedBy s circ direction.other) (h : circuitmuxAttachCircuit s circ direction = some t) : MuxOk t := by
  unfold circuitmuxAttachCircuit at h
  split at h
  · cases h
  next key hpair =>
    split at h
    · cases h
    split at h
    next hmem => exact attachAgain_ok hs hmem (fun k hk => found_of_pair hpair hmem hone hk) h
    next hnew =>
      refine attachNew_ok hs hnew (fun k hk => ?_) h
      exact found_of_pair hpair List.mem_cons_self (fun ha => hone (added_attachedBy_other ha)) hk

theorem detachFound_ok (hs : MuxOk s)
    (hmem : key ∈ s.map) (hfound : ∀ k, circuitmuxFindMapEntry s circ = some (some k) → k = key)
    (h : detachFound s circ direction key = some t) : MuxOk t := by
  obtain ⟨u, hu, ht⟩ := Option.bind_eq_some_iff.mp h
  rw [noteChange_eq (s := { s with nCircuits := s.nCircuits - 1 }) hfound hu] at ht
  split at ht
  · cases ht
  · cases ht
    exact removed_ok hs hmem

theorem detach_ok (hs : MuxOk s) (h : circuitmuxDetachCircuit s circ = some t) : MuxOk t := by
  have hfind : ∀ k, circuitmuxFindMapEntry s circ = some (some k) →
      k ∈ htFind s (circ.pair .OUT) ∨ htFind s (circ.pair .OUT) = none ∧ k ∈ htFind s (circ.pair .IN) := by
    intro k hk
    unfold circuitmuxFindMapEntry at hk
    split at hk
    next k' hk' =>
      split at hk
      · cases hk; exact .inl hk'
      · cases hk
    next hnone =>
      split at hk
      next k' hk' =>
        split at hk
        · cases hk; exact .inr ⟨hnone, hk'⟩
        · cases hk
      · cases hk
  unfold circuitmuxDetachCircuit at h
  split at h
  next key hkey =>
    refine detachFound_ok hs (htFind_some hkey).2 (fun k hk => ?_) h
    rcases hfind k hk with hout | ⟨hnone, -⟩
    · rw [hkey] at hout; exact (Option.some.inj hout).symm
    · rw [hkey] at hnone; cases hnone
  next key hnone hkey =>
    refine detachFound_ok hs (htFind_some hkey).2 (fun k hk => ?_) h
    rcases hfind k hk with hout | ⟨-, hin⟩
    · rw [hnone] at hout; cases hout
    · rw [hkey] at hin; exact (Option.some.inj hin).symm
  · split at h
    · cases h
    · cases h; exact hs

theorem setNumCells_ok (hs : MuxOk s) (h : circuitmuxSetNumCells s circ n = some t) : MuxOk t := by
  unfold circuitmuxSetNumCells at h
  split at h
  next key hkey =>
    rw [noteChange_eq (fun k hk => ?_) h]
    · exact changed_ok hs (found_mem hkey) n
    · have hk := (find_setCellCount _ circ key n).symm.trans hk
      exact (Option.some.inj (Option.some.inj (hkey.symm.trans hk))).symm
  · cases h

theorem notifyXmitCells_ok (hs : MuxOk s) (h : circuitmuxNotifyXmitCells s circ n = some t) : MuxOk t := by
  unfold circuitmuxNotifyXmitCells at h
  split at h
  · cases h; exact hs
  · split at h
    next key hkey =>
      dsimp only at h
      split at h
      · cases h
      · have hcells : s.nCells - n = s.nCells - (s.muxinfo key).cellCount + ((s.muxinfo key).cellCount - n) := by
          grind
        rw [noteChange_eq (fun k hk => ?_) h, hcells]
        · exact changed_ok hs (found_mem hkey) _
        · have hk := (find_setCellCount _ circ key _).symm.trans hk
          exact (Option.some.inj (Option.some.inj (hkey.symm.trans hk))).symm
    · cases h

/-! ## The walk through the map -/

/-- The circuits that are found for the entries are the ones attached there. -/
def FindsAttached (find : ChanCirc → Option CircuitT) (s : CircuitmuxT) : Prop :=
  ∀ key ∈ s.map, ∀ circ, find key = some circ →
    circ.pair (s.muxinfo key).direction = some key ∧ ¬ attachedBy s circ (s.muxinfo key).direction.other

theorem detachEntry_eq (hkey : key ∈ s.map) (hfinds : FindsAttached find s) (h : detachEntry find s key = some t) :
    t = { s with map := s.map.erase key, notes := (removed s key).notes } := by
  unfold detachEntry at h
  split at h
  · cases h
  next circ hcirc =>
    obtain ⟨hpair, hother⟩ := hfinds key hkey circ hcirc
    have hside : (s.muxinfo key).direction = .OUT ∨ circ.orSide.isSome := by
      cases hdir : (s.muxinfo key).direction with
      | OUT => exact .inl rfl
      | IN =>
        rw [hdir] at hpair
        obtain ⟨c, hc, -⟩ := Option.bind_eq_some_iff.mp hpair
        exact .inr (by rw [hc]; rfl)
    obtain ⟨u, hu, rfl⟩ := Option.map_eq_some_iff.mp h
    split at hu
    next hactive =>
      unfold circuitmuxMakeCircuitInactive note at hu
      split at hu
      next k hk =>
        cases hu
        rw [found_of_pair hpair hkey hother hk]
        simp [removed, noted, hactive.1]
      · cases hu
    next hidle =>
      cases hu
      have hzero : ¬ (s.muxinfo key).cellCount > 0 := fun hpos => hidle ⟨hpos, hside⟩
      simp [removed, noted, hzero]

theorem FindsAttached.erase
    (h : FindsAttached find s) (hmap : t.map = s.map.erase key) (hinfo : t.muxinfo = s.muxinfo) : FindsAttached find t := by
  intro k hk circ hcirc
  rw [hmap] at hk
  obtain ⟨hpair, hother⟩ := h k (List.mem_of_mem_erase hk) circ hcirc
  rw [hinfo]
  refine ⟨hpair, fun ha => hother ?_⟩
  obtain ⟨k', hp, hm, hd⟩ := ha
  rw [hmap] at hm
  rw [hinfo] at hd
  exact ⟨k', hp, List.mem_of_mem_erase hm, hd⟩

/-- The walk goes through what is left of the map. -/
theorem detachEntries_ok {keys : List ChanCirc}
    (hkeys : keys.Perm s.map) (hnodup : s.map.Nodup) (hs : Noted s) (hfinds : FindsAttached find s)
    (h : keys.foldlM (detachEntry find) s = some t) : t.map = [] ∧ Noted t := by
  induction keys generalizing s with
  | nil =>
    cases h
    exact ⟨hkeys.symm.eq_nil, hs⟩
  | cons key keys ih =>
    rw [List.foldlM_cons] at h
    obtain ⟨u, hu, ht⟩ := Option.bind_eq_some_iff.mp h
    have hmem : key ∈ s.map := hkeys.mem_iff.mp List.mem_cons_self
    rw [detachEntry_eq hmem hfinds hu] at ht
    refine ih ?_ ?_ ?_ ?_ ht
    · exact (List.perm_cons key).mp (hkeys.trans (List.perm_cons_erase hmem))
    · exact hnodup.erase key
    · exact removed_noted hnodup hs hmem
    · exact hfinds.erase rfl rfl

theorem detachAll_ok {order : MapOrder} (hs : MuxOk s)
    (hfinds : FindsAttached find s) (h : circuitmuxDetachAllCircuits order find s = some t) : MuxOk t := by
  obtain ⟨u, hu, rfl⟩ := Option.map_eq_some_iff.mp h
  obtain ⟨hempty, hnoted⟩ := detachEntries_ok (order.2 s.map) hs.nodup hs.noted hfinds hu
  refine ⟨?_, hnoted, ?_⟩
  · change u.map.Nodup
    rw [hempty]
    exact List.nodup_nil
  · constructor <;> simp [hempty]

/-! ## Runs -/

/-- A circuit is attached in one direction at a time. -/
def OneDirection (s : CircuitmuxT) : Op → Prop
  | .attach circ direction => ¬ attachedBy s circ direction.other
  | .detachAll _ find => FindsAttached find s
  | _ => True

theorem step_ok {op : Op} (hs : MuxOk s) (hop : OneDirection s op) (h : step s op = some t) : MuxOk t := by
  cases op with
  | attach circ direction => exact attach_ok hs hop h
  | detach circ => exact detach_ok hs h
  | setNumCells circ n => exact setNumCells_ok hs h
  | notifyXmitCells circ n => exact notifyXmitCells_ok hs h
  | detachAll order find => exact detachAll_ok hs hop h

/-- An active circuit has a cell at least. -/
theorem countP_isActive_le (s : CircuitmuxT) (l : List ChanCirc) : l.countP (isActive s) ≤ (l.map (waiting s)).sum := by
  induction l with
  | nil => exact Nat.le_refl 0
  | cons key l ih =>
    rw [List.countP_cons, List.map_cons, List.sum_cons]
    have hkey : (if isActive s key = true then 1 else 0) ≤ waiting s key := by
      split
      next h =>
        have hpos : (s.muxinfo key).cellCount > 0 := by simp [isActive] at h; exact h.2
        exact UInt32.lt_iff_toNat_lt.mp hpos
      · exact Nat.zero_le _
    omega

/-- Cells wait, or no circuit is active. -/
theorem sum_waiting_eq_zero (h : s.map.countP (isActive s) = 0) : (s.map.map (waiting s)).sum = 0 := by
  rw [List.sum_eq_zero_iff_forall_eq_nat]
  intro n hn
  obtain ⟨key, hkey, rfl⟩ := List.mem_map.mp hn
  have hidle := List.countP_eq_zero.mp h key hkey
  rw [isActive_of_mem hkey, decide_eq_true_eq] at hidle
  have hzero : (s.muxinfo key).cellCount = 0 := by simpa using hidle
  rw [waiting, hzero]
  rfl

/-- Over every run in which a circuit is attached in one direction at a time: the counters are what they count, up to
2^32; the notes about a pair alternate; and below 2^32 cells no assertion of the walk fails. -/
theorem mux_counts_and_notes (ops : List Op) (s : CircuitmuxT) (h : run step circuitmuxAlloc ops = some s)
    (hops : AllSteps step OneDirection circuitmuxAlloc ops) :
    (s.nCircuits.toNat = s.map.length % 2 ^ 32 ∧ s.nActiveCircuits.toNat = s.map.countP (isActive s) % 2 ^ 32 ∧
      s.nCells.toNat = (s.map.map (waiting s)).sum % 2 ^ 32) ∧
    (s.map.length < 2 ^ 32 → s.nCircuits.toNat = s.map.length) ∧
    (∀ key, Alternates (notesOn s key) ∧ ((notesOn s key).getLast? = some true ↔ isActive s key = true)) ∧
    ((s.map.map (waiting s)).sum < 2 ^ 32 →
      s.nActiveCircuits.toNat = s.map.countP (isActive s) ∧ s.nCells.toNat = (s.map.map (waiting s)).sum ∧
      ∀ destroys lastCellWasDestroy, circuitmuxGetFirstActiveCircuit s destroys lastCellWasDestroy ≠ none) := by
  have hok : MuxOk s := run_inv_steps (fun _ _ _ => step_ok) circuitmuxAlloc_ok hops h
  obtain ⟨hcircuits, hactive, hcells⟩ := hok.counted
  refine ⟨⟨hcircuits, hactive, hcells⟩, fun hlt => ?_, hok.noted, fun hlt => ?_⟩
  · rw [hcircuits, Nat.mod_eq_of_lt hlt]
  · have hle := countP_isActive_le s s.map
    rw [Nat.mod_eq_of_lt (by omega)] at hactive
    rw [Nat.mod_eq_of_lt hlt] at hcells
    refine ⟨hactive, hcells, fun destroys last => ?_⟩
    have hsome : s.nActiveCircuits > 0 → s.nCells > 0 := by
      intro hpos
      have hpos := UInt32.lt_iff_toNat_lt.mp hpos
      refine UInt32.lt_iff_toNat_lt.mpr ?_
      rw [UInt32.toNat_zero] at hpos ⊢
      omega
    have hnone : ¬ s.nActiveCircuits > 0 → s.nActiveCircuits = 0 ∧ s.nCells = 0 := by
      intro hzero
      have hzero : s.nActiveCircuits = 0 := by simpa using hzero
      rw [hzero] at hactive
      have hsum := sum_waiting_eq_zero hactive.symm
      refine ⟨hzero, UInt32.toNat_inj.mp ?_⟩
      rw [hcells, hsum]
      rfl
    unfold circuitmuxGetFirstActiveCircuit
    split
    · simp
    next hqueue =>
      split
      next hpos => simp [hsome hpos]
      next hzero =>
        obtain ⟨hz, hc⟩ := hnone hzero
        have hd : destroys = 0 := by
          by_contra hne
          exact hqueue ⟨hne, .inr hz⟩
        simp [hc, hd]

/-- A circuit towards the exit. -/
def originCircuit (chanId : UInt64) (circId cells : UInt32) : CircuitT := ⟨some chanId, circId, cells, none⟩

theorem mux_counts_and_notes_of_two :
    run step circuitmuxAlloc [.attach (originCircuit 1 5 2) .OUT, .notifyXmitCells (originCircuit 1 5 2) 2] ≠ none ∧
    ∀ s, run step circuitmuxAlloc [.attach (originCircuit 1 5 2) .OUT, .notifyXmitCells (originCircuit 1 5 2) 2] = some s →
      s.nCircuits.toNat = s.map.length % 2 ^ 32 := by
  refine ⟨by decide +kernel, fun s hs => ?_⟩
  refine (mux_counts_and_notes _ s hs ?_).1.1
  refine (allSteps_cons rfl).mpr ⟨?_, (allSteps_cons rfl).mpr ⟨trivial, allSteps_nil⟩⟩
  intro ⟨key, hkey, _⟩
  cases hkey

/-- Two circuits with 2^31 cells each: the counter of cells is zero, and the next pick stops the process. -/
theorem cells_beyond_the_counter_stop_the_mux :
    let ops : List Op :=
      [.attach (originCircuit 1 5 0) .OUT, .attach (originCircuit 1 6 0) .OUT,
        .setNumCells (originCircuit 1 5 0) (2 ^ 31), .setNumCells (originCircuit 1 6 0) (2 ^ 31)]
    AllSteps step OneDirection circuitmuxAlloc ops ∧
    ∃ s, run step circuitmuxAlloc ops = some s ∧ (s.map.map (waiting s)).sum = 2 ^ 32 ∧ s.nCells = 0 ∧
      circuitmuxGetFirstActiveCircuit s 0 false = none := by
  have hnot : ∀ (s : CircuitmuxT) (circId : UInt32), ¬ attachedBy s (originCircuit 1 circId 0) .IN := by
    intro s circId ⟨key, hkey, _⟩
    cases hkey
  refine ⟨?_, _, rfl, by decide +kernel, by decide +kernel, by decide +kernel⟩
  refine (allSteps_cons rfl).mpr ⟨hnot _ 5, (allSteps_cons rfl).mpr ⟨hnot _ 6, ?_⟩⟩
  exact (allSteps_cons rfl).mpr ⟨trivial, (allSteps_cons rfl).mpr ⟨trivial, allSteps_nil⟩⟩

end Badnet.Circuits
