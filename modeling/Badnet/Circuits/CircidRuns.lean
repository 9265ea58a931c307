/-
  Badnet.Circuits.CircidRuns — runs over the map of pairs.

  Over every run in which a side gets a pair that no side has and no DESTROY reserves, a lookup finds exactly the
  circuit that has the pair, the counters of a channel count its circuits, and a pair stays in use while its DESTROY is
  pending (`circuit_id_map_coherent`). A circuit may not have one pair on both sides, and two notes are taken back by
  one (`shared_pairs_and_double_notes_are_lost`).
-/

import Badnet.Circuits.CircidMap
import Badnet.Lib.Run

namespace Badnet.Circuits.Circuitlist

open Lib

section
variable {pend : ChanCirc → Bool} {s : St} {circ : Nat} {c : Circuit} {d : CellDirection}

/-! ## Notes on a DESTROY -/

variable {key : ChanCirc}

theorem setPendingFlag_side (hc : s.circuits[circ]? = some c) (hhas : c.Has key) (b : Bool) :
    ∃ d, c.pair d = some key ∧ setPendingFlag s circ key b = some (setCircuit s circ (c.setDeletePending d b)) := by
  by_cases hout : c.pair .OUT = some key
  · exact ⟨.OUT, hout, by simp [setPendingFlag, hc, hout]⟩
  · have hin := hhas.resolve_left hout
    cases ho : c.orCircuit with
    | none => simp [Circuit.pair, Circuit.side, ho] at hin
    | some o => exact ⟨.IN, hin, by simp [setPendingFlag, hc, hout, hin, ho]⟩

theorem holds_setDeletePending (hc : s.circuits[circ]? = some c) (b : Bool) (i : Nat) (key : ChanCirc) :
    Holds (setCircuit s circ (c.setDeletePending d b)) i key ↔ Holds s i key := by
  have hget := @getElem?_changed s (setCircuit s circ (c.setDeletePending d b)) circ c _ hc rfl i
  by_cases hic : i = circ
  · subst hic
    rw [holds_self (hget.trans (if_pos rfl)), holds_self hc, Circuit.has_iff, Circuit.has_iff]
    simp
  · unfold Holds
    rw [hget, if_neg hic]

/-- No other side has the pair, so the other flags fit what is pending now as well. -/
theorem flags_setDeletePending (h : Coherent pend s) (hc : s.circuits[circ]? = some c)
    (hd : c.pair d = some key) (b : Bool) {i : Nat} {x : Circuit} {d' : CellDirection}
    (hx : (setCircuit s circ (c.setDeletePending d b)).circuits[i]? = some x) :
    x.deletePending d' = ((x.pair d').map (Function.update pend key b)).getD false := by
  rw [@getElem?_changed s (setCircuit s circ (c.setDeletePending d b)) circ c _ hc rfl] at hx
  split at hx
  next hic =>
    cases hx
    by_cases hdd : d' = d
    · subst hdd
      rw [Circuit.deletePending_setDeletePending_self, Circuit.pair_setDeletePending, hd]
      simp
    · rw [Circuit.deletePending_setDeletePending_of_ne hdd, Circuit.pair_setDeletePending, h.flags circ c d' hc]
      cases hk : c.pair d' with
      | none => rfl
      | some key' =>
        have hne : key' ≠ key := fun he => h.not_both hc hdd hd (he ▸ hk)
        simp [Function.update_of_ne hne]
  next hic =>
    rw [h.flags i x d' hx]
    cases hk : x.pair d' with
    | none => rfl
    | some key' =>
      have hne : key' ≠ key := by
        intro he
        refine hic (h.holds_unique ((holds_self hx).mpr (Circuit.has_iff.mpr ⟨d', hk⟩)) ?_)
        rw [he]
        exact (holds_self hc).mpr (Circuit.has_iff.mpr ⟨d, hd⟩)
      simp [Function.update_of_ne hne]

/-- A circuit has the pair: the flag of the side that has it is set or cleared. -/
theorem setPendingFlag_spec (h : Coherent pend s) (hi : Holds s circ key) (b : Bool) :
    ∃ s', setPendingFlag s circ key b = some s' ∧ Coherent (Function.update pend key b) s' := by
  obtain ⟨c, hc, hhas⟩ := id hi
  obtain ⟨d, hd, hflag⟩ := setPendingFlag_side hc hhas b
  refine ⟨_, hflag, ?_⟩
  have hget : ∀ i, (setCircuit s circ (c.setDeletePending d b)).circuits[i]? = _ := getElem?_changed hc rfl
  have hpairs := @holds_setDeletePending s circ c d hc b
  refine ⟨h.distinct, h.noLeak, h.cached, fun key' i => (h.entry key' i).trans (hpairs i key').symm, fun key' => ?_,
    fun i x d' hx => flags_setDeletePending h hc hd b hx, fun i x key' hx => ?_, fun i x d' key' hx => ?_,
    fun chan d' => ?_⟩
  · rw [show view (setCircuit s circ (c.setDeletePending d b)).chanCircidMap key' = view s.chanCircidMap key' from rfl,
      h.placeholder]
    by_cases hk : key' = key
    · rw [hk]
      exact iff_of_false (fun hno => hno.2 circ hi) fun hno => hno.2 circ ((hpairs circ key).mpr hi)
    · rw [Function.update_of_ne hk]
      exact and_congr_right fun _ => forall_congr' fun i => not_congr (hpairs i key').symm
  · rw [hget] at hx
    split at hx
    · cases hx
      simpa using h.apart circ c key' hc
    · exact h.apart i x key' hx
  · rw [hget] at hx
    split at hx
    · cases hx
      simpa using h.nonzero circ c d' key' hc
    · exact h.nonzero i x d' key' hx
  · rw [show (setCircuit s circ (c.setDeletePending d b)).channels = s.channels from rfl, h.counts]
    have hcount : onChannel (setCircuit s circ (c.setDeletePending d b)) chan d' + _ = _ := onChannel_set hc rfl chan d'
    rw [Circuit.pair_setDeletePending] at hcount
    rw [Nat.add_right_cancel hcount]

/-- No circuit has the pair: a placeholder for it comes or goes. -/
theorem Coherent.reserve (h : Coherent pend s) {s' : St} (hno : ∀ i, ¬ Holds s i key) {b : Bool}
    (hcirc : s'.circuits = s.circuits) (hchan : s'.channels = s.channels) (hdist : Distinct s'.chanCircidMap)
    (hleak : s'.leaked = []) (hcached : ∀ addr, s'.lastCircidChanEnt = some addr → ∃ e ∈ s'.chanCircidMap, e.addr = addr)
    (hview : ∀ k, view s'.chanCircidMap k = if key = k then (if b then some none else none) else view s.chanCircidMap k) :
    Coherent (Function.update pend key b) s' := by
  have hholds : ∀ i k, Holds s' i k ↔ Holds s i k := by
    intro i k
    unfold Holds
    rw [hcirc]
  refine ⟨hdist, hleak, hcached, fun k i => ?_, fun k => ?_, fun i x d' hx => ?_, fun i x k hx => h.apart i x k (hcirc ▸ hx),
    fun i x d' k hx => h.nonzero i x d' k (hcirc ▸ hx), fun chan d' => ?_⟩
  · rw [hview, hholds]
    by_cases hk : key = k
    · subst hk
      rw [if_pos rfl, iff_false_right (hno i)]
      split <;> exact nofun
    · rw [if_neg hk, h.entry]
  · rw [hview]
    simp only [hholds]
    by_cases hk : key = k
    · subst hk
      rw [if_pos rfl, Function.update_self, and_iff_left hno]
      cases b <;> simp
    · rw [if_neg hk, h.placeholder, Function.update_of_ne (Ne.symm hk)]
  · rw [hcirc] at hx
    rw [h.flags i x d' hx]
    cases hk : x.pair d' with
    | none => rfl
    | some k =>
      have hne : k ≠ key := fun he => hno i ((holds_self hx).mpr (Circuit.has_iff.mpr ⟨d', he ▸ hk⟩))
      simp [Function.update_of_ne hne]
  · rw [hchan, h.counts, onChannel, onChannel, hcirc]

theorem Coherent.view_of_not_held (h : Coherent pend s) (hno : ∀ i, ¬ Holds s i key) :
    view s.chanCircidMap key = none ∨ view s.chanCircidMap key = some none := by
  cases hv : view s.chanCircidMap key with
  | none => exact .inl rfl
  | some o =>
    cases o with
    | none => exact .inr rfl
    | some i => exact absurd ((h.entry key i).mp hv) (hno i)

variable (malloc : List Nat → Nat)

theorem channelMarkCircidUnusable_spec (h : Coherent pend s) (hno : ∀ i, ¬ Holds s i key) :
    Coherent (Function.update pend key true) (channelMarkCircidUnusable malloc s key) := by
  obtain ⟨hcirc, hchan⟩ := channelMarkCircidUnusable_frame (s := s) malloc key
  have hmoves := channelMarkCircidUnusable_moves malloc h.distinct (h.view_of_not_held hno)
  refine h.reserve hno hcirc hchan hmoves.distinct (hmoves.leaked.trans h.noLeak) (fun addr haddr => ?_) fun k => ?_
  · obtain ⟨e, he, rfl⟩ := h.cached addr (hmoves.last ▸ haddr)
    obtain ⟨e', he', haddr', -⟩ := hmoves.kept e he trivial
    exact ⟨e', he', haddr'⟩
  · exact hmoves.view k

theorem channelMarkCircidUsable_spec (h : Coherent pend s) (hno : ∀ i, ¬ Holds s i key) :
    Coherent (Function.update pend key false) (channelMarkCircidUsable s key) := by
  unfold channelMarkCircidUsable
  cases hf : htFind s.chanCircidMap key with
  | none =>
    refine h.reserve hno rfl rfl h.distinct h.noLeak h.cached fun k => ?_
    by_cases hk : key = k
    · subst hk
      simp [view, hf]
    · simp [hk]
  | some ent =>
    obtain ⟨hent, hkey⟩ := (htFind_eq_some h.distinct).mp hf
    have hnone : ent.circuit = none := by
      have hv := h.view_of_not_held hno
      rw [view, hf] at hv
      rcases hv with hv | hv
      · cases hv
      · exact Option.some.inj hv
    have hmoves := htRemove_moves h.distinct key
    simp only [hnone, Option.isSome_none, Bool.false_eq_true, if_false]
    have hview : ∀ k, view (htRemove s.chanCircidMap key) k =
        if key = k then (if false then some none else none) else view s.chanCircidMap k := by
      intro k
      rw [view_htRemove h.distinct]
      simp [eq_comm]
    split
    · exact h.reserve hno rfl rfl hmoves.distinct h.noLeak (fun addr haddr => by cases haddr) hview
    next hlast =>
      refine h.reserve hno rfl rfl hmoves.distinct h.noLeak (fun addr haddr => ?_) hview
      obtain ⟨e, he, rfl⟩ := h.cached addr haddr
      -- the cached entry is another one than the placeholder
      have hne : e.key ≠ key := fun hk => hlast (by rw [haddr, h.distinct.inj e he ent hent (hk.trans hkey.symm)])
      exact ⟨e, (mem_htRemove h.distinct).mpr ⟨he, hne⟩, rfl⟩

/-- A note after a lookup, whatever the lookup does to the cache. -/
theorem note_spec (h : Coherent pend s) {b : Bool} {mark : St → St}
    (hmark : ∀ t : St, Coherent pend t → (∀ i, ¬ Holds t i key) → Coherent (Function.update pend key b) (mark t)) :
    ∃ s', ((circuitGetByCircidChannelEvenIfMarked s key).bind fun (s, circ) =>
        match circ with
        | some circ => setPendingFlag s circ key b
        | none => some (mark s)) = some s' ∧ Coherent (Function.update pend key b) s' := by
  obtain ⟨last, hget, hco⟩ := impl_spec h key
  rw [circuitGetByCircidChannelEvenIfMarked, hget]
  have hview : (htFind s.chanCircidMap key).bind (·.circuit) = (view s.chanCircidMap key).join := by
    rw [view]
    cases htFind s.chanCircidMap key <;> rfl
  simp only [Option.map_some, Option.bind_some, hview]
  cases hv : (view s.chanCircidMap key).join with
  | some i => exact setPendingFlag_spec hco ((hco.entry key i).mp (Option.join_eq_some_iff.mp hv)) b
  | none =>
    refine ⟨_, rfl, hmark _ hco fun i hi => ?_⟩
    have hi : view s.chanCircidMap key = some (some i) := (hco.entry key i).mpr hi
    rw [hi] at hv
    cases hv

/-! ## Steps and runs -/

theorem newCircuit_spec (h : Coherent pend s) (isOrigin : Bool) :
    Coherent pend { s with circuits := s.circuits ++ [.fresh isOrigin] } := by
  have hpair : ∀ d, (Circuit.fresh isOrigin).pair d = none := by
    intro d
    cases d <;> cases isOrigin <;> rfl
  have hcases : ∀ (i : Nat) (x : Circuit), (s.circuits ++ [.fresh isOrigin])[i]? = some x →
      s.circuits[i]? = some x ∨ x = .fresh isOrigin := by
    intro i x hx
    rcases Nat.lt_or_ge i s.circuits.length with hi | hi
    · rw [List.getElem?_append_left hi] at hx
      exact .inl hx
    · rw [List.getElem?_append_right hi] at hx
      exact .inr (List.mem_singleton.mp (List.mem_of_getElem? hx))
  have hholds : ∀ i key, Holds { s with circuits := s.circuits ++ [.fresh isOrigin] } i key ↔ Holds s i key := by
    intro i key
    refine ⟨fun hi => ?_, fun hi => ?_⟩
    · obtain ⟨x, hx, hhas⟩ := hi
      rcases hcases i x hx with hx | rfl
      · exact ⟨x, hx, hhas⟩
      · obtain ⟨d, hd⟩ := Circuit.has_iff.mp hhas
        rw [hpair] at hd
        cases hd
    · obtain ⟨x, hx, hhas⟩ := hi
      exact ⟨x, (List.getElem?_append_left (List.getElem?_eq_some_iff.mp hx).1).trans hx, hhas⟩
  refine ⟨h.distinct, h.noLeak, h.cached, fun key i => (h.entry key i).trans (hholds i key).symm, fun key => ?_,
    fun i x d hx => ?_, fun i x key hx => ?_, fun i x d key hx => ?_, fun chan d => ?_⟩
  · simp only [hholds]
    exact h.placeholder key
  · rcases hcases i x hx with hx | rfl
    · exact h.flags i x d hx
    · rw [hpair]
      cases d <;> rfl
  · rcases hcases i x hx with hx | rfl
    · exact h.apart i x key hx
    · rw [hpair]
      exact nofun
  · rcases hcases i x hx with hx | rfl
    · exact h.nonzero i x d key hx
    · rw [hpair]
      exact nofun
  · rw [h.counts]
    simp [onChannel, hpair]

/-- A pair that may be given to a side is one the map has nothing for. -/
theorem Coherent.view_none_of_allowed (h : Coherent pend s) (hres : ¬ Reserved s key)
    (hheld : ∀ i, i < s.circuits.length → ¬ Holds s i key) : view s.chanCircidMap key = none := by
  have hno : ∀ i, ¬ Holds s i key := by
    intro i hi
    obtain ⟨c, hc, hhas⟩ := hi
    exact hheld i (List.getElem?_eq_some_iff.mp hc).1 ⟨c, hc, hhas⟩
  refine (h.view_of_not_held hno).resolve_right fun hv => ?_
  obtain ⟨e, he, hcirc⟩ := Option.map_eq_some_iff.mp hv
  obtain ⟨hmem, hkey⟩ := (htFind_eq_some h.distinct).mp he
  exact hres ⟨e, hmem, hkey, hcirc⟩

/-- The pairs whose DESTROY is pending after an operation. -/
def pendAfter (pend : ChanCirc → Bool) : Op → ChanCirc → Bool
  | .noteDestroyPending key => Function.update pend key true
  | .noteDestroyNotPending key => Function.update pend key false
  | _ => pend

/-- The pair goes to no side that has one, its own circuit's other side included. -/
def heldByAny (_ _ : Nat) : Prop := True

theorem set_step (h : Coherent pend s) {id : UInt32} {chan : Option UInt64}
    (ha : SetAllowed (heldByAny circ) s d circ id chan) :
    ∃ s', circuitSetCircidChan malloc d s circ id chan = some s' ∧ Coherent pend s' := by
  obtain ⟨hzero, ⟨c, hc, old, hside, hne⟩, hfree⟩ := ha
  refine circuitSetCircidChan_spec malloc h hc hside hne hzero fun key hkey => ?_
  obtain ⟨hres, hheld⟩ := hfree key hkey
  exact h.view_none_of_allowed hres fun i hi => hheld i hi trivial

theorem step_spec (h : Coherent pend s) {op : Op} (ha : Allowed heldByAny s op) :
    ∃ s', step malloc s op = some s' ∧ Coherent (pendAfter pend op) s' := by
  cases op with
  | newCircuit isOrigin => exact ⟨_, rfl, newCircuit_spec h isOrigin⟩
  | setN circ id chan | setP circ id chan => exact set_step malloc h ha
  | noteDestroyPending key => exact note_spec h fun t ht hno => channelMarkCircidUnusable_spec malloc ht hno
  | noteDestroyNotPending key => exact note_spec h fun t ht hno => channelMarkCircidUsable_spec ht hno
  | get key =>
    obtain ⟨last, hget, hco⟩ := impl_spec h key
    exact ⟨_, by rw [step, circuitGetByCircidChannelEvenIfMarked, hget]; rfl, hco⟩
  | inUse key =>
    obtain ⟨last, hget, hco⟩ := impl_spec h key
    exact ⟨_, by rw [step, circuitIdInUseOnChannel, hget]; rfl, hco⟩
  | setTime t =>
    exact ⟨_, rfl, h.distinct, h.noLeak, h.cached, h.entry, h.placeholder, h.flags, h.apart, h.nonzero, h.counts⟩

theorem run_coherent {ops : List Op} (ha : AllSteps (step malloc) (Allowed heldByAny) init ops) :
    ∃ s, run (step malloc) init ops = some s ∧ Coherent (ops.foldl pendAfter fun _ => false) s := by
  induction ops using List.reverseRecOn with
  | nil => exact ⟨init, rfl, init_coherent⟩
  | append_singleton ops op ih =>
    obtain ⟨hops, hop⟩ := allSteps_snoc.mp ha
    obtain ⟨s, hs, hco⟩ := ih hops
    obtain ⟨s', hs', hco'⟩ := step_spec malloc hco (hop s hs)
    rw [List.foldl_append]
    exact ⟨s', (run_snoc_some _).mpr ⟨s, hs, hs'⟩, hco'⟩

/-- A note stands until it is taken back. -/
theorem pending_until {ops : List Op} (hno : Op.noteDestroyNotPending key ∉ ops) {pend : ChanCirc → Bool}
    (h : pend key = true) : ops.foldl pendAfter pend key = true := by
  induction ops generalizing pend with
  | nil => exact h
  | cons op ops ih =>
    obtain ⟨hop, hno⟩ := not_or.mp (mt List.mem_cons.mpr hno)
    refine ih hno ?_
    cases op with
    | noteDestroyPending k =>
      by_cases hk : key = k
      · simp [pendAfter, hk]
      · simp [pendAfter, Function.update_of_ne hk, h]
    | noteDestroyNotPending k =>
      have hk : key ≠ k := fun e => hop (by rw [e])
      simp [pendAfter, Function.update_of_ne hk, h]
    | _ => exact h

/-! ## Counts -/

/-- The IDs on a channel are distinct and not zero, so there are fewer than 2^32 circuits on a side of it. -/
theorem Coherent.onChannel_lt (h : Coherent pend s) (chan : UInt64) (d : CellDirection) : onChannel s chan d < 2 ^ 32 := by
  -- the IDs, in the order of the circuits
  let idOf (c : Circuit) : Option Nat := ((c.pair d).filter (·.chanId = chan)).map (·.circId.toNat)
  have hidOf : ∀ c n, idOf c = some n ↔ ∃ key, c.pair d = some key ∧ key.chanId = chan ∧ key.circId.toNat = n := by
    intro c n
    simp only [idOf, Option.map_eq_some_iff, Option.filter_eq_some_iff, decide_eq_true_eq, and_assoc]
  have hnodup : (s.circuits.filterMap idOf).Nodup := by
    rw [List.Nodup, List.pairwise_filterMap, List.pairwise_iff_getElem]
    intro i j hi hj hij n hn m hm hnm
    obtain ⟨key, hkey, hchan, hid⟩ := (hidOf _ n).mp hn
    obtain ⟨key', hkey', hchan', hid'⟩ := (hidOf _ m).mp hm
    have hsame : key = key' := by
      cases key
      cases key'
      simp only [ChanCirc.mk.injEq]
      exact ⟨hchan.trans hchan'.symm, UInt32.toNat_inj.mp (hid.trans (hnm.trans hid'.symm))⟩
    have heq : i = j := h.holds_unique
      ((holds_self (List.getElem?_eq_getElem hi)).mpr (Circuit.has_iff.mpr ⟨d, hkey⟩))
      ((holds_self (List.getElem?_eq_getElem hj)).mpr (Circuit.has_iff.mpr ⟨d, hsame ▸ hkey'⟩))
    omega
  have hsub : s.circuits.filterMap idOf ⊆ List.range' 1 (2 ^ 32 - 1) := by
    intro n hn
    obtain ⟨c, hc, hcn⟩ := List.mem_filterMap.mp hn
    obtain ⟨key, hkey, -, rfl⟩ := (hidOf c n).mp hcn
    obtain ⟨i, hi⟩ := List.mem_iff_getElem?.mp hc
    have hne := h.nonzero i c d key hi hkey
    have hlt := key.circId.toNat_lt
    have hpos : key.circId.toNat ≠ 0 := fun e => hne (UInt32.toNat_inj.mp e)
    rw [List.mem_range'_1]
    omega
  have hlen : (s.circuits.filterMap idOf).length = onChannel s chan d := by
    rw [List.length_filterMap_eq_countP, onChannel]
    refine List.countP_congr fun c _ => ?_
    simp only [idOf]
    cases c.pair d with
    | none => simp
    | some key => by_cases hk : key.chanId = chan <;> simp [hk, Option.filter]
  have hle := (List.subperm_of_subset hnodup hsub).length_le
  rw [hlen, List.length_range'] at hle
  omega

/-! ## The whole run -/

theorem Coherent.lookup (h : Coherent pend s) (key : ChanCirc) :
    ∃ t r, circuitGetByCircidChannelEvenIfMarked s key = some (t, r) ∧ (∀ i, r = some i ↔ Holds s i key) ∧
      ∃ t', circuitGetByCircidChannelEvenIfMarked { s with lastCircidChanEnt := none } key = some (t', r) := by
  obtain ⟨last, hget, -⟩ := impl_spec h key
  obtain ⟨last', hget', -⟩ := impl_spec (h.setLast nofun : Coherent pend { s with lastCircidChanEnt := none }) key
  refine ⟨_, _, by rw [circuitGetByCircidChannelEvenIfMarked, hget]; rfl, fun i => ?_, _,
    by rw [circuitGetByCircidChannelEvenIfMarked, hget']; rfl⟩
  rw [← h.entry, view]
  cases htFind s.chanCircidMap key <;> simp

theorem Coherent.inUse (h : Coherent pend s) (hp : pend key = true) :
    ∃ t n, circuitIdInUseOnChannel s key = some (t, n) ∧ n ≠ 0 := by
  obtain ⟨last, hget, -⟩ := impl_spec h key
  refine ⟨_, _, by rw [circuitIdInUseOnChannel, hget]; rfl, ?_⟩
  cases hf : htFind s.chanCircidMap key with
  | none =>
    have hv : view s.chanCircidMap key = none := by rw [view, hf]; rfl
    rw [((h.view_none key).mp hv).1] at hp
    cases hp
  | some e =>
    simp only
    split <;> simp

end

/-- No run of allowed operations fails, and at its end: a lookup finds exactly the circuit that has the pair, with or
without the cache; the counters of a channel are right; and a pair with a pending DESTROY is in use. -/
theorem circuit_id_map_coherent (malloc : List Nat → Nat) (ops : List Op)
    (ha : AllSteps (step malloc) (Allowed heldByAny) init ops) :
    ∃ s, run (step malloc) init ops = some s ∧
      (∀ key, ∃ t r, circuitGetByCircidChannelEvenIfMarked s key = some (t, r) ∧ (∀ i, r = some i ↔ Holds s i key) ∧
        ∃ t', circuitGetByCircidChannelEvenIfMarked { s with lastCircidChanEnt := none } key = some (t', r)) ∧
      (∀ chan d, ((s.channels chan).numCircuits d).toNat = onChannel s chan d) ∧
      ∀ pre key post, ops = pre ++ .noteDestroyPending key :: post → .noteDestroyNotPending key ∉ post →
        ∃ t n, circuitIdInUseOnChannel s key = some (t, n) ∧ n ≠ 0 := by
  obtain ⟨s, hs, hco⟩ := run_coherent malloc ha
  refine ⟨s, hs, hco.lookup, fun chan d => ?_, fun pre key post hops hno => hco.inUse ?_⟩
  · rw [hco.counts, UInt32.toNat_ofNat_of_lt' (hco.onChannel_lt chan d)]
  · rw [hops, List.foldl_append]
    exact pending_until hno (by simp [pendAfter])

/-- The address after those in use. -/
def nextAddr (used : List Nat) : Nat := used.foldl max 0 + 1

/-- A circuit leaves a pair whose DESTROY is queued. -/
theorem circuit_id_map_coherent_of_closing :
    let ops : List Op := [.newCircuit false, .setP 0 5 (some 1), .get ⟨1, 5⟩, .noteDestroyPending ⟨1, 5⟩, .setP 0 0 none]
    ∃ s, run (step nextAddr) init ops = some s ∧ ∃ t n, circuitIdInUseOnChannel s ⟨1, 5⟩ = some (t, n) ∧ n ≠ 0 := by
  intro ops
  have hallowed : AllSteps (step nextAddr) (Allowed heldByAny) init ops := by
    refine (allSteps_cons rfl).mpr ⟨trivial, (allSteps_cons rfl).mpr ⟨?_, (allSteps_cons rfl).mpr ⟨trivial,
      (allSteps_cons rfl).mpr ⟨trivial, (allSteps_cons rfl).mpr ⟨?_, allSteps_nil⟩⟩⟩⟩⟩
    · show SetAllowed (fun _ => True) _ _ _ _ _
      decide
    · show SetAllowed (fun _ => True) _ _ _ _ _
      decide
  obtain ⟨s, hs, -, -, huse⟩ := circuit_id_map_coherent nextAddr ops hallowed
  exact ⟨s, hs, huse [.newCircuit false, .setP 0 5 (some 1), .get ⟨1, 5⟩] ⟨1, 5⟩ [.setP 0 0 none] rfl (by decide)⟩

/-- The pair goes to no side of another circuit. -/
def heldByOthers (circ i : Nat) : Prop := i ≠ circ

/-- A circuit with one pair on both sides is not found any more when one side gives it up; a pair with two notes of a
pending DESTROY is free after one that it is not. -/
theorem shared_pairs_and_double_notes_are_lost :
    let shared : List Op := [.newCircuit false, .setP 0 5 (some 1), .setN 0 5 (some 1), .setN 0 0 none]
    let twice : List Op := [.noteDestroyPending ⟨1, 5⟩, .noteDestroyPending ⟨1, 5⟩, .noteDestroyNotPending ⟨1, 5⟩]
    (AllSteps (step nextAddr) (Allowed heldByOthers) init shared ∧
      ∃ s, run (step nextAddr) init shared = some s ∧ Holds s 0 ⟨1, 5⟩ ∧
        (circuitGetByCircidChannelEvenIfMarked s ⟨1, 5⟩).map (·.2) = some none) ∧
    AllSteps (step nextAddr) (Allowed heldByOthers) init twice ∧
      ∃ s, run (step nextAddr) init twice = some s ∧ (circuitIdInUseOnChannel s ⟨1, 5⟩).map (·.2) = some 0 := by
  intro shared twice
  refine ⟨⟨?_, _, rfl, by decide, by decide⟩, ?_, _, rfl, by decide⟩
  · refine (allSteps_cons rfl).mpr ⟨trivial, (allSteps_cons rfl).mpr ⟨?_, (allSteps_cons rfl).mpr ⟨?_,
      (allSteps_cons rfl).mpr ⟨?_, allSteps_nil⟩⟩⟩⟩
    all_goals
      show SetAllowed (· ≠ 0) _ _ _ _ _
      decide
  · exact (allSteps_cons rfl).mpr ⟨trivial, (allSteps_cons rfl).mpr ⟨trivial, (allSteps_cons rfl).mpr ⟨trivial,
      allSteps_nil⟩⟩⟩

end Badnet.Circuits.Circuitlist
