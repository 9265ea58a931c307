/-
  Badnet.Directory.CounterLog — the log behind `CurrentCounter`.

  `relay_register` and `modifyHealthFlag` write the entry `CurrentCounter` of the log and then increment the counter, a
  `uint8`. As long as no entry is written at 255 (`NoWrap`) a reader gets the operations performed since an upload's
  counter (`counter_unambiguous`).

  `modifyHealthFlag(size, list)` marks the first `size` entries of `list` and logs all of it: the log replays to the
  healthy set exactly if the other entries are not healthy (`replays_iff_lists_only_marked`).
-/

import Badnet.Lib.OpLog
import Badnet.Directory.Registry
import Badnet.Directory.RelayPy

namespace Badnet.Directory

open Lib Function

/-! ## Entries -/

def State.entry (s : State) (k : Nat) : Op UInt16 := (s.CounterOP (.ofNat k), s.CounterList (.ofNat k))

/-- The entries `1, 2, ..., CurrentCounter - 1` of the log, oldest first. -/
def State.entries (s : State) : List (Op UInt16) := (List.range' 1 (s.CurrentCounter.toNat - 1)).map s.entry

/-- The operation a transaction logs when it is taken in `s`. -/
def opOf (s : State) (c : Call) : List (Op UInt16) :=
  match c.tx with
  | .relayRegister => [(true, [s.relayIndex])]
  | .modifyHealthFlag _ list => [(false, list)]
  | _ => []

/-- The operations performed along a run, oldest first. -/
def opsAlong (s : State) : List Call → List (Op UInt16)
  | [] => []
  | c :: cs => opOf s c ++ ((step s c).map fun t => opsAlong t cs).getD []

variable {s t : State} {cs : List Call}

theorem opsAlong_append {ds : List Call} (h : run step s cs = some t) :
    opsAlong s (cs ++ ds) = opsAlong s cs ++ opsAlong t ds := by
  induction cs generalizing s with
  | nil => cases h; rfl
  | cons c cs ih =>
    obtain ⟨u, hu, hr⟩ := Option.bind_eq_some_iff.mp h
    simp [opsAlong, hu, ih hr]

/-- No entry is written at 255. -/
def NoWrap (s : State) (c : Call) : Prop := c.bumps = true → s.CurrentCounter ≠ 255

theorem entries_logOp (h0 : s.CurrentCounter ≠ 0) (h : s.CurrentCounter ≠ 255) (op : Bool)
    (l : List UInt16) : (s.logOp op l).entries = s.entries ++ [(op, l)] := by
  have h0' : s.CurrentCounter.toNat ≠ 0 := fun e => h0 (UInt8.toNat_inj.mp e)
  have h' : s.CurrentCounter.toNat ≠ 255 := fun e => h (UInt8.toNat_inj.mp e)
  have hlt := s.CurrentCounter.toNat_lt
  have hn : (s.CurrentCounter + 1).toNat - 1 = (s.CurrentCounter.toNat - 1) + 1 := by
    rw [toNat_succ8 (by omega)]; omega
  have hlast : 1 + (s.CurrentCounter.toNat - 1) = s.CurrentCounter.toNat := by omega
  rw [State.entries, logOp_counter, hn, List.range'_1_concat, List.map_append, List.map_singleton, hlast]
  congr 1
  · refine List.map_congr_left fun k hk => ?_
    have hk' := List.mem_range'_1.mp hk
    have hne : UInt8.ofNat k ≠ s.CurrentCounter := by
      intro e
      have := congrArg UInt8.toNat e
      rw [UInt8.toNat_ofNat_of_lt' (show k < 256 by omega)] at this
      omega
    simp [State.entry, State.logOp, hne]
  · simp [State.entry, State.logOp]

theorem succ_ne_zero8 {n : UInt8} (h : n ≠ 255) : n + 1 ≠ 0 := by
  intro e
  have h' : n.toNat ≠ 255 := fun e => h (UInt8.toNat_inj.mp e)
  have hlt := n.toNat_lt
  have he := congrArg UInt8.toNat e
  rw [toNat_succ8 (by omega)] at he
  simp at he

theorem entries_step {c : Call} (hs : s.CurrentCounter ≠ 0) (hw : NoWrap s c) (h : step s c = some t) :
    t.CurrentCounter ≠ 0 ∧ t.entries = s.entries ++ opOf s c := by
  cases step_iff.mp h with
  | register a _ => exact ⟨succ_ne_zero8 (hw rfl), entries_logOp hs (hw rfl) _ _⟩
  | upload a u _ | cancel a _ | period p => exact ⟨hs, (List.append_nil _).symm⟩
  | modify size list _ _ _ => exact ⟨succ_ne_zero8 (hw rfl), entries_logOp hs (hw rfl) _ _⟩

theorem entries_run (hs : s.CurrentCounter ≠ 0) (hw : AllSteps step NoWrap s cs)
    (h : run step s cs = some t) : t.CurrentCounter ≠ 0 ∧ t.entries = s.entries ++ opsAlong s cs := by
  induction cs using List.reverseRecOn generalizing t with
  | nil => cases h; exact ⟨hs, (List.append_nil _).symm⟩
  | append_singleton cs c ih =>
    obtain ⟨u, hu, hc⟩ := (run_snoc_some step).mp h
    obtain ⟨hw, hl⟩ := allSteps_snoc.mp hw
    obtain ⟨hu0, he⟩ := ih hw hu
    obtain ⟨ht0, ht⟩ := entries_step hu0 (hl u hu) hc
    refine ⟨ht0, ?_⟩
    rw [ht, he, opsAlong_append hu]
    simp [opsAlong, hc]

theorem length_entries (s : State) : s.entries.length = s.CurrentCounter.toNat - 1 := by
  simp [State.entries]

theorem noWrap_of_count {o : Address} (hb : cs.countP Call.bumps ≤ 254) : AllSteps step NoWrap (deploy o) cs := by
  intro pre c t hp ht hc he
  have hle := hp.sublist.countP_le (p := Call.bumps)
  rw [List.countP_append] at hle
  have := counter_eq ht
  simp only [List.countP_singleton, hc, if_true] at hle
  rw [he] at this
  simp at this
  omega

/-! ## Reading the log -/

/-- `relay_get_counter_list` fills its arrays from the last position on: after `k` turns the last `k` positions hold
the entries read, latest first. -/
theorem counterList_loop {c : Nat} {n : Nat} (hc : c + n = s.CurrentCounter.toNat) :
    ∀ k ≤ n, run (counterListStep s) (List.replicate n false, List.replicate n [])
        ((List.range' c k).map UInt8.ofNat) =
      some (List.replicate (n - k) false ++ (((List.range' c k).map s.entry).reverse.map Prod.fst),
        List.replicate (n - k) [] ++ (((List.range' c k).map s.entry).reverse.map Prod.snd)) := by
  have hlt := s.CurrentCounter.toNat_lt
  intro k
  induction k with
  | zero => simp
  | succ k ih =>
    intro hk
    have hpos : (s.CurrentCounter - UInt8.ofNat (c + k) - 1).toNat = n - k - 1 := by
      have h1 : (UInt8.ofNat (c + k)).toNat = c + k := UInt8.toNat_ofNat_of_lt' (show c + k < 256 by omega)
      have h2 : (s.CurrentCounter - UInt8.ofNat (c + k)).toNat = n - k := by
        rw [UInt8.toNat_sub_of_le _ _ (UInt8.le_iff_toNat_le.mpr (by omega)), h1]; omega
      rw [UInt8.toNat_sub_of_le _ _ (UInt8.le_iff_toNat_le.mpr (by rw [h2]; show 1 ≤ n - k; omega)), h2]
      rfl
    have hset : ∀ {β : Type} (x v : β) (ys : List β),
        writeAt (List.replicate (n - k) x ++ ys) (n - k - 1) v = some (List.replicate (n - (k + 1)) x ++ v :: ys) := by
      intro β x v ys
      have he : n - k = (n - (k + 1)) + 1 := by omega
      have hi : n - k - 1 = n - (k + 1) := by omega
      rw [writeAt, if_pos (by simp; omega), hi, he, List.replicate_succ']
      simp
    rw [List.range'_1_concat, List.map_append, run_append, ih (by omega)]
    simp only [Option.bind_some, List.map_singleton, run_cons, run_nil, counterListStep, hpos, hset]
    simp [State.entry]

theorem relayGetCounterList_eq {a : Address} {c : UInt8} (ha : (s.relayOf a).registered = true)
    (hc : c < s.CurrentCounter) (hc0 : c ≠ 0) :
    relayGetCounterList s a c = some ((s.entries.drop (c.toNat - 1)).reverse.map Prod.fst,
      (s.entries.drop (c.toNat - 1)).reverse.map Prod.snd) := by
  have hlt := UInt8.lt_iff_toNat_lt.mp hc
  have hc0' : c.toNat ≠ 0 := fun e => hc0 (UInt8.toNat_inj.mp e)
  have hn : (s.CurrentCounter - c).toNat = s.CurrentCounter.toNat - c.toNat :=
    UInt8.toNat_sub_of_le _ _ (UInt8.le_iff_toNat_le.mpr (by omega))
  have hdrop : s.entries.drop (c.toNat - 1) = (List.range' c.toNat (s.CurrentCounter.toNat - c.toNat)).map s.entry := by
    rw [State.entries, ← List.map_drop, List.drop_range']
    congr 2 <;> omega
  rw [relayGetCounterList, if_pos ha, if_pos hc, hn, hdrop]
  simpa using counterList_loop (s := s) (c := c.toNat) (n := s.CurrentCounter.toNat - c.toNat) (by omega) _ (Nat.le_refl _)

/-- Where no entry is written at 255, the counter of an earlier state stays unambiguous: at another counter the log
since can be read and is what happened, latest first; at the same counter nothing happened. -/
theorem counter_unambiguous (o : Address) (cs ds : List Call) (s1 s2 : State)
    (h1 : run step (deploy o) cs = some s1) (h2 : run step s1 ds = some s2)
    (hw : AllSteps step NoWrap (deploy o) (cs ++ ds)) :
    (s1.CurrentCounter ≠ s2.CurrentCounter → ∀ a, (s2.relayOf a).registered = true →
      relayGetCounterList s2 a s1.CurrentCounter =
        some ((opsAlong s1 ds).reverse.map Prod.fst, (opsAlong s1 ds).reverse.map Prod.snd)) ∧
    (s1.CurrentCounter = s2.CurrentCounter → opsAlong s1 ds = []) := by
  obtain ⟨hw1, hw2⟩ := (allSteps_append h1).mp hw
  obtain ⟨hc1, -⟩ := entries_run (by simp [deploy]) hw1 h1
  obtain ⟨hc2, he⟩ := entries_run hc1 hw2 h2
  have hlen := congrArg List.length he
  have hpos1 : s1.CurrentCounter.toNat ≠ 0 := fun e => hc1 (UInt8.toNat_inj.mp e)
  have hpos2 : s2.CurrentCounter.toNat ≠ 0 := fun e => hc2 (UInt8.toNat_inj.mp e)
  rw [List.length_append, length_entries, length_entries] at hlen
  constructor
  · intro hne a ha
    have hne' : s1.CurrentCounter.toNat ≠ s2.CurrentCounter.toNat := fun e => hne (UInt8.toNat_inj.mp e)
    have hlt : s1.CurrentCounter < s2.CurrentCounter := by rw [UInt8.lt_iff_toNat_lt]; omega
    rw [relayGetCounterList_eq ha hlt hc1, he, ← length_entries, List.drop_left]
  · intro e
    rw [e] at hlen
    exact List.eq_nil_of_length_eq_zero (by omega)

/-- A registration, then one health change that marks nobody and logs nobody. -/
theorem counter_unambiguous_one_entry :
    let cs : List Call := [⟨1, .relayRegister⟩]
    let ds : List Call := [⟨0, .modifyHealthFlag 0 []⟩]
    ∃ s1 s2, run step (deploy 0) cs = some s1 ∧ run step s1 ds = some s2 ∧
      relayGetCounterList s2 1 s1.CurrentCounter = some ([false], [[]]) := by
  intro cs ds
  refine ⟨_, _, rfl, rfl, ?_⟩
  have hw : AllSteps step NoWrap (deploy 0) (cs ++ ds) := noWrap_of_count (by decide)
  exact (counter_unambiguous 0 cs ds _ _ rfl rfl hw).1 (by decide) 1 rfl

theorem run_idle (s : State) (n : Nat) :
    ∃ t, run step s (List.replicate n ⟨s.owner, .modifyHealthFlag 0 []⟩) = some t ∧ t.owner = s.owner ∧
      t.CurrentCounter = s.CurrentCounter + UInt8.ofNat n ∧ t.relay = s.relay ∧ t.relayaddr = s.relayaddr := by
  induction n with
  | zero => exact ⟨s, rfl, rfl, by simp, rfl, rfl⟩
  | succ n ih =>
    obtain ⟨t, ht, ho, hc, hr, ha⟩ := ih
    have hstep : step t ⟨s.owner, .modifyHealthFlag 0 []⟩ = some (t.logOp false []) := by
      rw [← ho, step_iff]
      simpa [marked_nil] using Step.modify (s := t) 0 [] (by simp) (by simp) (by simp)
    refine ⟨t.logOp false [], ?_, ho, ?_, hr, ha⟩
    · rw [List.replicate_succ', run_snoc_some]
      exact ⟨t, ht, hstep⟩
    · rw [logOp_counter, hc, UInt8.ofNat_add, UInt8.add_assoc]
      rfl

/-- Relay 1 registers; 254 further entries wrap the counter to 0, and the counter 2 of
    the state after the registration is refused though the log has grown since. -/
theorem a_wrapped_counter_refuses_an_upload :
    ¬ ∀ (o : Address) (cs ds : List Call) (s1 s2 : State),
      run step (deploy o) cs = some s1 → run step s1 ds = some s2 →
      (s1.CurrentCounter ≠ s2.CurrentCounter → ∀ a, (s2.relayOf a).registered = true →
        relayGetCounterList s2 a s1.CurrentCounter =
          some ((opsAlong s1 ds).reverse.map Prod.fst, (opsAlong s1 ds).reverse.map Prod.snd)) ∧
      (s1.CurrentCounter = s2.CurrentCounter → opsAlong s1 ds = []) := by
  intro h
  let s1 : State := ((deploy 0).enrolled 1).logOp true [1]
  obtain ⟨s2, hs2, -, hc, hr, ha⟩ := run_idle s1 254
  have hreg : (s2.relayOf 1).registered = true := by rw [State.relayOf, hr, ha]; rfl
  have hc0 : s2.CurrentCounter = 0 := by
    have hc1 : s1.CurrentCounter = 2 := rfl
    rw [hc, hc1]; decide
  have := (h 0 [⟨1, .relayRegister⟩] _ s1 s2 rfl hs2).1 (by rw [hc0]; decide) 1 hreg
  rw [relayGetCounterList, if_pos hreg, if_neg (by rw [hc0]; decide)] at this
  cases this

/-! ## Replaying the log -/

/-- The set `relayGetSet` computes when it reads in `s`. -/
def State.healthySet (s : State) : List Nat :=
  RelayPy.healthyOf s.relayIndex.toNat (s.unhealthyRelaySet.map UInt16.toNat)

theorem mem_healthySet {n : Nat} :
    n ∈ s.healthySet ↔ 1 ≤ n ∧ n < s.relayIndex.toNat ∧ n ∉ s.unhealthyRelaySet.map UInt16.toNat := by
  simp only [State.healthySet, RelayPy.healthyOf, List.mem_filter, List.mem_range'_1, decide_eq_true_eq, and_assoc]
  constructor <;> rintro ⟨h1, h2, h3⟩ <;> exact ⟨h1, by omega, h3⟩

theorem toNat_mem_map {i : UInt16} {l : List UInt16} : i.toNat ∈ l.map UInt16.toNat ↔ i ∈ l := by
  rw [List.mem_map]
  constructor
  · rintro ⟨j, hj, e⟩
    rwa [← UInt16.toNat_inj.mp e]
  · intro h; exact ⟨i, h, rfl⟩

theorem toNat_mem_healthySet {i : UInt16} :
    i.toNat ∈ s.healthySet ↔ i ≠ 0 ∧ i < s.relayIndex ∧ i ∉ s.unhealthyRelaySet := by
  have h0 : 1 ≤ i.toNat ↔ i ≠ 0 := by
    rw [Nat.one_le_iff_ne_zero]
    exact not_congr ⟨fun e => UInt16.toNat_inj.mp e, fun e => by rw [e]; rfl⟩
  rw [mem_healthySet, toNat_mem_map, h0, UInt16.lt_iff_toNat_lt]

/-- From the empty set, the entries `1, 2, ..., CurrentCounter - 1` in order. -/
def State.replayLog (s : State) : Finset UInt16 := replay ∅ s.entries

def Replays (s : State) : Prop := ∀ i : UInt16, i ∈ s.replayLog ↔ i.toNat ∈ s.healthySet

/-- Past its first `size` entries, a `modifyHealthFlag` lists no other healthy index. -/
def ListsOnlyMarked (s : State) (c : Call) : Prop :=
  match c.tx with
  | .modifyHealthFlag size list => ∀ x ∈ list, x.toNat ∈ s.healthySet → x ∈ list.take size.toNat
  | _ => True

theorem replays_step {c : Call} (hs : Registry s) (hn : c.registers = true → s.relayIndex.toNat < 65535)
    (h0 : s.CurrentCounter ≠ 0) (hw : NoWrap s c) (hp : Replays s) (h : step s c = some t) :
    Replays t ↔ ListsOnlyMarked s c := by
  have hlog : t.replayLog = replay s.replayLog (opOf s c) := by
    rw [State.replayLog, (entries_step h0 hw h).2]
    simp [State.replayLog, replay]
  cases step_iff.mp h with
  | register a _ =>
    refine iff_of_true (fun i => ?_) trivial
    have hlt : i < s.relayIndex + 1 ↔ i < s.relayIndex ∨ i = s.relayIndex := by
      rw [UInt16.lt_iff_toNat_lt, toNat_succ16 (hn rfl), UInt16.lt_iff_toNat_lt, ← UInt16.toNat_inj]
      omega
    have hself : s.relayIndex ∉ s.unhealthyRelaySet := fun hm => UInt16.lt_irrefl _ (hs.deny _ hm).2
    rw [hlog]
    simp only [opOf, replay, List.foldl_cons, List.foldl_nil, mem_applyOp, if_true, hp i, toNat_mem_healthySet,
      logOp_relayIndex, enrolled_relayIndex, logOp_unhealthy, enrolled_unhealthy, hlt, List.mem_singleton]
    constructor
    · rintro (⟨h1, h2, h3⟩ | rfl)
      · exact ⟨h1, .inl h2, h3⟩
      · exact ⟨hs.pos, .inr rfl, hself⟩
    · rintro ⟨h1, h2 | rfl, h3⟩
      · exact .inl ⟨h1, h2, h3⟩
      · exact .inr rfl
  | upload a u _ | cancel a _ | period p => exact iff_of_true hp trivial
  | modify size list _ _ _ =>
    have hmem : ∀ i, (i ∈ ((s.marked (list.take size.toNat)).logOp false list).replayLog ↔
        i.toNat ∈ s.healthySet ∧ i ∉ list) := by
      intro i
      rw [hlog]
      simp [opOf, replay, mem_applyOp, hp i]
    have hset : ∀ i : UInt16, (i.toNat ∈ ((s.marked (list.take size.toNat)).logOp false list).healthySet ↔
        i.toNat ∈ s.healthySet ∧ i ∉ list.take size.toNat) := by
      intro i
      simp [toNat_mem_healthySet, and_assoc]
    simp only [Replays, ListsOnlyMarked, hmem, hset, and_congr_right_iff]
    constructor
    · intro h x hx hh
      by_contra hnot
      exact ((h x hh).mpr hnot) hx
    · intro h i hh
      exact ⟨fun hnot hm => hnot (List.mem_of_mem_take hm), fun hnot hm => hnot (h i hm hh)⟩

theorem registers_le_bumps (cs : List Call) : cs.countP Call.registers ≤ cs.countP Call.bumps := by
  refine List.countP_mono_left fun c _ hc => ?_
  obtain ⟨a, tx⟩ := c
  cases tx <;> simp_all [Call.registers, Call.bumps]

/-- In a run with at most 254 entries the log replays to the healthy set in every state exactly if every
`modifyHealthFlag` lists no healthy index beyond those it marks. -/
theorem replays_iff_lists_only_marked (o : Address) (cs : List Call) (s : State)
    (h : run step (deploy o) cs = some s) (hb : cs.countP Call.bumps ≤ 254) :
    AllStates step Replays (deploy o) cs ↔ AllSteps step ListsOnlyMarked (deploy o) cs := by
  have h0 : Replays (deploy o) := by
    intro i
    simp [State.replayLog, State.entries, State.healthySet, RelayPy.healthyOf, replay, deploy]
  refine allStates_iff_allSteps h0 h fun pre c u v hp hu hr hv => ?_
  have hw : AllSteps step NoWrap (deploy o) cs := noWrap_of_count hb
  have hpre : pre <+: cs := (List.prefix_append _ _).trans hp
  have hregs : (pre ++ [c]).countP Call.registers ≤ 254 :=
    le_trans (le_trans (registers_le_bumps _) hp.sublist.countP_le) hb
  rw [List.countP_append] at hregs
  have hidx := relayIndex_eq hu
  refine replays_step (registry_run hu (by omega)) (fun _ => by omega) ?_ (hw pre c u hp hu) hr hv
  exact (entries_run (by simp [deploy]) (fun a b t hq => hw a b t (hq.trans hpre)) hu).1

/-- Relays 1 and 2 register and relay 2 is marked: the log replays to `{1}`. -/
theorem replays_iff_lists_only_marked_two_relays :
    let cs : List Call := [⟨1, .relayRegister⟩, ⟨2, .relayRegister⟩, ⟨0, .modifyHealthFlag 1 [2]⟩]
    ∃ s, run step (deploy 0) cs = some s ∧ AllSteps step ListsOnlyMarked (deploy 0) cs ∧ Replays s := by
  intro cs
  have hiff := replays_iff_lists_only_marked 0 cs _ rfl (by decide)
  have hc : AllSteps step ListsOnlyMarked (deploy 0) cs :=
    (allSteps_cons rfl).mpr ⟨trivial, (allSteps_cons rfl).mpr ⟨trivial,
      (allSteps_cons rfl).mpr ⟨fun _ hx _ => hx, allSteps_nil⟩⟩⟩
  exact ⟨_, rfl, hc, hiff.mpr hc cs _ (List.prefix_refl _) rfl⟩

/-- `modifyHealthFlag(0, [1])` marks nobody and logs the deletion of the healthy relay 1. -/
theorem an_unmarked_entry_is_logged :
    let cs : List Call := [⟨1, .relayRegister⟩, ⟨0, .modifyHealthFlag 0 [1]⟩]
    ∃ s, run step (deploy 0) cs = some s ∧ cs.countP Call.bumps ≤ 254 ∧ ¬ Replays s := by
  intro cs
  refine ⟨_, rfl, by decide, fun h => ?_⟩
  have := h 1
  exact absurd (this.mpr (by decide)) (by decide)

end Badnet.Directory
