/-
  Badnet.Directory.Recipients — the recipient set relays encrypt to and decrypt with.

  - `recipients_downloadable_iff`: the set is an index range without the deny list; `relay_download_SRI` asks the
    relay's own flag, which `relay_cancellation` clears and the list does not show.
  - `snapshot_iff_same_set`: `relayGetSet` reads set and counter in two calls, which belong to one state when the
    healthy set is the same at both.
  - `download_rebuilds_iff`: a downloader rebuilds the set of a header from its own one and the log; taking back a
    deletion raises a `TypeError`.
-/

import Badnet.Directory.CounterLog

namespace Badnet.Directory

open Lib Function

/-! ## relayGetSet -/

variable {a o : Address} {s t : State} {g : RelayPy.Globals} {c : Call} {cs : List Call} {i j : UInt16}
  {S : List Nat}

theorem relayGetSet_ok : RelayPy.relayGetSet a s t = .ok g ↔
      (s.relayOf a).registered = true ∧ (t.relayOf a).registered = true ∧
        g = ⟨t.CurrentCounter.toNat, s.healthySet⟩ := by
  unfold RelayPy.relayGetSet RelayPy.relayGetIndexSet RelayPy.relayGetCurrentCounter relayGetIndexSet
    relayGetCurrentCounter
  by_cases hs : (s.relayOf a).registered = true
  · by_cases ht : (t.relayOf a).registered = true
    · simp only [hs, ht, if_true, RelayPy.call, true_and]
      show Except.ok _ = Except.ok g ↔ _
      rw [Except.ok.injEq, eq_comm]
      rfl
    · simp only [hs, ht, if_true, Bool.false_eq_true, if_false, RelayPy.call, false_and, and_false, iff_false]
      intro h; cases h
  · simp only [hs, Bool.false_eq_true, if_false, RelayPy.call, false_and, iff_false]
    intro h; cases h

/-! ## (1) Every recipient can be downloaded -/

/-- Only a relay that is already marked unhealthy cancels. -/
def CancelsUnhealthy (s : State) (c : Call) : Prop :=
  c.tx = .relayCancellation → (s.relayOf c.sender).healthflag = false

/-- Every index of the recipient set is flagged healthy. -/
def Live (s : State) : Prop := ∀ i : UInt16, i.toNat ∈ s.healthySet → (s.relay i).healthflag = true

theorem live_step (hs : Live s) (hc : CancelsUnhealthy s c) (h : step s c = some t) : Live t := by
  unfold Live at hs ⊢
  simp only [toNat_mem_healthySet] at hs ⊢
  cases step_iff.mp h with
  | register a _ =>
    intro i hi
    obtain ⟨h0, hlt, hd⟩ := hi
    simp only [logOp_relayIndex, enrolled_relayIndex, logOp_unhealthy, enrolled_unhealthy] at hlt hd
    by_cases e : i = s.relayIndex
    · simp [State.enrolled, e]
    · have hlt' : i < s.relayIndex := by
        have e' : i.toNat ≠ s.relayIndex.toNat := fun he => e (UInt16.toNat_inj.mp he)
        have hl := UInt16.lt_iff_toNat_lt.mp hlt
        rw [UInt16.toNat_add] at hl
        simp only [UInt16.reduceToNat] at hl
        rw [UInt16.lt_iff_toNat_lt]; omega
      simpa [State.enrolled, e] using hs i ⟨h0, hlt', hd⟩
  | upload a u _ =>
    intro i hi
    by_cases e : i = s.relayaddr a
    · have := hs i hi
      subst e
      simpa [State.uploaded, Relay.store, State.relayOf] using this
    · simpa [State.uploaded, e] using hs i hi
  | cancel a _ =>
    intro i hi
    have hh := hs i hi
    have hne : i ≠ s.relayaddr a := by
      intro e
      have := hc rfl
      rw [State.relayOf, ← e, hh] at this
      cases this
    simpa [State.cancelled, hne] using hh
  | period p => exact hs
  | modify size list _ _ _ =>
    intro i hi
    obtain ⟨h0, hlt, hd⟩ := hi
    simp only [logOp_unhealthy, marked_unhealthy, List.mem_append, not_or] at hd
    rw [logOp_relay, marked_healthflag]
    exact ⟨hs i ⟨h0, hlt, hd.1⟩, hd.2⟩

theorem live_run (hs : Live s) (hc : AllSteps step CancelsUnhealthy s cs) (h : run step s cs = some t) : Live t :=
  run_inv_steps (fun _ _ _ hu hl => live_step hu hl) hs hc h

theorem live_deploy (o : Address) : Live (deploy o) := by
  intro i hi
  simp [State.healthySet, RelayPy.healthyOf, deploy] at hi

/-- A relay that cancelled while healthy: handed out, not on the deny list, and not
    registered. -/
def Gone (i : UInt16) (s : State) : Prop :=
  i ≠ 0 ∧ i < s.relayIndex ∧ i ∉ s.unhealthyRelaySet ∧ (s.relay i).registered = false

theorem gone_step (hs : Registry s)
    (hn : c.registers = true → s.relayIndex.toNat < 65535) (hg : Gone i s) (h : step s c = some t) : Gone i t := by
  obtain ⟨h0, hlt, hd, hr⟩ := hg
  obtain ⟨hr', hlt'⟩ := unregistered_step hn hlt hr h
  refine ⟨h0, hlt', ?_, hr'⟩
  cases step_iff.mp h with
  | register a _ => exact hd
  | upload a u _ => exact hd
  | cancel a _ => exact hd
  | period p => exact hd
  | modify size list _ _ hx =>
    rw [logOp_unhealthy, marked_unhealthy, List.mem_append, not_or]
    refine ⟨hd, fun hi => ?_⟩
    have := ((hs.health i).mp (hx i hi)).1
    rw [hr] at this
    cases this

/-- Cancelling while healthy leaves the index in the set for good. -/
theorem gone_cancelled (hs : Registry s) (ha : (s.relayOf a).healthflag = true) :
    Gone (s.relayaddr a) (s.cancelled a) := by
  have hh := (hs.health _).mp ha
  have hrange := hs.range _ hh.1
  exact ⟨hrange.1, hrange.2, hh.2, by simp [State.cancelled]⟩

theorem cancels_or_gone (h : run step (deploy o) cs = some s)
    (hn : cs.countP Call.registers < 65535) : AllSteps step CancelsUnhealthy (deploy o) cs ∨ ∃ i, Gone i s := by
  refine run_inv_hist (I := fun cs s => cs.countP Call.registers < 65535 →
    AllSteps step CancelsUnhealthy (deploy o) cs ∨ ∃ i, Gone i s) (fun _ => .inl allSteps_nil) ?_ h hn
  intro cs t c u ht ih hu hn
  have hidx := relayIndex_lt ht hn
  rw [List.countP_append] at hn
  have hs := registry_run ht (by omega)
  rcases ih (by omega) with hc | ⟨i, hi⟩
  · by_cases hcu : CancelsUnhealthy t c
    · refine .inl (allSteps_snoc.mpr ⟨hc, fun v hv => ?_⟩)
      rw [ht] at hv; cases hv
      exact hcu
    · unfold CancelsUnhealthy at hcu
      simp only [Classical.not_imp, Bool.not_eq_false] at hcu
      obtain ⟨a, tx⟩ := c
      obtain ⟨rfl, hh⟩ := hcu
      refine .inr ⟨t.relayaddr a, ?_⟩
      cases step_iff.mp hu with
      | cancel _ _ => exact gone_cancelled hs hh
  · exact .inr ⟨i, gone_step hs hidx hi hu⟩

theorem relayDownloadSRI_some (ha : (s.relayOf a).registered = true) :
    (∃ r, relayDownloadSRI s a i = some r) ↔ i < s.relayIndex ∧ (s.relay i).healthflag = true := by
  unfold relayDownloadSRI
  rw [if_pos ha]
  by_cases h : i < s.relayIndex ∧ (s.relay i).healthflag = true
  · simp [h]
  · simp only [h, if_false, reduceCtorEq, exists_false]

theorem relayDownloadSRI_eq (ha : (s.relayOf a).registered = true)
    (hlt : i < s.relayIndex) (hh : (s.relay i).healthflag = true) :
    relayDownloadSRI s a i = some ((s.relay i).counter, (s.relay i).Hdr, (s.relay i).encryptedSRI) := by
  unfold relayDownloadSRI
  rw [if_pos ha, if_pos ⟨hlt, hh⟩]

/-- No entry of the set that `relayGetSet` returns meets a reverted download. -/
def Downloadable (s : State) (a : Address) (g : RelayPy.Globals) : Prop :=
  ∀ n ∈ g.relaySet, ∃ r, relayDownloadSRI s a (.ofNat n) = some r

theorem downloadable_iff_live (ha : (s.relayOf a).registered = true) (n : Nat) :
    Downloadable s a ⟨n, s.healthySet⟩ ↔ Live s := by
  unfold Downloadable Live
  simp only [relayDownloadSRI_some ha]
  constructor
  · intro h i hi
    have := (h i.toNat hi).2
    rwa [UInt16.ofNat_toNat] at this
  · intro h n hn
    have hlt := (mem_healthySet.mp hn).2.1
    have hsz := s.relayIndex.toNat_lt
    have hi : (UInt16.ofNat n).toNat = n := UInt16.toNat_ofNat_of_lt' (show n < 65536 by omega)
    exact ⟨by rw [UInt16.lt_iff_toNat_lt, hi]; exact hlt, h _ (by rw [hi]; exact hn)⟩

/-- For every state of every run and every registered caller: every recipient can be downloaded if each relay that
cancelled was unhealthy then, and, before `relayIndex` wraps, only then. -/
theorem recipients_downloadable_iff (o : Address) (cs : List Call) (s : State)
    (h : run step (deploy o) cs = some s) (a : Address) (g : RelayPy.Globals)
    (hg : RelayPy.relayGetSet a s s = .ok g) :
    (AllSteps step CancelsUnhealthy (deploy o) cs → Downloadable s a g) ∧
    (cs.countP Call.registers < 65535 →
      (Downloadable s a g ↔ AllSteps step CancelsUnhealthy (deploy o) cs)) := by
  obtain ⟨ha, -, rfl⟩ := relayGetSet_ok.mp hg
  rw [downloadable_iff_live ha]
  have hlive : AllSteps step CancelsUnhealthy (deploy o) cs → Live s := fun hc => live_run (live_deploy o) hc h
  refine ⟨hlive, fun hn => ⟨fun hl => ?_, hlive⟩⟩
  rcases cancels_or_gone h hn with hc | ⟨i, h0, hlt, hd, hr⟩
  · exact hc
  · have hh := hl i (toNat_mem_healthySet.mpr ⟨h0, hlt, hd⟩)
    have := (((registry_run h hn).health i).mp hh).1
    rw [hr] at this
    cases this

/-- Relay 2 is marked and then cancels; relay 1 downloads its set `[1]`. -/
theorem recipients_downloadable_iff_unhealthy_cancels :
    let cs : List Call := [⟨1, .relayRegister⟩, ⟨2, .relayRegister⟩, ⟨0, .modifyHealthFlag 1 [2]⟩, ⟨2, .relayCancellation⟩]
    ∃ s, run step (deploy 0) cs = some s ∧ Downloadable s 1 ⟨4, [1]⟩ := by
  intro cs
  refine ⟨_, rfl, ?_⟩
  refine (recipients_downloadable_iff 0 cs _ rfl 1 ⟨4, [1]⟩ (relayGetSet_ok.mpr ⟨rfl, rfl, rfl⟩)).1 ?_
  exact (allSteps_cons rfl).mpr ⟨nofun, (allSteps_cons rfl).mpr ⟨nofun, (allSteps_cons rfl).mpr ⟨nofun,
    (allSteps_cons rfl).mpr ⟨fun _ => rfl, allSteps_nil⟩⟩⟩⟩

/-- Relay 2 cancels while healthy: it stays in relay 1's set `[1, 2]`, and its download
    reverts. -/
theorem a_cancelled_relay_stays_a_recipient :
    ∃ s, run step (deploy 0) [⟨1, .relayRegister⟩, ⟨2, .relayRegister⟩, ⟨2, .relayCancellation⟩] = some s ∧
      RelayPy.relayGetSet 1 s s = .ok ⟨3, [1, 2]⟩ ∧ relayDownloadSRI s 1 2 = none :=
  ⟨_, rfl, relayGetSet_ok.mpr ⟨rfl, rfl, rfl⟩, rfl⟩

/-! ## (2) Set and counter of one state -/

theorem healthySet_of_no_bumps (h : run step s cs = some t)
    (hb : cs.countP Call.bumps = 0) : t.healthySet = s.healthySet := by
  induction cs generalizing s with
  | nil => cases h; rfl
  | cons c cs ih =>
    obtain ⟨u, hu, hr⟩ := Option.bind_eq_some_iff.mp h
    rw [List.countP_cons] at hb
    rw [ih hr (by omega)]
    cases step_iff.mp hu with
    | register a _ => simp [Call.bumps] at hb
    | upload a u _ => rfl
    | cancel a _ => rfl
    | period p => rfl
    | modify size list _ _ _ => simp [Call.bumps] at hb

/-- Short of a wrap, two states of a run with the same counter have the same set. -/
theorem same_counter_same_set {xs ys : List Call}
    (hs : run step (deploy o) xs = some s) (ht : run step (deploy o) (xs ++ ys) = some t)
    (hb : (xs ++ ys).countP Call.bumps ≤ 254) (hc : s.CurrentCounter = t.CurrentCounter) :
    t.healthySet = s.healthySet := by
  have h1 := counter_eq hs
  have h2 := counter_eq ht
  obtain ⟨u, hu, hr⟩ := (run_append_some step).mp ht
  rw [hs] at hu; cases hu
  rw [List.countP_append] at hb h2
  rw [hc] at h1
  exact healthySet_of_no_bumps hr (by omega)

/-- A state of the run `cs` has both the counter and the set that were returned. -/
def Snapshot (o : Address) (cs : List Call) (g : RelayPy.Globals) : Prop :=
  ∃ p u, p <+: cs ∧ run step (deploy o) p = some u ∧ u.CurrentCounter.toNat = g.Counter ∧ u.healthySet = g.relaySet

theorem snapshot_same_set {xs : List Call} (hp : xs <+: cs)
    (ht : run step (deploy o) xs = some t) (hb : cs.countP Call.bumps ≤ 254)
    (h : Snapshot o cs ⟨t.CurrentCounter.toNat, S⟩) : S = t.healthySet := by
  obtain ⟨p, u, hpc, hu, hc, hset⟩ := h
  have hc' : u.CurrentCounter = t.CurrentCounter := UInt8.toNat_inj.mp hc
  subst hset
  rcases List.prefix_or_prefix_of_prefix hpc hp with ⟨ys, rfl⟩ | ⟨ys, rfl⟩
  · exact (same_counter_same_set hu ht (le_trans hp.sublist.countP_le hb) hc').symm
  · exact same_counter_same_set ht hu (le_trans hpc.sublist.countP_le hb) hc'.symm

/-- `relayGetSet` reads the index set in `s` and, after the transactions `mid`, the counter in `t`. What it returns
belongs to one state if the healthy set is the same in both, and, with at most 254 entries, only then. -/
theorem snapshot_iff_same_set (o wallet : Address) (pre mid post : List Call) (s t : State) (g : RelayPy.Globals)
    (hs : run step (deploy o) pre = some s) (ht : run step s mid = some t)
    (hg : RelayPy.relayGetSet wallet s t = .ok g) :
    (s.healthySet = t.healthySet → Snapshot o (pre ++ mid ++ post) g) ∧
    ((pre ++ mid ++ post).countP Call.bumps ≤ 254 →
      (Snapshot o (pre ++ mid ++ post) g ↔ s.healthySet = t.healthySet)) := by
  obtain ⟨-, -, rfl⟩ := relayGetSet_ok.mp hg
  have hrun : run step (deploy o) (pre ++ mid) = some t := (run_append_some step).mpr ⟨s, hs, ht⟩
  have hp : pre ++ mid <+: pre ++ mid ++ post := List.prefix_append _ _
  have hsnap : s.healthySet = t.healthySet → Snapshot o (pre ++ mid ++ post) ⟨t.CurrentCounter.toNat, s.healthySet⟩ :=
    fun heq => ⟨pre ++ mid, t, hp, hrun, rfl, heq.symm⟩
  exact ⟨hsnap, fun hb => ⟨fun h => snapshot_same_set hp hrun hb h, hsnap⟩⟩

/-- A cancellation falls between the two reads. -/
theorem snapshot_iff_same_set_cancellation :
    ∃ s t, run step (deploy 0) [⟨1, .relayRegister⟩, ⟨2, .relayRegister⟩] = some s ∧
      run step s [⟨2, .relayCancellation⟩] = some t ∧ RelayPy.relayGetSet 1 s t = .ok ⟨3, [1, 2]⟩ ∧
      Snapshot 0 [⟨1, .relayRegister⟩, ⟨2, .relayRegister⟩, ⟨2, .relayCancellation⟩] ⟨3, [1, 2]⟩ := by
  refine ⟨_, _, rfl, rfl, relayGetSet_ok.mpr ⟨rfl, rfl, rfl⟩, ?_⟩
  exact (snapshot_iff_same_set 0 1 [⟨1, .relayRegister⟩, ⟨2, .relayRegister⟩] [⟨2, .relayCancellation⟩] [] _ _
    ⟨3, [1, 2]⟩ rfl rfl (relayGetSet_ok.mpr ⟨rfl, rfl, rfl⟩)).1 rfl

/-- Relay 2 registers between relay 1's two reads: relay 1 gets the set `[1]` with the
    counter 3, which no state of the run has. -/
theorem a_registration_between_the_reads_tears :
    ∃ s t, run step (deploy 0) [⟨1, .relayRegister⟩] = some s ∧ run step s [⟨2, .relayRegister⟩] = some t ∧
      RelayPy.relayGetSet 1 s t = .ok ⟨3, [1]⟩ ∧
      ¬ Snapshot 0 [⟨1, .relayRegister⟩, ⟨2, .relayRegister⟩] ⟨3, [1]⟩ := by
  refine ⟨_, _, rfl, rfl, relayGetSet_ok.mpr ⟨rfl, rfl, rfl⟩, fun h => ?_⟩
  have hset := snapshot_same_set (t := (((((deploy 0).enrolled 1).logOp true [1]).enrolled 2).logOp true [2]))
    (List.prefix_refl _) rfl (by decide) h
  exact absurd hset (by decide)

/-! ## (3) Agreement of uploader and downloader -/

/-- What the last upload of `w` stored under `j` stays there until `w` cancels. -/
def Holds (w : Address) (j : UInt16) (u : Upload) (s : State) : Prop :=
  (s.relayaddr w = j ∧ (s.relay j).stored = u) ∨ ((s.relay j).registered = false ∧ j < s.relayIndex)

theorem holds_step {w : Address} {u : Upload} (hs : Registry s)
    (hn : c.registers = true → s.relayIndex.toNat < 65535) (hj : j ≠ 0)
    (hc : c.sender = w → ∀ x, c.tx ≠ .relayUploadSRIAndNSD x) (hh : Holds w j u s) (h : step s c = some t) :
    Holds w j u t := by
  rcases hh with ⟨hw, hu⟩ | ⟨hr, hlt⟩
  · subst hw
    have hreg := hs.addr w hj
    by_cases e : c.sender = w
    · cases step_iff.mp h with
      | register a ha =>
        subst e
        rw [ha] at hreg
        cases hreg
      | upload a x _ => exact absurd rfl (hc e x)
      | cancel a _ =>
        subst e
        exact .inr ⟨by simp [State.cancelled], (hs.range _ hreg).2⟩
      | period p => exact .inl ⟨rfl, hu⟩
      | modify size list _ _ _ => exact .inl ⟨rfl, by simpa using hu⟩
    · obtain ⟨h1, h2⟩ := other_sender_keeps hs hj e h
      refine .inl ⟨h1, ?_⟩
      rw [State.relayOf, h1] at h2
      rw [h2]; exact hu
  · exact .inr (unregistered_step hn hlt hr h)

theorem holds_run {ds : List Call} {v : State} {w : Address} {u : Upload}
    (hv : run step (deploy o) cs = some v) (hs : run step v ds = some s)
    (hn : (cs ++ ds).countP Call.registers < 65535) (hj : j ≠ 0)
    (hc : ∀ c ∈ ds, c.sender = w → ∀ x, c.tx ≠ .relayUploadSRIAndNSD x) (hh : Holds w j u v) : Holds w j u s := by
  induction ds using List.reverseRecOn generalizing s with
  | nil => cases hs; exact hh
  | append_singleton ds c ih =>
    obtain ⟨t, ht, hl⟩ := (run_snoc_some step).mp hs
    have hrun : run step (deploy o) (cs ++ ds) = some t := (run_append_some step).mpr ⟨v, hv, ht⟩
    rw [← List.append_assoc] at hn
    have hidx := relayIndex_lt hrun hn
    rw [List.countP_append] at hn
    have ih := ih ht (by omega) fun c hc' => hc c (List.mem_append_left _ hc')
    exact holds_step (registry_run hrun (by omega)) hidx hj (hc c (by simp)) ih hl

/-! ### Splitting and undoing the log -/

theorem splitOps_eq (ops : List (Op UInt16)) :
    RelayPy.splitOps (ops.map Prod.fst) ((ops.map Prod.snd).map (List.map UInt16.toNat)) =
      ((ops.filter (!·.1)).flatMap (·.2.map UInt16.toNat), (ops.filter (·.1)).flatMap (·.2.map UInt16.toNat)) := by
  have hzip : (ops.map Prod.fst).zip ((ops.map Prod.snd).map (List.map UInt16.toNat)) =
      ops.map fun op => (op.1, op.2.map UInt16.toNat) := by
    rw [List.map_map, List.zip_map']
    rfl
  have hfold : ∀ (ops : List (Op UInt16)) (A D : List Nat),
      (ops.map fun op => (op.1, op.2.map UInt16.toNat)).foldl
        (fun acc p => if p.1 then (acc.1, acc.2 ++ p.2) else (acc.1 ++ p.2, acc.2)) (A, D) =
      (A ++ (ops.filter (!·.1)).flatMap (·.2.map UInt16.toNat), D ++ (ops.filter (·.1)).flatMap (·.2.map UInt16.toNat)) := by
    intro ops
    induction ops with
    | nil => simp
    | cons op ops ih =>
      intro A D
      obtain ⟨b, l⟩ := op
      cases b <;> simp [ih]
  rw [RelayPy.splitOps, hzip, hfold]
  simp

theorem extendAll_ok {xs S' : List Nat} : xs.foldlM RelayPy.extendBy S = .ok S' ↔ xs = [] ∧ S' = S := by
  cases xs with
  | nil =>
    show Except.ok S = Except.ok S' ↔ _
    simp [eq_comm]
  | cons x xs =>
    show Except.error RelayPy.PyError.typeError = Except.ok S' ↔ _
    simp

theorem removeAll_ok {xs : List Nat} (hS : S.Nodup) (hx : xs.Nodup) (hsub : ∀ x ∈ xs, x ∈ S) :
    ∃ S', xs.foldlM RelayPy.remove S = .ok S' ∧ S'.Nodup ∧ ∀ n, n ∈ S' ↔ n ∈ S ∧ n ∉ xs := by
  induction xs generalizing S with
  | nil => exact ⟨S, rfl, hS, by simp⟩
  | cons x xs ih =>
    obtain ⟨hnx, hx⟩ := List.nodup_cons.mp hx
    have hmem : ∀ y ∈ xs, y ∈ S.erase x := by
      intro y hy
      have hne : y ≠ x := fun e => hnx (e ▸ hy)
      exact (List.mem_erase_of_ne hne).mpr (hsub y (List.mem_cons_of_mem _ hy))
    obtain ⟨S', hS', hn, hm⟩ := ih (hS.erase x) hx hmem
    refine ⟨S', ?_, hn, fun n => ?_⟩
    · rw [List.foldlM_cons, RelayPy.remove, if_pos (hsub x List.mem_cons_self)]
      exact hS'
    · rw [hm, hS.mem_erase_iff, List.mem_cons, not_or]
      exact ⟨fun ⟨⟨h1, h2⟩, h3⟩ => ⟨h2, h1, h3⟩, fun ⟨h1, h2, h3⟩ => ⟨⟨h2, h1⟩, h3⟩⟩

theorem modify_mem_opsAlong (h : run step s cs = some t) (hc : c ∈ cs)
    {size : UInt16} {list : List UInt16} (ht : c.tx = .modifyHealthFlag size list) : (false, list) ∈ opsAlong s cs := by
  induction cs generalizing s with
  | nil => cases hc
  | cons d cs ih =>
    obtain ⟨u, hu, hr⟩ := Option.bind_eq_some_iff.mp h
    simp only [opsAlong, hu, Option.map_some, Option.getD_some, List.mem_append]
    rcases List.mem_cons.mp hc with e | hc
    · subst e
      exact .inl (by simp [opOf, ht])
    · exact .inr (ih hr hc)

theorem download_ok : (∃ H E, RelayPy.relayDownloadSRI a g s j = .ok (S, H, E)) ↔
      ∃ c hdr sri, relayDownloadSRI s a j = some (c, hdr, sri) ∧ RelayPy.rebuildSet a g s c = .ok S := by
  unfold RelayPy.relayDownloadSRI RelayPy.relayDownloadSRIHelper
  simp only [RelayPy.bind_ok, RelayPy.call_ok]
  constructor
  · intro h
    obtain ⟨H, E, x, ⟨⟨c, hdr, sri⟩, hd, hx⟩, T, hT, he⟩ := h
    cases hx; cases he
    exact ⟨c, hdr, sri, hd, hT⟩
  · intro h
    obtain ⟨c, hdr, sri, hd, hr⟩ := h
    exact ⟨_, _, _, ⟨(c, hdr, sri), hd, rfl⟩, S, hr, rfl⟩

theorem rebuildSet_log {c : UInt8} {ops : List (Op UInt16)}
    (hc : c.toNat < g.Counter) (hl : relayGetCounterList s a c = some (ops.map Prod.fst, ops.map Prod.snd)) :
    RelayPy.rebuildSet a g s c = .ok S ↔
      (ops.filter (!·.1)).flatMap (·.2.map UInt16.toNat) = [] ∧
      ((ops.filter (·.1)).flatMap (·.2.map UInt16.toNat)).foldlM RelayPy.remove g.relaySet = .ok S := by
  have hlist : RelayPy.relayGetCounterList a s c = .ok ((ops.filter (!·.1)).flatMap (·.2.map UInt16.toNat),
      (ops.filter (·.1)).flatMap (·.2.map UInt16.toNat)) := by
    unfold RelayPy.relayGetCounterList
    rw [hl, ← splitOps_eq]
    rfl
  unfold RelayPy.rebuildSet RelayPy.undoOps
  rw [if_pos hc, hlist]
  simp only [RelayPy.bind_ok, extendAll_ok, Except.ok.injEq]
  constructor
  · intro h
    obtain ⟨x, rfl, T, ⟨hA, rfl⟩, hd⟩ := h
    exact ⟨hA, hd⟩
  · intro h
    exact ⟨_, rfl, _, ⟨h.1, rfl⟩, h.2⟩

/-- No health change lists anybody. -/
def NoneListed (cs : List Call) : Prop := ∀ c ∈ cs, ∀ size list, c.tx = .modifyHealthFlag size list → list = []

/-- When no health change of a stretch lists anybody, the stretch only hands out the
    indices from `relayIndex` on, and its log adds exactly these. -/
theorem noneListed_run (h : run step s cs = some t) (hc : NoneListed cs)
    (hn : s.relayIndex.toNat + cs.countP Call.registers < 65536) :
    t.unhealthyRelaySet = s.unhealthyRelaySet ∧ t.relayIndex.toNat = s.relayIndex.toNat + cs.countP Call.registers ∧
      ((opsAlong s cs).filter (!·.1)).flatMap (·.2.map UInt16.toNat) = [] ∧
      ((opsAlong s cs).filter (·.1)).flatMap (·.2.map UInt16.toNat) =
        List.range' s.relayIndex.toNat (cs.countP Call.registers) := by
  induction cs generalizing s with
  | nil => cases h; simp [opsAlong]
  | cons c cs ih =>
    obtain ⟨u, hu, hr⟩ := Option.bind_eq_some_iff.mp h
    rw [List.countP_cons] at hn ⊢
    have ih := ih hr fun d hd => hc d (List.mem_cons_of_mem _ hd)
    simp only [opsAlong, hu, Option.map_some, Option.getD_some]
    cases step_iff.mp hu with
    | register a _ =>
      have he : Call.registers ⟨a, .relayRegister⟩ = true := rfl
      rw [he, if_pos rfl] at hn ⊢
      have hidx : (s.relayIndex + 1).toNat = s.relayIndex.toNat + 1 := toNat_succ16 (by omega)
      simp only [logOp_relayIndex, enrolled_relayIndex, logOp_unhealthy, enrolled_unhealthy, hidx] at ih
      obtain ⟨h1, h2, h3, h4⟩ := ih (by omega)
      refine ⟨h1, by omega, by simpa [opOf] using h3, ?_⟩
      simp only [opOf, List.singleton_append, List.filter_cons_of_pos, List.flatMap_cons, h4, List.map_cons, List.map_nil]
      exact List.range'_succ.symm
    | upload a u _ | cancel a _ | period p => simpa [opOf, Call.registers] using ih (by simpa [Call.registers] using hn)
    | modify size list _ _ _ =>
      have hl : list = [] := hc _ List.mem_cons_self size list rfl
      subst hl
      simpa [opOf, Call.registers] using ih (by simpa [Call.registers] using hn)

theorem noneListed_of_adds (h : run step s cs = some t)
    (ha : ((opsAlong s cs).filter (!·.1)).flatMap (·.2.map UInt16.toNat) = []) : NoneListed cs := by
  intro c hc size list htx
  have hm := modify_mem_opsAlong h hc htx
  have := List.flatMap_eq_nil_iff.mp ha (false, list) (List.mem_filter.mpr ⟨hm, rfl⟩)
  exact List.map_eq_nil_iff.mp this

theorem nodup_healthySet (s : State) : s.healthySet.Nodup := List.Nodup.filter _ List.nodup_range'

/-- The set rebuilt from `s2`'s is `s1`'s, exactly if nobody was listed in between. -/
theorem rebuildSet_ok {ds : List Call} {s1 s2 : State} (h1 : run step (deploy o) cs = some s1)
    (h2 : run step s1 ds = some s2) (hb : (cs ++ ds).countP Call.bumps ≤ 254) (ha : (s2.relayOf a).registered = true) :
    (∃ S, RelayPy.rebuildSet a ⟨s2.CurrentCounter.toNat, s2.healthySet⟩ s2 s1.CurrentCounter = .ok S ∧ S.Nodup ∧
      ∀ n, n ∈ S ↔ n ∈ s1.healthySet) ↔ NoneListed ds := by
  have hcnt1 := counter_eq h1
  have hcnt2 := counter_eq ((run_append_some step).mpr ⟨s1, h1, h2⟩)
  have hregs := registers_le_bumps (cs ++ ds)
  rw [List.countP_append] at hb hcnt2
  rw [List.countP_append, List.countP_append] at hregs
  by_cases hlt : s1.CurrentCounter.toNat < s2.CurrentCounter.toNat
  · have hw : AllSteps step NoWrap (deploy o) (cs ++ ds) := noWrap_of_count (by rw [List.countP_append]; exact hb)
    obtain ⟨hw1, hw2⟩ := (allSteps_append h1).mp hw
    obtain ⟨hc1, -⟩ := entries_run (by simp [deploy]) hw1 h1
    obtain ⟨-, he⟩ := entries_run hc1 hw2 h2
    have hl := relayGetCounterList_eq ha (UInt8.lt_iff_toNat_lt.mpr hlt) hc1
    rw [he, ← length_entries, List.drop_left] at hl
    simp only [rebuildSet_log (g := ⟨s2.CurrentCounter.toNat, s2.healthySet⟩) hlt hl, List.filter_reverse]
    have hperm : ∀ p : Op UInt16 → Bool, (((opsAlong s1 ds).filter p).reverse.flatMap (·.2.map UInt16.toNat)).Perm
        (((opsAlong s1 ds).filter p).flatMap (·.2.map UInt16.toNat)) := fun p => (List.reverse_perm _).flatMap_right _
    constructor
    · intro h
      obtain ⟨S, ⟨hadds, -⟩, -⟩ := h
      have := (hperm (!·.1)).symm
      rw [hadds] at this
      exact noneListed_of_adds h2 (List.perm_nil.mp this)
    · intro hnone
      have hr1 := registry_run h1 (by omega)
      have hidx1 := relayIndex_eq h1
      obtain ⟨hunh, hidx, hadds, hdels⟩ := noneListed_run h2 hnone (by omega)
      have hdel := hperm (·.1)
      rw [hdels] at hdel
      have hadd := hperm (!·.1)
      rw [hadds] at hadd
      have hrange : ∀ n, n ∈ List.range' s1.relayIndex.toNat (ds.countP Call.registers) ↔
          s1.relayIndex.toNat ≤ n ∧ n < s2.relayIndex.toNat := by
        intro n; rw [List.mem_range'_1, hidx]
      have hfresh : ∀ n, s1.relayIndex.toNat ≤ n → n ∉ s1.unhealthyRelaySet.map UInt16.toNat := by
        intro n hn hm
        obtain ⟨i, hi, rfl⟩ := List.mem_map.mp hm
        have := UInt16.lt_iff_toNat_lt.mp (hr1.deny i hi).2
        omega
      have hsub : ∀ n ∈ ((opsAlong s1 ds).filter (·.1)).reverse.flatMap (·.2.map UInt16.toNat), n ∈ s2.healthySet := by
        intro n hn
        obtain ⟨hge, hlt⟩ := (hrange n).mp (hdel.mem_iff.mp hn)
        rw [mem_healthySet, hunh]
        exact ⟨by omega, hlt, hfresh n hge⟩
      obtain ⟨S, hS, hnd, hmem⟩ := removeAll_ok (nodup_healthySet s2) (hdel.nodup_iff.mpr List.nodup_range') hsub
      refine ⟨S, ⟨List.perm_nil.mp hadd, hS⟩, hnd, fun n => ?_⟩
      rw [hmem, hdel.mem_iff, hrange, mem_healthySet, mem_healthySet, hunh]
      constructor
      · intro h
        obtain ⟨⟨h0, hlt, hd⟩, hnot⟩ := h
        exact ⟨h0, by omega, hd⟩
      · intro h
        obtain ⟨h0, hlt, hd⟩ := h
        exact ⟨⟨h0, by omega, hd⟩, by omega⟩
  · have hzero : ds.countP Call.bumps = 0 := by omega
    refine iff_of_true ⟨s2.healthySet, ?_, nodup_healthySet s2, fun n => ?_⟩ ?_
    · unfold RelayPy.rebuildSet
      rw [if_neg hlt]
    · rw [healthySet_of_no_bumps h2 hzero]
    · intro c hc size list htx
      have := List.countP_eq_zero.mp hzero c hc
      simp [Call.bumps, htx] at this

/-- Relay `w` uploaded a header with the counter of its `relayGetSet` in `s1`. A registered relay `a` rebuilds the
set of `s1` in `s2` exactly if `w`'s relay is still flagged healthy and no health change since `s1` listed a relay. -/
theorem download_rebuilds_iff (o w a : Address) (pre mid post : List Call) (s1 u v s2 : State)
    (g1 g2 : RelayPy.Globals) (hdr sri nsd : Bytes)
    (h1 : run step (deploy o) pre = some s1) (hg1 : RelayPy.relayGetSet w s1 s1 = .ok g1)
    (hu : run step s1 mid = some u)
    (hv : step u ⟨w, .relayUploadSRIAndNSD ⟨.ofNat g1.Counter, hdr, sri, nsd⟩⟩ = some v)
    (h2 : run step v post = some s2)
    (hlast : ∀ c ∈ post, c.sender = w → ∀ x, c.tx ≠ .relayUploadSRIAndNSD x)
    (hb : (pre ++ mid ++ post).countP Call.bumps ≤ 254) (hg2 : RelayPy.relayGetSet a s2 s2 = .ok g2) :
    (∃ S H E, RelayPy.relayDownloadSRI a g2 s2 (u.relayaddr w) = .ok (S, H, E) ∧ S.Nodup ∧
      ∀ n, n ∈ S ↔ n ∈ g1.relaySet) ↔
    (s2.relay (u.relayaddr w)).healthflag = true ∧ NoneListed (mid ++ post) := by
  obtain ⟨-, -, rfl⟩ := relayGetSet_ok.mp hg1
  obtain ⟨ha, -, rfl⟩ := relayGetSet_ok.mp hg2
  simp only [UInt8.ofNat_toNat] at hv
  generalize hup : (⟨s1.CurrentCounter, hdr, sri, nsd⟩ : Upload) = x at hv
  have hwin : run step s1 (mid ++ ⟨w, .relayUploadSRIAndNSD x⟩ :: post) = some s2 :=
    (run_append_some step).mpr ⟨u, hu, by rw [run_cons, hv]; exact h2⟩
  have hcnt : (pre ++ (mid ++ ⟨w, .relayUploadSRIAndNSD x⟩ :: post)).countP Call.bumps ≤ 254 := by
    simp only [List.countP_append, List.countP_cons, Call.bumps] at hb ⊢
    simpa [Nat.add_assoc] using hb
  have hlisted : NoneListed (mid ++ ⟨w, .relayUploadSRIAndNSD x⟩ :: post) ↔ NoneListed (mid ++ post) := by
    simp [NoneListed, or_imp, forall_and]
  have hregs := le_trans (registers_le_bumps _) hcnt
  rw [← hlisted, ← rebuildSet_ok h1 hwin hcnt ha]
  -- the upload is stored under the index of `w` until `w` cancels
  have hrunv : run step (deploy o) (pre ++ (mid ++ [⟨w, .relayUploadSRIAndNSD x⟩])) = some v :=
    (run_append_some step).mpr ⟨s1, h1, (run_snoc_some step).mpr ⟨u, hu, hv⟩⟩
  have hrun2 : run step (deploy o) (pre ++ (mid ++ ⟨w, .relayUploadSRIAndNSD x⟩ :: post)) = some s2 :=
    (run_append_some step).mpr ⟨s1, h1, hwin⟩
  have hr2 := registry_run hrun2 (by omega)
  have hru := registry_run ((run_append_some step).mpr ⟨s1, h1, hu⟩)
    (by simp only [List.countP_append] at hregs ⊢; omega)
  have hholds : Holds w (u.relayaddr w) x s2 := by
    cases step_iff.mp hv with
    | upload _ _ hh =>
      refine holds_run hrunv h2 (by simp only [List.append_assoc, List.singleton_append]; omega) ?_ hlast (Or.inl ⟨rfl, ?_⟩)
      · exact (hru.range _ ((hru.health _).mp hh).1).1
      · simp [State.uploaded, Relay.store, Relay.stored]
  have hcounter : (s2.relay (u.relayaddr w)).healthflag = true →
      (s2.relay (u.relayaddr w)).counter = s1.CurrentCounter := by
    intro hh
    rcases hholds with ⟨-, hst⟩ | ⟨hr, -⟩
    · rw [← hup] at hst
      exact congrArg Upload.counter hst
    · rw [((hr2.health _).mp hh).1] at hr
      cases hr
  constructor
  · intro h
    obtain ⟨S, H, E, hd, hnd, hmem⟩ := h
    obtain ⟨c, hdr', sri', hdl, hreb⟩ := download_ok.mp ⟨H, E, hd⟩
    obtain ⟨hlt, hh⟩ := (relayDownloadSRI_some ha).mp ⟨_, hdl⟩
    rw [relayDownloadSRI_eq ha hlt hh] at hdl
    cases hdl
    rw [hcounter hh] at hreb
    exact ⟨hh, S, hreb, hnd, hmem⟩
  · intro h
    obtain ⟨hh, S, hreb, hnd, hmem⟩ := h
    have hlt := (hr2.range _ ((hr2.health _).mp hh).1).2
    rw [← hcounter hh] at hreb
    obtain ⟨H, E, hd⟩ := download_ok.mpr ⟨_, _, _, relayDownloadSRI_eq ha hlt hh, hreb⟩
    exact ⟨S, H, E, hd, hnd, hmem⟩

/-- Relay 2 registers after relay 1's upload; it takes itself out of its set `[1, 2]`. -/
theorem download_rebuilds_iff_registration :
    ∃ s1 v s2, run step (deploy 0) [⟨1, .relayRegister⟩] = some s1 ∧
      step s1 ⟨1, .relayUploadSRIAndNSD ⟨2, [7], [8], [9]⟩⟩ = some v ∧ run step v [⟨2, .relayRegister⟩] = some s2 ∧
      ∃ S H E, RelayPy.relayDownloadSRI 2 ⟨3, [1, 2]⟩ s2 1 = .ok (S, H, E) ∧ S.Nodup ∧ ∀ n, n ∈ S ↔ n ∈ [1] := by
  refine ⟨_, _, _, rfl, rfl, rfl, ?_⟩
  refine (download_rebuilds_iff 0 1 2 [⟨1, .relayRegister⟩] [] [⟨2, .relayRegister⟩] _ _ _ _ ⟨2, [1]⟩ ⟨3, [1, 2]⟩
    [7] [8] [9] rfl (relayGetSet_ok.mpr ⟨rfl, rfl, rfl⟩) rfl rfl rfl ?_ (by decide)
    (relayGetSet_ok.mpr ⟨rfl, rfl, rfl⟩)).mpr ⟨rfl, ?_⟩
  · intro c hc hw x
    obtain rfl := List.mem_singleton.mp hc
    exact nofun
  · intro c hc size list htx
    obtain rfl := List.mem_singleton.mp hc
    cases htx

/-- Relay 2 is marked unhealthy after relay 1's upload: relay 3 must put 2 back and `relayDownloadSRI(1)` raises a
`TypeError`, though relay 1 is healthy. -/
theorem a_health_change_breaks_the_download :
    ∃ s1 v s2, run step (deploy 0) [⟨1, .relayRegister⟩, ⟨2, .relayRegister⟩, ⟨3, .relayRegister⟩] = some s1 ∧
      RelayPy.relayGetSet 1 s1 s1 = .ok ⟨4, [1, 2, 3]⟩ ∧
      step s1 ⟨1, .relayUploadSRIAndNSD ⟨4, [7], [8], [9]⟩⟩ = some v ∧
      run step v [⟨0, .modifyHealthFlag 1 [2]⟩] = some s2 ∧ (s2.relay 1).healthflag = true ∧
      RelayPy.relayGetSet 3 s2 s2 = .ok ⟨5, [1, 3]⟩ ∧
      RelayPy.relayDownloadSRI 3 ⟨5, [1, 3]⟩ s2 1 = .error .typeError :=
  ⟨_, _, _, rfl, relayGetSet_ok.mpr ⟨rfl, rfl, rfl⟩, rfl, rfl, rfl, relayGetSet_ok.mpr ⟨rfl, rfl, rfl⟩, rfl⟩

end Badnet.Directory
