/-
  Badnet.Consdiffmgr.Served — which consensus diffs a directory cache serves.

  Every diff served between a rescan and the next consensus leads to the most recent consensus, and every rescan queues
  the jobs that are missing, if and only if no rescan finds an entry of its flavour that is in progress or failed to an
  older target (`serves_iff`): `cdm_diff_ht_check_and_note_pending` does not look at the target and takes it for a job
  to the new one (`an_unfinished_diff_blocks_the_next`).
-/

import Badnet.Consdiffmgr.Invariant

namespace Badnet.Consdiffmgr

open Lib

/-! ## What a rescan is to find, and what it is to do -/

/-- No entry of the flavour is in progress or failed to another target than the most recent
    consensus when a rescan comes. -/
def Clear (n : Cdm) : Event → Prop
  | .rescan f => ∀ recent, mostRecent n f = some recent → ∀ d m e, n.table f d m = some e →
      e.status = .present ∨ e.targetSha3 = recent.sha3Uncompressed
  | _ => True

/-- A rescan queues a job to the most recent consensus from every older one with an as-signed
    digest that has no diff to it, unless that job has been queued before. -/
def QueuesMissing (b : Build) (n : Cdm) : Event → Prop
  | .rescan f => ∀ recent, mostRecent n f = some recent → ∀ c ∈ n.consensuses, c.flavor = f → c ≠ recent →
      ∀ d, c.sha3AsSigned = some d →
        (∀ x ∈ n.diffs, x.flavor = f → x.fromSha3 = d → x.targetSha3 ≠ recent.sha3Uncompressed) →
        ⟨c, recent⟩ ∈ (consdiffmgrRescanFlavor b n f).queued
  | _ => True

section Blocked

variable {b : Build} {n : Cdm} {f : Flavor} {c recent : Consensus} {d : Digest} {m : Method} {e : CdmDiff}

section

variable (hi : Inv b n) (hrecent : mostRecent n f = some recent) (he : n.table f d m = some e)
include hi hrecent he

/-- An entry to another target: no job to the most recent consensus was queued from its source. -/
theorem Inv.not_queued (hne : e.targetSha3 ≠ recent.sha3Uncompressed) {j : Job} (hj : j ∈ n.queued)
    (hto : j.diffTo = recent) : j.diffFrom.sha3AsSigned ≠ some d := by
  intro hd
  obtain ⟨hrm, hrf⟩ := mostRecent_mem hrecent
  obtain ⟨t, htm, htf, ht, hle⟩ := hi.forward j hj d m e hd (by rw [hto, hrf]; exact he)
  rw [hto] at htf hle
  have hva := le_antisymm (le_mostRecent hrecent htm (htf.trans hrf)) hle
  rw [hi.validAfter_inj htm hrm htf hva] at ht
  exact hne ht

/-- Nor is there a diff to the most recent consensus in the cache. -/
theorem Inv.no_diff (hne : e.targetSha3 ≠ recent.sha3Uncompressed) {x : Diff} (hx : x ∈ n.diffs) (hxf : x.flavor = f)
    (hxd : x.fromSha3 = d) : x.targetSha3 ≠ recent.sha3Uncompressed := by
  intro hxt
  obtain ⟨hrm, hrf⟩ := mostRecent_mem hrecent
  obtain ⟨j, d', m', hj, hd', rfl⟩ := hi.diffs x hx
  obtain ⟨_, hr⟩ := hi.queued j hj
  have hjf : j.diffTo.flavor = recent.flavor := by rw [← hr.flavor, hrf]; exact hxf
  have hto : j.diffTo = recent := hi.sha3_inj hr.target hrm hjf hxt
  have hdd : d' = d := hxd
  exact hi.not_queued hrecent he hne hj hto (hdd ▸ hd')

/-- A rescan queues no job from a source whose row has an entry it does not purge. -/
theorem Inv.blocked (hp : e.status ≠ .present) (hd : c.sha3AsSigned = some d)
    (hq : ⟨c, recent⟩ ∈ (consdiffmgrRescanFlavor b n f).queued) : ⟨c, recent⟩ ∈ n.queued := by
  have hm := (hi.entries f d m e he).1
  have hloop := hi.rescan_rec hrecent
    (P := fun s => s.table f d m = some e ∧ (⟨c, recent⟩ ∈ s.queued → ⟨c, recent⟩ ∈ n.queued)) ?_ ?_
  · exact hloop.2.2 hq
  · refine ⟨(purged n.table fun e he hp => hi.present_entry he hp).mpr ⟨he, ?_⟩, id⟩
    intro hno
    exact hp hno.1
  · intro s c' hs hP hc' hcf' hne' hno'
    obtain ⟨he', hq'⟩ := hP
    rcases hd' : c'.sha3AsSigned with _ | d'
    · rw [launch_none hne' hd']
      exact ⟨he', hq'⟩
    generalize hn' : launch b f recent s c' = s'
    obtain ⟨-, -, -, htable, hwork⟩ :=
      launch_spec hne' hd' (fun m e => hs.not_present hrecent hc' hcf' hno' hd') hn'
    refine ⟨?_, ?_⟩
    · rw [htable, if_neg, he']
      intro hkey
      obtain ⟨-, rfl, -, hnone⟩ := hkey
      rw [hnone] at he'
      cases he'
    · rcases hwork with ⟨-, -, hqs⟩ | ⟨hnone, -, hqs⟩ <;> rw [hqs]
      · exact hq'
      · intro hmem
        rcases List.mem_append.mp hmem with hmem | hmem
        · exact hq' hmem
        · -- the loop has come to the source itself, and its row is not empty
          cases List.mem_singleton.mp hmem
          have hdd : d = d' := Option.some.inj (hd.symm.trans hd')
          rw [← hdd] at hnone
          rw [hnone m hm] at he'
          cases he'

end

/-- A rescan that queues what is missing found nothing unfinished or failed for an older
    target. -/
theorem Inv.clear_of_queues (hi : Inv b n) {ev : Event} (h : QueuesMissing b n ev) : Clear n ev := by
  cases ev with
  | add | reply => trivial
  | rescan f =>
    intro recent hrecent d m e he
    by_contra hno
    obtain ⟨hp, hne⟩ := not_or.mp hno
    obtain ⟨-, c, t, hr, htf, ht, -⟩ := hi.entries f d m e he
    have hcf : c.flavor = f := hr.flavor.trans htf
    have hcr : c ≠ recent := by
      intro heq
      have hle := le_mostRecent hrecent hr.target htf
      have hlt := hr.older
      rw [heq] at hlt
      omega
    have hq := h recent hrecent c hr.source hcf hcr d hr.digest fun x hx hxf hxd => hi.no_diff hrecent he hne hx hxf hxd
    exact hi.not_queued hrecent he hne (hi.blocked hrecent he hp hr.digest hq) rfl hr.digest

end Blocked

/-! ## Runs whose rescans find nothing unfinished -/

/-- A source has either no entry or one for every method, all of one job that was queued. -/
def Uniform (b : Build) (n : Cdm) : Prop :=
  ∀ f d m e, n.table f d m = some e → ∃ j ∈ n.queued, j.diffTo.flavor = f ∧ j.diffFrom.sha3AsSigned = some d ∧
    j.diffTo.sha3Uncompressed = e.targetSha3 ∧
    ∀ m' ∈ compressDiffsWith b, ∃ e', n.table f d m' = some e' ∧ e'.targetSha3 = e.targetSha3

/-- Every entry of the flavour leads to its most recent consensus. -/
def Current (n : Cdm) (f : Flavor) : Prop :=
  ∀ recent, mostRecent n f = some recent → ∀ d m e, n.table f d m = some e →
    e.targetSha3 = recent.sha3Uncompressed

section Clear

variable {b : Build} {n : Cdm} {f : Flavor} {c recent : Consensus} {d : Digest}

/-- What the loop of a rescan keeps when it found nothing unfinished. -/
def Aimed (b : Build) (f : Flavor) (recent : Consensus) (s : Cdm) : Prop :=
  Uniform b s ∧ ∀ d m e, s.table f d m = some e → e.targetSha3 = recent.sha3Uncompressed

/-- The purge drops whole rows. -/
theorem Inv.aimed_purge (hi : Inv b n) (hu : Uniform b n) (hrecent : mostRecent n f = some recent)
    (hclear : Clear n (.rescan f)) :
    Aimed b f recent { n with table := cdmDiffHtPurge n.table f recent.sha3Uncompressed } := by
  have hpurged : ∀ {f' d m e}, cdmDiffHtPurge n.table f recent.sha3Uncompressed f' d m = some e ↔
      n.table f' d m = some e ∧ ¬ (e.status = .present ∧ f' = f ∧ e.targetSha3 ≠ recent.sha3Uncompressed) := by
    intro f' d m e
    exact purged n.table fun e he hp => hi.present_entry he hp
  have haim : ∀ d m e, cdmDiffHtPurge n.table f recent.sha3Uncompressed f d m = some e →
      e.targetSha3 = recent.sha3Uncompressed := by
    intro d m e h
    obtain ⟨he, hno⟩ := hpurged.mp h
    rcases hclear recent hrecent d m e he with hp | ht
    · by_contra hne
      exact hno ⟨hp, rfl, hne⟩
    · exact ht
  refine ⟨?_, haim⟩
  intro f' d m e h
  obtain ⟨he, -⟩ := hpurged.mp h
  obtain ⟨j, hj, hf, hd, ht, hrow⟩ := hu f' d m e he
  refine ⟨j, hj, hf, hd, ht, ?_⟩
  intro m' hm'
  obtain ⟨e', he', ht'⟩ := hrow m' hm'
  refine ⟨e', hpurged.mpr ⟨he', ?_⟩, ht'⟩
  intro hno
  obtain ⟨-, rfl, hne⟩ := hno
  exact hne (ht'.trans (haim d m e h))

/-- A source the loop comes to has an empty row, and gets a job, or a row of a job to the most
    recent consensus. -/
theorem Aimed.launched {s : Cdm} (ha : Aimed b f recent s) (hrf : recent.flavor = f) (hne : c ≠ recent)
    (hpres : ∀ d m e, c.sha3AsSigned = some d → s.table f d m = some e → e.status ≠ .present) :
    Aimed b f recent (launch b f recent s c) := by
  rcases hd : c.sha3AsSigned with _ | d
  · rw [launch_none hne hd]
    exact ha
  generalize hn' : launch b f recent s c = s'
  obtain ⟨-, -, -, htable, hwork⟩ := launch_spec hne hd (fun m e => hpres d m e hd) hn'
  obtain ⟨hu, haim⟩ := ha
  refine ⟨?_, ?_⟩
  · rcases hwork with ⟨⟨m0, hm0, hsome⟩, -, hqs⟩ | ⟨hnone, -, hqs⟩
    · -- the row is full, so the table stays
      have hsame : ∀ f' d' m', s'.table f' d' m' = s.table f' d' m' := by
        intro f' d' m'
        rw [htable, if_neg]
        intro hkey
        obtain ⟨e0, he0⟩ := Option.ne_none_iff_exists'.mp hsome
        obtain ⟨-, -, -, -, -, hrow⟩ := hu f d m0 e0 he0
        obtain ⟨e', he', -⟩ := hrow m' hkey.2.2.1
        rw [hkey.2.2.2] at he'
        cases he'
      intro f' d' m e h
      rw [hsame] at h
      simp only [hqs, hsame]
      exact hu f' d' m e h
    · intro f' d' m e h
      rw [htable] at h
      split at h
      · next hkey =>
        obtain ⟨rfl, rfl, -, -⟩ := hkey
        cases h
        refine ⟨⟨c, recent⟩, by simp [hqs], hrf, hd, rfl, ?_⟩
        intro m' hm'
        exact ⟨_, by rw [htable, if_pos ⟨rfl, rfl, hm', hnone m' hm'⟩], rfl⟩
      · obtain ⟨j, hj, hf, hd', ht, hrow⟩ := hu f' d' m e h
        refine ⟨j, by simp [hqs, hj], hf, hd', ht, ?_⟩
        intro m' hm'
        obtain ⟨e', he', ht'⟩ := hrow m' hm'
        refine ⟨e', ?_, ht'⟩
        rw [htable, if_neg, he']
        intro hkey
        rw [hkey.1, hkey.2.1, hkey.2.2.2] at he'
        cases he'
  · intro d' m e h
    rw [htable] at h
    split at h
    · cases h
      rfl
    · exact haim d' m e h

theorem launch_keeps (hne : c ≠ recent) {f' : Flavor} {d' : Digest} {m : Method} (h : n.table f' d' m ≠ none) :
    (launch b f recent n c).table f' d' m ≠ none := by
  rcases hd : c.sha3AsSigned with _ | d
  · rw [launch_none hne hd]
    exact h
  · rw [launch_table hne hd]
    split
    · simp
    · exact h

/-- The loop leaves no empty row of a source it came to. -/
theorem foldl_launch_fills {cs : List Consensus} (hne : ∀ c ∈ cs, c ≠ recent) (s : Cdm) (hc : c ∈ cs)
    (hd : c.sha3AsSigned = some d) : (cs.foldl (launch b f recent) s).table f d .no ≠ none := by
  induction cs generalizing s with
  | nil => cases hc
  | cons c' cs ih =>
    rw [List.foldl_cons]
    rcases List.mem_cons.mp hc with rfl | hc
    · -- filled now, and kept by the turns that follow
      apply List.foldlRecOn (motive := fun s : Cdm => s.table f d .no ≠ none)
      · rw [launch_table (hne c List.mem_cons_self) hd]
        split
        · simp
        · next hno =>
          intro h
          exact hno ⟨rfl, rfl, no_mem_compressDiffsWith b, h⟩
      · intro s hs x hx
        exact launch_keeps (hne x (List.mem_cons_of_mem _ hx)) hs
    · exact ih (fun x hx => hne x (List.mem_cons_of_mem _ hx)) _ hc

section

variable (hi : Inv b n) (hu : Uniform b n)
include hi hu

theorem Inv.aimed_rescan (hrecent : mostRecent n f = some recent) (hclear : Clear n (.rescan f)) :
    Rescanning b n f recent (consdiffmgrRescanFlavor b n f) ∧ Aimed b f recent (consdiffmgrRescanFlavor b n f) := by
  apply hi.rescan_rec hrecent (hi.aimed_purge hu hrecent hclear)
  intro s c hs ha hc hcf hne hno
  apply ha.launched (mostRecent_mem hrecent).2 hne
  intro d m e hd he
  exact hs.not_present hrecent hc hcf hno hd he

theorem Inv.queues_of_clear {ev : Event} (hclear : Clear n ev) : QueuesMissing b n ev := by
  cases ev with
  | add | reply => trivial
  | rescan f =>
    intro recent hrecent c hc hcf hne d hd hnodiff
    obtain ⟨hs, hu', haim⟩ := hi.aimed_rescan hu hrecent hclear
    obtain ⟨hrm, hrf⟩ := mostRecent_mem hrecent
    have hno : haveDiffFrom n f recent c.validAfter = false := by
      rw [haveDiffFrom, List.any_eq_false]
      intro x hx hmatch
      obtain ⟨hva, hxf, hfrom⟩ := of_decide_eq_true hmatch
      obtain ⟨j, d', m, hj, hd', rfl⟩ := hi.diffs x hx
      obtain ⟨_, hr⟩ := hi.queued j hj
      have hjf : j.diffFrom.flavor = f := hxf
      have hto := hi.validAfter_inj hr.target hrm (hr.flavor.symm.trans (hjf.trans hrf.symm)) hva
      have hfr := hi.validAfter_inj hr.source hc (hjf.trans hcf.symm) hfrom
      rw [hfr, hd, Option.some.injEq] at hd'
      exact hnodiff _ hx hxf hd'.symm (congrArg Consensus.sha3Uncompressed hto)
    have hmem : c ∈ computeDiffsFrom n f recent := (mem_computeDiffsFrom hi.nodup hrecent).mpr ⟨⟨hc, hcf, hne⟩, hno⟩
    have hfilled : (consdiffmgrRescanFlavor b n f).table f d .no ≠ none := by
      rw [consdiffmgrRescanFlavor, hrecent]
      apply foldl_launch_fills _ _ hmem hd
      intro x hx
      exact ((mem_computeDiffsFrom hi.nodup hrecent).mp hx).1.2.2
    obtain ⟨e, he⟩ := Option.ne_none_iff_exists'.mp hfilled
    obtain ⟨j, hj, hjf, hjd, hjt, -⟩ := hu' f d .no e he
    obtain ⟨_, hr⟩ := hs.inv.queued j hj
    rw [← hs.consensuses] at hc hrm
    have hto := hs.inv.sha3_inj hr.target hrm (hjf.trans hrf.symm) (hjt.trans (haim d .no e he))
    have hfr := hs.inv.asSigned_inj hr.source hc (hr.flavor.trans (hjf.trans hcf.symm)) hjd hd
    rw [← hto, ← hfr]
    exact hj

theorem Inv.uniform_reply {k : Nat} {j : Job} (hk : n.jobs[k]? = some j) (stored : Method → Bool) :
    Uniform b (consensusDiffWorkerReplyfn b { n with jobs := n.jobs.eraseIdx k } j stored) := by
  have hj : j ∈ n.jobs := List.mem_of_getElem? hk
  obtain ⟨d, hr⟩ := hi.queued j (hi.jobs j hj).1
  generalize hn' : consensusDiffWorkerReplyfn b { n with jobs := n.jobs.eraseIdx k } j stored = n'
  obtain ⟨-, hqs, -, -, -, htable⟩ := hi.reply_spec hj hr.digest (n.jobs.eraseIdx k) stored hn'
  intro f d' m e h
  rw [htable] at h
  rw [hqs]
  split at h
  · next hkey =>
    obtain ⟨rfl, rfl, -⟩ := hkey
    cases h
    refine ⟨j, (hi.jobs j hj).1, rfl, hr.digest, rfl, ?_⟩
    intro m' hm'
    exact ⟨answered j d' stored m', by rw [htable, if_pos ⟨rfl, rfl, hm'⟩], rfl⟩
  · next hno =>
    obtain ⟨j', hj', hf, hd, ht, hrow⟩ := hu f d' m e h
    refine ⟨j', hj', hf, hd, ht, ?_⟩
    intro m' hm'
    obtain ⟨e', he', ht'⟩ := hrow m' hm'
    refine ⟨e', ?_, ht'⟩
    rw [htable, if_neg, he']
    intro hkey
    exact hno ⟨hkey.1, hkey.2.1, (hi.entries f d' m e h).1⟩

theorem Inv.uniform_step {ev : Event} {n' : Cdm} (hclear : Clear n ev) (h : Consdiffmgr.step b n ev = some n') :
    Uniform b n' := by
  cases ev with
  | add c =>
    simp only [Consdiffmgr.step] at h
    split at h
    · cases h
      exact hu
    · cases h
  | rescan f =>
    cases h
    rcases hrecent : mostRecent n f with _ | recent
    · rw [consdiffmgrRescanFlavor, hrecent]
      exact hu
    · exact (hi.aimed_rescan hu hrecent hclear).2.1
  | reply k stored =>
    simp only [Consdiffmgr.step] at h
    split at h
    · cases h
    · next j hk =>
      cases h
      exact hi.uniform_reply hu hk stored

end

theorem uniform_run {es : List Event} (hclear : AllSteps (step b) Clear Cdm.init es)
    (h : run (step b) Cdm.init es = some n) : Inv b n ∧ Uniform b n := by
  refine run_inv_steps (I := fun n => Inv b n ∧ Uniform b n) ?_ ⟨inv_init b, ?_⟩ hclear h
  · intro n ev n' hi hc hstep
    exact ⟨hi.1.step hstep, hi.1.uniform_step hi.2 hc hstep⟩
  · intro f d m e he
    cases he

/-! ## What is served after a rescan -/

theorem current_rescan (hi : Inv b n) (hu : Uniform b n) (hclear : Clear n (.rescan f)) :
    Current (consdiffmgrRescanFlavor b n f) f := by
  rcases hrecent : mostRecent n f with _ | recent
  · intro recent h
    rw [consdiffmgrRescanFlavor, hrecent] at h
    rw [hrecent] at h
    cases h
  · obtain ⟨hs, ha⟩ := hi.aimed_rescan hu hrecent hclear
    intro recent' h
    rw [mostRecent_congr hs.consensuses, hrecent, Option.some.injEq] at h
    subst h
    exact ha.2

/-- A rescan of another flavour leaves the entries of this one alone. -/
theorem rescan_other (hi : Inv b n) {g : Flavor} (hg : g ≠ f) :
    (consdiffmgrRescanFlavor b n g).consensuses = n.consensuses ∧
      ∀ d m, (consdiffmgrRescanFlavor b n g).table f d m = n.table f d m := by
  rcases hrecent : mostRecent n g with _ | recent
  · rw [consdiffmgrRescanFlavor, hrecent]
    exact ⟨rfl, fun _ _ => rfl⟩
  · have hloop := hi.rescan_rec hrecent (P := fun s => ∀ d m, s.table f d m = n.table f d m) ?_ ?_
    · exact ⟨hloop.1.consensuses, hloop.2⟩
    · intro d m
      show cdmDiffHtPurge n.table g recent.sha3Uncompressed f d m = n.table f d m
      unfold cdmDiffHtPurge
      rcases n.table f d m with _ | e <;> simp [hg]
    · intro s c _ hs _ _ hne _ d m
      rcases hd : c.sha3AsSigned with _ | d'
      · rw [launch_none hne hd]
        exact hs d m
      · rw [launch_table hne hd, if_neg fun h => hg h.1.symm]
        exact hs d m

/-- Until the next consensus of the flavour, the entries keep leading to the most recent one. -/
theorem Current.step (hcur : Current n f) (hi : Inv b n) (hu : Uniform b n) {ev : Event} {n' : Cdm}
    (hclear : Clear n ev) (hadd : ∀ c, ev = .add c → c.flavor ≠ f) (h : Consdiffmgr.step b n ev = some n') :
    Current n' f := by
  cases ev with
  | add c =>
    have hcf := hadd c rfl
    simp only [Consdiffmgr.step] at h
    split at h
    · cases h
      intro recent hrecent
      apply hcur recent
      rw [← hrecent]
      simp [mostRecent, sortedConsensuses, List.filter_append, hcf]
    · cases h
  | rescan g =>
    cases h
    by_cases hg : g = f
    · subst hg
      exact current_rescan hi hu hclear
    · obtain ⟨hcs, htable⟩ := rescan_other hi hg
      intro recent hrecent d m e he
      rw [mostRecent_congr hcs] at hrecent
      rw [htable] at he
      exact hcur recent hrecent d m e he
  | reply k stored =>
    simp only [Consdiffmgr.step] at h
    split at h
    · cases h
    · next j hk =>
      cases h
      have hj : j ∈ n.jobs := List.mem_of_getElem? hk
      obtain ⟨hjq, hrow⟩ := hi.jobs j hj
      obtain ⟨d', hr⟩ := hi.queued j hjq
      generalize hn' : consensusDiffWorkerReplyfn b { n with jobs := n.jobs.eraseIdx k } j stored = n'
      obtain ⟨hcs, -, -, -, -, htable⟩ := hi.reply_spec hj hr.digest (n.jobs.eraseIdx k) stored hn'
      intro recent hrecent d m e he
      rw [mostRecent_congr hcs] at hrecent
      rw [htable] at he
      split at he
      · next hkey =>
        obtain ⟨rfl, rfl, hm⟩ := hkey
        obtain ⟨h, he'⟩ := hrow d hr.digest m hm
        cases he
        have htarget := hcur recent hrecent d m _ he'
        exact htarget
      · exact hcur recent hrecent d m e he

theorem find_available {t : Table} {m : Method} {x : Diff} (h : consdiffmgrFindDiffFrom t f d m = .available x) :
    ∃ e, t f d m = some e ∧ e.status = .present ∧ e.entry = some x := by
  unfold consdiffmgrFindDiffFrom at h
  rcases ht : t f d m with _ | ⟨target, status, entry⟩ <;> rw [ht] at h
  · cases h
  · cases status <;> cases entry <;> cases h
    exact ⟨_, rfl, rfl, rfl⟩

/-- The diffs of the flavour that are served lead to its most recent consensus. -/
def ServesRecent (n : Cdm) (f : Flavor) : Prop :=
  ∀ d m x, consdiffmgrFindDiffFrom n.table f d m = .available x →
    ∃ recent, mostRecent n f = some recent ∧ x.targetSha3 = recent.sha3Uncompressed

theorem Current.serves (hcur : Current n f) (hi : Inv b n) : ServesRecent n f := by
  intro d m x h
  obtain ⟨e, he, hp, hx⟩ := find_available h
  obtain ⟨-, c, t, hr, htf, ht, hpres⟩ := hi.entries f d m e he
  obtain ⟨recent, hrecent⟩ := exists_mostRecent hr.target htf
  refine ⟨recent, hrecent, ?_⟩
  rw [(hpres hp).1, Option.some.injEq] at hx
  rw [← hx, ← hcur recent hrecent d m e he, ht]
  rfl

/-- From a rescan of the flavour to the next consensus of it, in a run whose rescans find
    nothing unfinished. -/
theorem current_run {pre post : List Event} (hclear : AllSteps (step b) Clear Cdm.init (pre ++ .rescan f :: post))
    (hadd : ∀ c, .add c ∈ post → c.flavor ≠ f) (h : run (step b) Cdm.init (pre ++ .rescan f :: post) = some n) :
    Current n f := by
  induction post using List.reverseRecOn generalizing n with
  | nil =>
    obtain ⟨u, hu, hstep⟩ := (run_snoc_some (step b)).mp h
    obtain ⟨hpre, hlast⟩ := allSteps_snoc.mp hclear
    obtain ⟨hi, hun⟩ := uniform_run hpre hu
    cases hstep
    exact current_rescan hi hun (hlast u hu)
  | append_singleton post ev ih =>
    rw [← List.cons_append, ← List.append_assoc] at h hclear
    obtain ⟨u, hu, hstep⟩ := (run_snoc_some (step b)).mp h
    obtain ⟨hpre, hlast⟩ := allSteps_snoc.mp hclear
    obtain ⟨hi, hun⟩ := uniform_run hpre hu
    have hcur := ih hpre (fun c hc => hadd c (List.mem_append_left _ hc)) hu
    apply hcur.step hi hun (hlast u hu) _ hstep
    intro c hc
    exact hadd c (List.mem_append_right _ (by simp [hc]))

end Clear

/-! ## The claim about runs -/

/-- No assertion of the table functions has failed, and none can about a missing handle: two functions take a present
entry to have one. -/
def AssertsHold (n : Cdm) : Prop :=
  n.assertFailed = false ∧ ∀ f d m e, n.table f d m = some e → e.status = .present → e.entry ≠ none

/-- The diffs served from a rescan of a flavour to the next consensus of it lead to the most recent one, every rescan
queues what is missing, and no assertion fails. -/
structure Serves (b : Build) (es : List Event) : Prop where
  recent : ∀ pre post f n, pre ++ .rescan f :: post <+: es → (∀ c, .add c ∈ post → c.flavor ≠ f) →
    run (step b) Cdm.init (pre ++ .rescan f :: post) = some n → ServesRecent n f
  queues : AllSteps (step b) (QueuesMissing b) Cdm.init es
  asserts : AllStates (step b) AssertsHold Cdm.init es

/-- A run serves as it should if and only if no rescan finds an entry of its flavour in progress or failed to a
target that is no longer the most recent one. -/
theorem serves_iff (b : Build) (es : List Event) : Serves b es ↔ AllSteps (step b) Clear Cdm.init es := by
  constructor
  · intro h pre ev n hp hrun
    exact (inv_run hrun).clear_of_queues (h.queues pre ev n hp hrun)
  · intro hclear
    have hcut : ∀ {pre}, pre <+: es → AllSteps (step b) Clear Cdm.init pre := by
      intro pre hpre pre' ev n hp
      exact hclear pre' ev n (hp.trans hpre)
    refine ⟨?_, ?_, ?_⟩
    · intro pre post f n hp hadd hrun
      exact (current_run (hcut hp) hadd hrun).serves (inv_run hrun)
    · intro pre ev n hp hrun
      obtain ⟨hi, hu⟩ := uniform_run (hcut ((List.prefix_append pre [ev]).trans hp)) hrun
      exact hi.queues_of_clear hu (hclear pre ev n hp hrun)
    · intro pre n hp hrun
      have hi := inv_run hrun
      exact ⟨hi.asserts, fun f d m e he hps => hi.present_entry he hps⟩

/-- Three consensuses in a row; the reply for the diff between the first two comes after the
    rescan that found the third. -/
def lateReply : List Event :=
  [.add ⟨.ns, 1, 1, some 11⟩, .add ⟨.ns, 2, 2, some 12⟩, .rescan .ns, .add ⟨.ns, 3, 3, some 13⟩, .rescan .ns,
    .reply 0 fun _ => true]

/-- The rescan finds the diff from the first consensus to the second in progress, so it queues none to the third, and
the diff to the second is served. -/
theorem an_unfinished_diff_blocks_the_next : ¬ Serves ⟨false, false⟩ lateReply := by
  intro h
  have hend : (run (step ⟨false, false⟩) Cdm.init lateReply).map
      (fun n => (consdiffmgrFindDiffFrom n.table .ns 11 .no, mostRecent n .ns)) =
      some (.available ⟨.ns, 2, 1, 11, 2, .no⟩, some ⟨.ns, 3, 3, some 13⟩) := by decide +kernel
  obtain ⟨n, hrun, hn⟩ := Option.map_eq_some_iff.mp hend
  rw [Prod.mk.injEq] at hn
  obtain ⟨recent, hrecent, htarget⟩ := h.recent (lateReply.take 4) [.reply 0 fun _ => true] .ns n (List.prefix_refl _)
    (by intro c hc; simp at hc) hrun 11 .no _ hn.1
  rw [hn.2, Option.some.injEq] at hrecent
  rw [← hrecent] at htarget
  exact absurd htarget (by decide)

end Badnet.Consdiffmgr
