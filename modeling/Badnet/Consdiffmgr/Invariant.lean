/-
  Badnet.Consdiffmgr.Invariant — what holds of the diff table in every run.

  An entry leads from a consensus of the cache to a newer one of its flavour, a present entry names a diff of the cache,
  the targets of a source never go back, and a job without a reply has the whole row of its source in progress to its
  own target (`Inv`, `inv_run`). No assertion of the table functions fails.
-/

import Badnet.Consdiffmgr.DiffTable
import Mathlib.Data.List.Pairwise

namespace Badnet.Consdiffmgr

open Lib

/-! ## The invariant of every run -/

/-- A later consensus of the same flavour, as it enters the cache. -/
def Apart (c c' : Consensus) : Prop :=
  c.flavor = c'.flavor → c.validAfter < c'.validAfter ∧ c.sha3Uncompressed ≠ c'.sha3Uncompressed ∧
    (c'.sha3AsSigned = none ∨ c.sha3AsSigned ≠ c'.sha3AsSigned)

/-- A diff from `c`, of as-signed digest `d`, to `t` makes sense. -/
structure Route (cs : List Consensus) (c t : Consensus) (d : Digest) : Prop where
  source : c ∈ cs
  target : t ∈ cs
  flavor : c.flavor = t.flavor
  digest : c.sha3AsSigned = some d
  older : c.validAfter < t.validAfter

structure Inv (b : Build) (n : Cdm) : Prop where
  ordered : n.consensuses.Pairwise Apart
  entries : ∀ f d m e, n.table f d m = some e → m ∈ compressDiffsWith b ∧
    ∃ c t, Route n.consensuses c t d ∧ t.flavor = f ∧ e.targetSha3 = t.sha3Uncompressed ∧
      (e.status = .present → e.entry = some (diffOf ⟨c, t⟩ d m) ∧ diffOf ⟨c, t⟩ d m ∈ n.diffs)
  queued : ∀ j ∈ n.queued, ∃ d, Route n.consensuses j.diffFrom j.diffTo d
  diffs : ∀ x ∈ n.diffs, ∃ j d m, j ∈ n.queued ∧ j.diffFrom.sha3AsSigned = some d ∧ x = diffOf j d m
  forward : ∀ j ∈ n.queued, ∀ d m e, j.diffFrom.sha3AsSigned = some d → n.table j.diffTo.flavor d m = some e →
    ∃ t ∈ n.consensuses, t.flavor = j.diffTo.flavor ∧ e.targetSha3 = t.sha3Uncompressed ∧
      j.diffTo.validAfter ≤ t.validAfter
  jobs : ∀ j ∈ n.jobs, j ∈ n.queued ∧ ∀ d, j.diffFrom.sha3AsSigned = some d →
    ∀ m ∈ compressDiffsWith b, ∃ h, n.table j.diffTo.flavor d m = some ⟨j.diffTo.sha3Uncompressed, .inProgress, h⟩
  jobsApart : n.jobs.Pairwise fun j j' => j.diffFrom ≠ j'.diffFrom
  asserts : n.assertFailed = false

theorem inv_init (b : Build) : Inv b Cdm.init where
  ordered := List.Pairwise.nil
  entries := by intro f d m e h; cases h
  queued := by intro j hj; cases hj
  diffs := by intro x hx; cases hx
  forward := by intro j hj; cases hj
  jobs := by intro j hj; cases hj
  jobsApart := List.Pairwise.nil
  asserts := rfl

section Inv

variable {b : Build} {n : Cdm} {f : Flavor} {c c' t t' recent : Consensus} {d : Digest}

section

variable (hi : Inv b n) (hc : c ∈ n.consensuses) (hc' : c' ∈ n.consensuses)
include hi hc hc'

theorem Inv.apart (hne : c ≠ c') : Apart c c' ∨ Apart c' c := by
  have : Std.Symm fun c c' : Consensus => Apart c c' ∨ Apart c' c := ⟨fun _ _ h => h.symm⟩
  have hboth : n.consensuses.Pairwise fun c c' => Apart c c' ∨ Apart c' c := hi.ordered.imp fun h => .inl h
  exact hboth.forall hc hc' hne

theorem Inv.validAfter_inj (hf : c.flavor = c'.flavor) (h : c.validAfter = c'.validAfter) : c = c' := by
  by_contra hne
  rcases hi.apart hc hc' hne with ha | ha
  · have := (ha hf).1
    omega
  · have := (ha hf.symm).1
    omega

theorem Inv.sha3_inj (hf : c.flavor = c'.flavor) (h : c.sha3Uncompressed = c'.sha3Uncompressed) : c = c' := by
  by_contra hne
  rcases hi.apart hc hc' hne with ha | ha
  · exact (ha hf).2.1 h
  · exact (ha hf.symm).2.1 h.symm

theorem Inv.asSigned_inj (hf : c.flavor = c'.flavor) (h : c.sha3AsSigned = some d) (h' : c'.sha3AsSigned = some d) :
    c = c' := by
  by_contra hne
  rcases hi.apart hc hc' hne with ha | ha
  · rcases (ha hf).2.2 with hn | hn
    · rw [h'] at hn
      cases hn
    · exact hn (h.trans h'.symm)
  · rcases (ha hf.symm).2.2 with hn | hn
    · rw [h] at hn
      cases hn
    · exact hn (h'.trans h.symm)

end

theorem Inv.nodup (hi : Inv b n) : n.consensuses.Nodup := by
  apply hi.ordered.imp
  intro c c' h heq
  subst heq
  exact lt_irrefl _ (h rfl).1

theorem Inv.present_entry (hi : Inv b n) {m : Method} {e : CdmDiff} (h : n.table f d m = some e)
    (hp : e.status = .present) : e.entry ≠ none := by
  obtain ⟨-, c, t, -, -, -, hx⟩ := hi.entries f d m e h
  rw [(hx hp).1]
  simp

theorem Route.mono {cs cs' : List Consensus} (h : Route cs c t d) (hsub : ∀ x ∈ cs, x ∈ cs') : Route cs' c t d :=
  ⟨hsub _ h.source, hsub _ h.target, h.flavor, h.digest, h.older⟩

theorem Inv.add (hi : Inv b n) (he : Enters n c) : Inv b { n with consensuses := n.consensuses ++ [c] } := by
  have hsub : ∀ x ∈ n.consensuses, x ∈ n.consensuses ++ [c] := fun x hx => List.mem_append_left _ hx
  refine ⟨?_, ?_, ?_, hi.diffs, ?_, hi.jobs, hi.jobsApart, hi.asserts⟩
  · refine List.pairwise_append.mpr ⟨hi.ordered, List.pairwise_singleton _ _, ?_⟩
    intro x hx y hy
    rw [List.mem_singleton.mp hy]
    exact he x hx
  · intro f d m e h
    obtain ⟨hm, c, t, hr, hrest⟩ := hi.entries f d m e h
    exact ⟨hm, c, t, hr.mono hsub, hrest⟩
  · intro j hj
    obtain ⟨d, hr⟩ := hi.queued j hj
    exact ⟨d, hr.mono hsub⟩
  · intro j hj d m e hd h
    obtain ⟨t, ht, hrest⟩ := hi.forward j hj d m e hd h
    exact ⟨t, hsub t ht, hrest⟩

/-- The state after a reply to job `j`: the whole row of its source is answered. -/
theorem Inv.reply_spec (hi : Inv b n) {j : Job} (hj : j ∈ n.jobs) (hd : j.diffFrom.sha3AsSigned = some d)
    (js : List Job) (stored : Method → Bool) {n' : Cdm}
    (h : consensusDiffWorkerReplyfn b { n with jobs := js } j stored = n') :
    n'.consensuses = n.consensuses ∧ n'.queued = n.queued ∧ n'.jobs = js ∧ n'.assertFailed = n.assertFailed ∧
      n'.diffs = n.diffs ++ ((compressDiffsWith b).filter stored).map (diffOf j d) ∧
      ∀ f' d' m', n'.table f' d' m' =
        if f' = j.diffTo.flavor ∧ d' = d ∧ m' ∈ compressDiffsWith b then some (answered j d stored m')
        else n.table f' d' m' := by
  obtain ⟨h1, h2⟩ := foldl_replyStatus (compressDiffsWith_nodup b) stored n.table false ((hi.jobs j hj).2 d hd)
  simp only [consensusDiffWorkerReplyfn, hd, h2, Bool.or_false] at h
  subst h
  exact ⟨rfl, rfl, rfl, rfl, rfl, h1⟩

/-- Two jobs without a reply have different keys. -/
theorem Inv.jobs_key (hi : Inv b n) {k : Nat} {j j' : Job} (hk : n.jobs[k]? = some j) (hj' : j' ∈ n.jobs.eraseIdx k)
    (hd : j.diffFrom.sha3AsSigned = some d) (hd' : j'.diffFrom.sha3AsSigned = some d) :
    j'.diffTo.flavor ≠ j.diffTo.flavor := by
  intro hf
  obtain ⟨i, hik, hi'⟩ := List.mem_eraseIdx_iff_getElem?.mp hj'
  have hne : j'.diffFrom ≠ j.diffFrom := by
    have hpair := List.pairwise_iff_getElem.mp hi.jobsApart
    obtain ⟨hil, rfl⟩ := List.getElem?_eq_some_iff.mp hi'
    obtain ⟨hkl, rfl⟩ := List.getElem?_eq_some_iff.mp hk
    rcases Nat.lt_or_gt_of_ne hik with hlt | hlt
    · exact hpair i k hil hkl hlt
    · exact (hpair k i hkl hil hlt).symm
  obtain ⟨_, hr⟩ := hi.queued j (hi.jobs j (List.mem_of_getElem? hk)).1
  obtain ⟨_, hr'⟩ := hi.queued j' (hi.jobs j' (List.mem_of_mem_eraseIdx hj')).1
  exact hne (hi.asSigned_inj hr'.source hr.source (hr'.flavor.trans (hf.trans hr.flavor.symm)) hd' hd)

theorem Inv.reply (hi : Inv b n) {k : Nat} {j : Job} (hk : n.jobs[k]? = some j) (stored : Method → Bool) :
    Inv b (consensusDiffWorkerReplyfn b { n with jobs := n.jobs.eraseIdx k } j stored) := by
  have hj : j ∈ n.jobs := List.mem_of_getElem? hk
  obtain ⟨hjq, hrow⟩ := hi.jobs j hj
  obtain ⟨d, hr⟩ := hi.queued j hjq
  generalize hn' : consensusDiffWorkerReplyfn b { n with jobs := n.jobs.eraseIdx k } j stored = n'
  obtain ⟨hcs, hqs, hjs, has, hds, htable⟩ := hi.reply_spec hj hr.digest (n.jobs.eraseIdx k) stored hn'
  refine ⟨hcs ▸ hi.ordered, ?_, ?_, ?_, ?_, ?_, ?_, has.trans hi.asserts⟩
  · intro f d' m e h
    rw [htable] at h
    rw [hcs, hds]
    split at h
    · next hkey =>
      obtain ⟨rfl, rfl, hm⟩ := hkey
      cases h
      refine ⟨hm, j.diffFrom, j.diffTo, hr, rfl, rfl, ?_⟩
      intro hp
      have hs : stored m = true := by
        by_contra hs
        simp [answered, hs] at hp
      refine ⟨by simp [answered, hs], ?_⟩
      exact List.mem_append_right _ (List.mem_map.mpr ⟨m, List.mem_filter.mpr ⟨hm, hs⟩, rfl⟩)
    · obtain ⟨hm, c, t, hroute, hf, ht, hp⟩ := hi.entries f d' m e h
      exact ⟨hm, c, t, hroute, hf, ht, fun hs => ⟨(hp hs).1, List.mem_append_left _ (hp hs).2⟩⟩
  · rw [hqs, hcs]
    exact hi.queued
  · intro x hx
    rw [hds] at hx
    rw [hqs]
    rcases List.mem_append.mp hx with hx | hx
    · exact hi.diffs x hx
    · obtain ⟨m, -, rfl⟩ := List.mem_map.mp hx
      exact ⟨j, d, m, hjq, hr.digest, rfl⟩
  · intro j' hj' d' m e hd' h
    rw [hqs] at hj'
    rw [htable] at h
    rw [hcs]
    split at h
    · next hkey =>
      -- the answered row keeps its target
      obtain ⟨hf, rfl, hm⟩ := hkey
      obtain ⟨h', he⟩ := hrow d' hr.digest m hm
      rw [← hf] at he
      cases h
      have hfwd := hi.forward j' hj' d' m _ hd' he
      exact hfwd
    · exact hi.forward j' hj' d' m e hd' h
  · intro j' hj'
    rw [hjs] at hj'
    obtain ⟨hq', hrow'⟩ := hi.jobs j' (List.mem_of_mem_eraseIdx hj')
    refine ⟨hqs ▸ hq', ?_⟩
    intro d' hd' m hm
    rw [htable, if_neg]
    · exact hrow' d' hd' m hm
    · intro hkey
      exact hi.jobs_key hk hj' hr.digest (hkey.2.1 ▸ hd') hkey.1
  · rw [hjs]
    exact hi.jobsApart.sublist (List.eraseIdx_sublist _ _)

theorem Inv.purge (hi : Inv b n) (f : Flavor) (target : Digest) :
    Inv b { n with table := cdmDiffHtPurge n.table f target } := by
  have hsub : ∀ {f' d m e}, cdmDiffHtPurge n.table f target f' d m = some e → n.table f' d m = some e := by
    intro f' d m e h
    exact ((purged n.table fun e he hp => hi.present_entry he hp).mp h).1
  refine ⟨hi.ordered, ?_, hi.queued, hi.diffs, ?_, ?_, hi.jobsApart, hi.asserts⟩
  · intro f' d m e h
    exact hi.entries f' d m e (hsub h)
  · intro j hj d m e hd h
    exact hi.forward j hj d m e hd (hsub h)
  · intro j hj
    obtain ⟨hq, hrow⟩ := hi.jobs j hj
    refine ⟨hq, ?_⟩
    intro d hd m hm
    obtain ⟨h, he⟩ := hrow d hd m hm
    refine ⟨h, (purged n.table fun e he hp => hi.present_entry he hp).mpr ⟨he, ?_⟩⟩
    intro hno
    cases hno.1

theorem launch_none (hne : c ≠ recent) (hd : c.sha3AsSigned = none) : launch b f recent n c = n := by
  simp [launch, hne, hd]

theorem launch_table (hne : c ≠ recent) (hd : c.sha3AsSigned = some d) (f' : Flavor) (d' : Digest) (m' : Method) :
    (launch b f recent n c).table f' d' m' =
      if f' = f ∧ d' = d ∧ m' ∈ compressDiffsWith b ∧ n.table f d m' = none then
        some ⟨recent.sha3Uncompressed, .inProgress, none⟩
      else n.table f' d' m' := by
  simp only [launch, if_neg hne, hd]
  exact noted_table b n.table

/-- A rescan came to an older consensus, of digest `d`, without a present diff. -/
structure Launched (b : Build) (f : Flavor) (recent c : Consensus) (d : Digest) (n n' : Cdm) : Prop where
  consensuses : n'.consensuses = n.consensuses
  diffs : n'.diffs = n.diffs
  asserts : n'.assertFailed = n.assertFailed
  table : ∀ f' d' m', n'.table f' d' m' =
    if f' = f ∧ d' = d ∧ m' ∈ compressDiffsWith b ∧ n.table f d m' = none then
      some ⟨recent.sha3Uncompressed, .inProgress, none⟩
    else n.table f' d' m'
  work : (∃ m ∈ compressDiffsWith b, n.table f d m ≠ none) ∧ n'.jobs = n.jobs ∧ n'.queued = n.queued ∨
    (∀ m ∈ compressDiffsWith b, n.table f d m = none) ∧ n'.jobs = n.jobs ++ [⟨c, recent⟩] ∧
      n'.queued = n.queued ++ [⟨c, recent⟩]

theorem launch_spec (hne : c ≠ recent) (hd : c.sha3AsSigned = some d)
    (hpres : ∀ m e, n.table f d m = some e → e.status ≠ .present) {n' : Cdm} (h : launch b f recent n c = n') :
    Launched b f recent c d n n' := by
  have hfailed : (cdmDiffHtCheckAndNotePending b n.table f d recent.sha3Uncompressed).2.2 = false :=
    (noted_failed b n.table).mpr fun m _ e he => hpres m e he
  simp only [launch, if_neg hne, hd, hfailed, Bool.or_false] at h
  subst h
  refine ⟨rfl, rfl, rfl, fun f' d' m' => noted_table b n.table, ?_⟩
  rcases hfound : (cdmDiffHtCheckAndNotePending b n.table f d recent.sha3Uncompressed).2.1 with _ | _
  · exact .inr ⟨(noted_found b n.table).mp hfound, by simp, by simp⟩
  · refine .inl ⟨?_, by simp, by simp⟩
    by_contra hno
    have hall : ∀ m ∈ compressDiffsWith b, n.table f d m = none := by
      intro m hm
      by_contra hm'
      exact hno ⟨m, hm, hm'⟩
    rw [(noted_found b n.table).mpr hall] at hfound
    cases hfound

section Launched

variable {n' : Cdm} {j : Job}

theorem Launched.queued_sub (hl : Launched b f recent c d n n') (hj : j ∈ n.queued) : j ∈ n'.queued := by
  rcases hl.work with ⟨-, -, hq⟩ | ⟨-, -, hq⟩ <;> rw [hq]
  · exact hj
  · exact List.mem_append_left _ hj

theorem Launched.queued_new (hl : Launched b f recent c d n n') (hj : j ∈ n'.queued) :
    j ∈ n.queued ∨ j = ⟨c, recent⟩ ∧ ∀ m ∈ compressDiffsWith b, n.table f d m = none := by
  rcases hl.work with ⟨-, -, hq⟩ | ⟨hnone, -, hq⟩ <;> rw [hq] at hj
  · exact .inl hj
  · exact (List.mem_append.mp hj).imp_right fun h => ⟨List.mem_singleton.mp h, hnone⟩

/-- An entry that is noted leads where its source's consensus may go; the others are as they were. -/
theorem Launched.entry (hl : Launched b f recent c d n n') (hi : Inv b n) (hroute : Route n.consensuses c recent d)
    (hrf : recent.flavor = f) {f' : Flavor} {d' : Digest} {m : Method} {e : CdmDiff} (h : n'.table f' d' m = some e) :
    m ∈ compressDiffsWith b ∧ ∃ c t, Route n.consensuses c t d' ∧ t.flavor = f' ∧ e.targetSha3 = t.sha3Uncompressed ∧
      (e.status = .present → e.entry = some (diffOf ⟨c, t⟩ d' m) ∧ diffOf ⟨c, t⟩ d' m ∈ n.diffs) := by
  rw [hl.table] at h
  split at h
  · next hkey =>
    obtain ⟨rfl, rfl, hm, -⟩ := hkey
    cases h
    exact ⟨hm, c, recent, hroute, hrf, rfl, nofun⟩
  · exact hi.entries f' d' m e h

/-- No target goes back: the new entries have the most recent one, and the new job has no entry in its way. -/
theorem Launched.forward (hl : Launched b f recent c d n n') (hi : Inv b n) (hrecent : mostRecent n f = some recent)
    (hd : c.sha3AsSigned = some d) (hj : j ∈ n'.queued) {d' : Digest} {m : Method} {e : CdmDiff}
    (hd' : j.diffFrom.sha3AsSigned = some d') (h : n'.table j.diffTo.flavor d' m = some e) :
    ∃ t ∈ n.consensuses, t.flavor = j.diffTo.flavor ∧ e.targetSha3 = t.sha3Uncompressed ∧
      j.diffTo.validAfter ≤ t.validAfter := by
  obtain ⟨hrm, hrf⟩ := mostRecent_mem hrecent
  rw [hl.table] at h
  split at h
  · next hkey =>
    cases h
    refine ⟨recent, hrm, hrf.trans hkey.1.symm, rfl, ?_⟩
    rcases hl.queued_new hj with hj | ⟨rfl, -⟩
    · obtain ⟨_, hr⟩ := hi.queued j hj
      exact le_mostRecent hrecent hr.target hkey.1
    · exact le_refl _
  · rcases hl.queued_new hj with hj | ⟨rfl, hnone⟩
    · exact hi.forward j hj d' m e hd' h
    · rw [hd, Option.some.injEq] at hd'
      subst hd'
      have hm := (hi.entries _ _ _ _ h).1
      have hrow : n.table f d m = some e := hrf ▸ h
      rw [hnone m hm] at hrow
      cases hrow

/-- A job has the whole row of its source in progress. The row of an old one was full, so nothing was noted in it. -/
theorem Launched.job (hl : Launched b f recent c d n n') (hi : Inv b n) (hrf : recent.flavor = f)
    (hd : c.sha3AsSigned = some d) (hj : j ∈ n'.jobs) :
    j ∈ n'.queued ∧ ∀ d, j.diffFrom.sha3AsSigned = some d → ∀ m ∈ compressDiffsWith b,
      ∃ h, n'.table j.diffTo.flavor d m = some ⟨j.diffTo.sha3Uncompressed, .inProgress, h⟩ := by
  have hold : j ∈ n.jobs → j ∈ n'.queued ∧ ∀ d, j.diffFrom.sha3AsSigned = some d → ∀ m ∈ compressDiffsWith b,
      ∃ h, n'.table j.diffTo.flavor d m = some ⟨j.diffTo.sha3Uncompressed, .inProgress, h⟩ := by
    intro hj
    obtain ⟨hq, hrow⟩ := hi.jobs j hj
    refine ⟨hl.queued_sub hq, ?_⟩
    intro d' hd' m hm
    obtain ⟨h, he⟩ := hrow d' hd' m hm
    refine ⟨h, ?_⟩
    rw [hl.table, if_neg, he]
    intro hkey
    rw [hkey.1, hkey.2.1, hkey.2.2.2] at he
    cases he
  rcases hl.work with ⟨-, hjs, -⟩ | ⟨hnone, hjs, hqs⟩ <;> rw [hjs] at hj
  · exact hold hj
  · rcases List.mem_append.mp hj with hj | hj
    · exact hold hj
    · rw [List.mem_singleton.mp hj]
      refine ⟨by simp [hqs], ?_⟩
      intro d' hd' m hm
      have hdd : d = d' := Option.some.inj (hd.symm.trans hd')
      subst hdd
      exact ⟨none, by rw [hl.table, if_pos ⟨hrf, rfl, hm, hnone m hm⟩]⟩

theorem Launched.jobsApart (hl : Launched b f recent c d n n') (hi : Inv b n) (hcf : c.flavor = f)
    (hd : c.sha3AsSigned = some d) : n'.jobs.Pairwise fun j j' => j.diffFrom ≠ j'.diffFrom := by
  rcases hl.work with ⟨-, hjs, -⟩ | ⟨hnone, hjs, -⟩ <;> rw [hjs]
  · exact hi.jobsApart
  · refine List.pairwise_append.mpr ⟨hi.jobsApart, List.pairwise_singleton _ _, ?_⟩
    intro j hj j' hj' heq
    rw [List.mem_singleton.mp hj'] at heq
    -- an outstanding job from this consensus would have filled its row
    have hjd : j.diffFrom.sha3AsSigned = some d := by rw [heq, hd]
    obtain ⟨h, he⟩ := (hi.jobs j hj).2 d hjd .no (no_mem_compressDiffsWith b)
    obtain ⟨_, hr⟩ := hi.queued j (hi.jobs j hj).1
    have hf : j.diffTo.flavor = f := by rw [← hr.flavor, heq, hcf]
    rw [hf, hnone .no (no_mem_compressDiffsWith b)] at he
    cases he

end Launched

theorem Inv.launched (hi : Inv b n) (hrecent : mostRecent n f = some recent) (hc : c ∈ n.consensuses)
    (hcf : c.flavor = f) (hne : c ≠ recent)
    (hpres : ∀ d m e, c.sha3AsSigned = some d → n.table f d m = some e → e.status ≠ .present) :
    Inv b (launch b f recent n c) := by
  rcases hd : c.sha3AsSigned with _ | d
  · rw [launch_none hne hd]
    exact hi
  have hl := launch_spec (b := b) hne hd (fun m e => hpres d m e hd) rfl
  obtain ⟨hrm, hrf⟩ := mostRecent_mem hrecent
  have hroute : Route n.consensuses c recent d := by
    refine ⟨hc, hrm, hcf.trans hrf.symm, hd, ?_⟩
    apply lt_of_le_of_ne (le_mostRecent hrecent hc hcf)
    intro h
    exact hne (hi.validAfter_inj hc hrm (hcf.trans hrf.symm) h)
  refine ⟨hl.consensuses ▸ hi.ordered, ?_, ?_, ?_, ?_, fun j hj => hl.job hi hrf hd hj, hl.jobsApart hi hcf hd,
    hl.asserts.trans hi.asserts⟩
  · intro f' d' m e h
    rw [hl.consensuses, hl.diffs]
    exact hl.entry hi hroute hrf h
  · intro j hj
    rw [hl.consensuses]
    rcases hl.queued_new hj with hj | ⟨rfl, -⟩
    · exact hi.queued j hj
    · exact ⟨d, hroute⟩
  · intro x hx
    rw [hl.diffs] at hx
    obtain ⟨j, d', m, hj, hrest⟩ := hi.diffs x hx
    exact ⟨j, d', m, hl.queued_sub hj, hrest⟩
  · intro j hj d' m e hd' h
    rw [hl.consensuses]
    exact hl.forward hi hrecent hd hj hd' h

theorem mostRecent_congr {n n' : Cdm} (h : n'.consensuses = n.consensuses) (f : Flavor) :
    mostRecent n' f = mostRecent n f := by
  rw [mostRecent, sortedConsensuses, h]
  rfl

/-- A rescan under way: from `n` after the purge, with the loop at `s`. -/
structure Rescanning (b : Build) (n : Cdm) (f : Flavor) (recent : Consensus) (s : Cdm) : Prop where
  inv : Inv b s
  consensuses : s.consensuses = n.consensuses
  diffs : s.diffs = n.diffs
  purged : ∀ d m e, s.table f d m = some e → e.status = .present → e.targetSha3 = recent.sha3Uncompressed

/-- A present diff of a source that the rescan comes to would be in the cache. -/
theorem Rescanning.not_present {s : Cdm} (hs : Rescanning b n f recent s) (hrecent : mostRecent n f = some recent)
    (hc : c ∈ n.consensuses) (hcf : c.flavor = f) (hno : haveDiffFrom n f recent c.validAfter = false)
    {m : Method} {e : CdmDiff} (hd : c.sha3AsSigned = some d) (he : s.table f d m = some e) : e.status ≠ .present := by
  intro hp
  obtain ⟨-, c', t, hr, htf, ht, hx⟩ := hs.inv.entries f d m e he
  obtain ⟨hrm, hrf⟩ := mostRecent_mem hrecent
  rw [← hs.consensuses] at hc hrm
  have hcc : c' = c := hs.inv.asSigned_inj hr.source hc (hr.flavor.trans (htf.trans hcf.symm)) hr.digest hd
  have htt : t = recent := by
    apply hs.inv.sha3_inj hr.target hrm (htf.trans hrf.symm)
    rw [← ht, hs.purged d m e he hp]
  subst hcc htt
  have hmem := (hx hp).2
  rw [hs.diffs] at hmem
  have hhave : haveDiffFrom n f t c'.validAfter = true := by
    apply List.any_eq_true.mpr
    exact ⟨_, hmem, by simp [diffOf, hcf]⟩
  rw [hhave] at hno
  cases hno

theorem Rescanning.launched {s : Cdm} (hs : Rescanning b n f recent s) (hrecent : mostRecent n f = some recent)
    (hc : c ∈ n.consensuses) (hcf : c.flavor = f) (hne : c ≠ recent)
    (hno : haveDiffFrom n f recent c.validAfter = false) : Rescanning b n f recent (launch b f recent s c) := by
  have hpres : ∀ d m e, c.sha3AsSigned = some d → s.table f d m = some e → e.status ≠ .present := by
    intro d m e hd he
    exact hs.not_present hrecent hc hcf hno hd he
  have hinv := hs.inv.launched ((mostRecent_congr hs.consensuses f).trans hrecent) (hs.consensuses ▸ hc) hcf hne hpres
  rcases hd : c.sha3AsSigned with _ | d
  · rw [launch_none hne hd]
    exact hs
  generalize hn' : launch b f recent s c = s' at hinv
  obtain ⟨hcs, hds, -, htable, -⟩ := launch_spec hne hd (fun m e => hpres d m e hd) hn'
  refine ⟨hinv, hcs.trans hs.consensuses, hds.trans hs.diffs, ?_⟩
  intro d' m e he hp
  rw [htable] at he
  split at he
  · cases he
    rfl
  · exact hs.purged d' m e he hp

theorem Inv.rescanning (hi : Inv b n) (f : Flavor) (recent : Consensus) :
    Rescanning b n f recent { n with table := cdmDiffHtPurge n.table f recent.sha3Uncompressed } := by
  refine ⟨hi.purge f _, rfl, rfl, ?_⟩
  intro d m e he hp
  obtain ⟨-, hno⟩ := (Consdiffmgr.purged n.table fun e he hp => hi.present_entry he hp).mp he
  by_contra hne
  exact hno ⟨hp, rfl, hne⟩

/-- What the purge gives and every turn of the loop keeps holds after the rescan. -/
theorem Inv.rescan_rec (hi : Inv b n) (hrecent : mostRecent n f = some recent) {P : Cdm → Prop}
    (h0 : P { n with table := cdmDiffHtPurge n.table f recent.sha3Uncompressed })
    (hstep : ∀ s c, Rescanning b n f recent s → P s → c ∈ n.consensuses → c.flavor = f → c ≠ recent →
      haveDiffFrom n f recent c.validAfter = false → P (launch b f recent s c)) :
    Rescanning b n f recent (consdiffmgrRescanFlavor b n f) ∧ P (consdiffmgrRescanFlavor b n f) := by
  have heq : consdiffmgrRescanFlavor b n f = (computeDiffsFrom n f recent).foldl (launch b f recent)
      { n with table := cdmDiffHtPurge n.table f recent.sha3Uncompressed } := by
    rw [consdiffmgrRescanFlavor, hrecent]
  rw [heq]
  apply List.foldlRecOn (motive := fun s => Rescanning b n f recent s ∧ P s) _ _ ⟨hi.rescanning f recent, h0⟩
  intro s hs c hc
  obtain ⟨⟨hcm, hcf, hne⟩, hno⟩ := (mem_computeDiffsFrom hi.nodup hrecent).mp hc
  exact ⟨hs.1.launched hrecent hcm hcf hne hno, hstep s c hs.1 hs.2 hcm hcf hne hno⟩

theorem Inv.rescan (hi : Inv b n) (f : Flavor) : Inv b (consdiffmgrRescanFlavor b n f) := by
  rcases hrecent : mostRecent n f with _ | recent
  · rw [consdiffmgrRescanFlavor, hrecent]
    exact hi
  · exact (hi.rescan_rec hrecent (P := fun _ => True) trivial fun _ _ _ _ _ _ _ _ => trivial).1.inv

theorem Inv.step (hi : Inv b n) {ev : Event} {n' : Cdm} (h : Consdiffmgr.step b n ev = some n') : Inv b n' := by
  cases ev with
  | add c =>
    simp only [Consdiffmgr.step] at h
    split at h
    · next he =>
      cases h
      exact hi.add he
    · cases h
  | rescan f =>
    cases h
    exact hi.rescan f
  | reply k stored =>
    simp only [Consdiffmgr.step] at h
    split at h
    · cases h
    · next j hk =>
      cases h
      exact hi.reply hk stored

theorem inv_run {es : List Event} (h : run (step b) Cdm.init es = some n) : Inv b n :=
  run_inv_hist (I := fun _ n => Inv b n) (inv_init b) (fun _ _ _ _ _ hi hstep => hi.step hstep) h

end Inv

end Badnet.Consdiffmgr
