/-
  Badnet.SharedRandom.HonestAuthority — what the others hold of an authority that follows the protocol.

  It publishes the line of its commitment in the commit phase and that of its reveal in the reveal phase. Whatever other
  votes carry, also in its name, and in whatever order they come: who has a commit of it has its commitment, and who got
  both lines in their phases has its value (`honest_value_delivered`). So all of these agree on it.
-/

import Badnet.SharedRandom.Commits

namespace Badnet.SharedRandom

open Lib Encoding Dirparse

variable {sha3 : Bytes → Digest256} {known : Identity → Bool} {s t : SrState} {c commit : SrCommit} {voter : Identity}
  {phase : SrPhase} {commits : List SrCommit}

/-- The commit is read from the line of `c` for a phase. -/
def FromLine (c : SrCommit) (phase : SrPhase) (commit : SrCommit) : Prop :=
  (argumentsOfLine (getVoteLineFromCommit c phase)).bind srParseCommit = some commit

/-- The commitment of `c`, and no value but that of `c`. -/
structure SameValue (c saved : SrCommit) : Prop where
  text : saved.encodedCommit = c.encodedCommit
  value : saved.hasRevealValue = true → saved.encodedReveal = c.encodedReveal ∧ saved.randomNumber = c.randomNumber

def HoldsValue (c : SrCommit) (s : SrState) : Prop := ∀ saved, s.getCommit c.rsaIdentity = some saved → SameValue c saved

theorem Generated.fromLine (h : Generated sha3 c) (hline : FromLine c phase commit) : SameValue c commit := by
  cases phase with
  | COMMIT =>
    rw [FromLine, h.commit_line] at hline
    obtain rfl : c.published = commit := Option.some.inj ((h.parse []).symm.trans hline)
    exact ⟨rfl, nofun⟩
  | REVEAL =>
    rw [FromLine, h.reveal_line] at hline
    have hparse := (h.parse [c.encodedReveal]).symm.trans hline
    change (decodeStamped SR_REVEAL_BASE64_LEN c.encodedReveal).map _ = _ at hparse
    rw [h.revealDecoded] at hparse
    obtain rfl := Option.some.inj hparse
    exact ⟨rfl, fun _ => ⟨rfl, rfl⟩⟩

/-! ## One commit of a vote -/

/-- Only votes of the authority can put a commit of it into the state, and these carry its lines. -/
theorem handleCommit_value (h : Generated sha3 c)
    (hfrom : voter = c.rsaIdentity → commit.rsaIdentity = c.rsaIdentity → ∃ phase, FromLine c phase commit)
    (hs : HoldsValue c s) (hrun : handleCommit sha3 known voter s commit = some t) : HoldsValue c t := by
  obtain ⟨t', ht', hcases⟩ := handleCommit_cases sha3 known voter s commit
  obtain rfl := Option.some.inj (ht'.symm.trans hrun)
  intro saved hsaved
  rcases hcases with ⟨-, rfl⟩ | ⟨-, howner, -, -, hstores⟩ | ⟨-, howner, old, hold, -, -, -, hstores⟩
  · exact hs saved hsaved
  all_goals
    rw [hstores.get] at hsaved
    by_cases hid : c.rsaIdentity = voter
    swap
    · rw [if_neg hid] at hsaved
      exact hs saved hsaved
    rw [if_pos hid] at hsaved
    obtain rfl := Option.some.inj hsaved
    obtain ⟨phase, hline⟩ := hfrom hid.symm (howner.trans hid.symm)
    have hvalue := h.fromLine hline
  · exact ⟨hvalue.text, hvalue.value⟩
  · exact ⟨(hs old (hid ▸ hold)).text, hvalue.value⟩

/-- What `should_keep_commit` lets through is stored, with its value. -/
theorem handleCommit_kept (hkeep : shouldKeepCommit sha3 known s commit voter s.phase = true)
    (hrun : handleCommit sha3 known voter s commit = some t) :
    ∃ a, t.getCommit voter = some a ∧ a.encodedReveal = commit.encodedReveal := by
  obtain ⟨t', ht', ⟨hno, -⟩ | ⟨-, -, -, -, hstores⟩ | ⟨-, -, saved, -, -, -, -, hstores⟩⟩ :=
    handleCommit_cases sha3 known voter s commit
  all_goals obtain rfl := Option.some.inj (ht'.symm.trans hrun)
  · rw [hkeep] at hno
    cases hno
  · exact ⟨_, (hstores.get voter).trans (if_pos rfl), rfl⟩
  · exact ⟨_, (hstores.get voter).trans (if_pos rfl), rfl⟩

theorem progress_of_run {xs : List SrCommit} (hdecoded : ∀ p ∈ xs, Decoded p)
    (hrun : run (handleCommit sha3 known voter) s xs = some t) : Progress sha3 voter xs s t := by
  obtain ⟨t', ht', hprogress⟩ := foldlM_progress sha3 known voter xs s hdecoded
  exact Option.some.inj (ht'.symm.trans hrun) ▸ hprogress

/-! ## Every run -/

variable {ours : Option (OurCommit sha3)} {events : List Event}

theorem received_decoded (commits : List ParsedCommit) : ∀ q ∈ deletionOrder (commits.map (·.1)), Decoded q := by
  intro q hq
  obtain ⟨⟨p, args, hargs⟩, -, rfl⟩ := List.mem_map.mp (mem_deletionOrder.mp hq)
  exact srParseCommit_decoded hargs

theorem run_phase (hrun : run (step sha3) (SrState.start ours) events = some s) :
    s.phase = .REVEAL ↔ Event.enterReveal ∈ events := by
  refine run_inv_hist (I := fun pre u => u.phase = .REVEAL ↔ Event.enterReveal ∈ pre) (by simp [SrState.start]) ?_ hrun
  intro pre u event v _ hu hv
  cases event with
  | enterReveal =>
    cases hv
    simp
  | received known voter commits =>
    rw [(progress_of_run (received_decoded commits) hv).phase, hu]
    simp

/-- Every commit in the name of the authority in a vote of its own is read from a line of `c`. -/
def VotesLinesOf (c : SrCommit) (events : List Event) : Prop :=
  ∀ known commits, Event.received known c.rsaIdentity commits ∈ events →
    ∀ p ∈ commits, p.1.rsaIdentity = c.rsaIdentity → ∃ phase, FromLine c phase p.1

theorem run_value (h : Generated sha3 c) (hours : ∀ o, ours = some o → o.1.rsaIdentity = c.rsaIdentity → o.1 = c)
    (hvotes : VotesLinesOf c events) (hrun : run (step sha3) (SrState.start ours) events = some s) : HoldsValue c s := by
  refine run_inv_steps (C := fun _ event => event ∈ events) ?_ ?_ ?_ hrun
  · intro u event v hu hevent hv
    cases event with
    | enterReveal =>
      cases hv
      exact hu
    | received known voter commits =>
      refine run_inv_steps (C := fun _ p => p ∈ deletionOrder (commits.map (·.1))) ?_ hu ?_ hv
      · intro u p v hu hp hv
        refine handleCommit_value h (fun hid howner => ?_) hu hv
        obtain ⟨q, hq, rfl⟩ := List.mem_map.mp (mem_deletionOrder.mp hp)
        exact hvotes known commits (hid ▸ hevent) q hq howner
      · exact fun pre p u hpre _ => hpre.subset (List.mem_append_right pre List.mem_cons_self)
  · intro saved hsaved
    obtain ⟨o, ho, rfl⟩ := start_getCommit hsaved
    rw [hours o ho (getCommit_identity hsaved)]
    exact ⟨rfl, fun _ => ⟨rfl, rfl⟩⟩
  · exact fun pre event u hpre _ => hpre.subset (List.mem_append_right pre List.mem_cons_self)

/-- A vote of the authority has come in with the line of a phase, after events that were as in `earlier`, and the
authority was known then. -/
def Voted (c : SrCommit) (phase : SrPhase) (earlier : List Event → Prop) (events : List Event) : Prop :=
  ∃ pre known commits post, events = pre ++ .received known c.rsaIdentity commits :: post ∧ earlier pre ∧
    known c.rsaIdentity = true ∧ ∃ p ∈ commits, FromLine c phase p.1

/-- The line of the commitment came in during the commit phase. -/
def CommitDelivered (c : SrCommit) : List Event → Prop := Voted c .COMMIT fun pre => Event.enterReveal ∉ pre

/-- And after it the line of the reveal, during the reveal phase. -/
def RevealDelivered (c : SrCommit) : List Event → Prop :=
  Voted c .REVEAL fun pre => CommitDelivered c pre ∧ Event.enterReveal ∈ pre

/-- A commit that the vote brings, or that is there already, is there in the end. `P` is what the state before the vote
has, whatever commits of the vote come first. -/
theorem run_voted {P : SrState → Prop} {G : SrCommit → Prop} {earlier : List Event → Prop}
    (hP : ∀ xs u v, Progress sha3 c.rsaIdentity xs u v → P u → P v) (hG : ∀ a b, Keeps a b → G a → G b)
    (hstart : ∀ pre u, pre <+: events → earlier pre → run (step sha3) (SrState.start ours) pre = some u → P u)
    (hone : ∀ u known commit, P u → known c.rsaIdentity = true → FromLine c phase commit →
      (∃ a, u.getCommit c.rsaIdentity = some a ∧ G a) ∨
        shouldKeepCommit sha3 known u commit c.rsaIdentity u.phase = true ∧
          ∀ a : SrCommit, a.encodedReveal = commit.encodedReveal → G a)
    (h : Voted c phase earlier events) (hrun : run (step sha3) (SrState.start ours) events = some s) :
    ∃ a, s.getCommit c.rsaIdentity = some a ∧ G a := by
  obtain ⟨pre, known, commits, post, hsplit, hearlier, hknown, p, hp, hline⟩ := h
  obtain ⟨s', hs', -, hint⟩ := run_integrity ours events
  obtain rfl := Option.some.inj (hs'.symm.trans hrun)
  obtain ⟨t, ht, hkeeps⟩ := hint.unchanged (pre ++ [.received known c.rsaIdentity commits]) ⟨post, by simp [hsplit]⟩
  obtain ⟨u, hu, hvote⟩ := (run_snoc_some _).mp ht
  have hdecoded := received_decoded commits
  obtain ⟨xs, ys, hxy⟩ : ∃ xs ys, deletionOrder (commits.map (·.1)) = xs ++ p.1 :: ys :=
    List.append_of_mem (mem_deletionOrder.mpr (List.mem_map_of_mem hp))
  change run (handleCommit sha3 known c.rsaIdentity) u (deletionOrder (commits.map (·.1))) = some t at hvote
  rw [hxy] at hdecoded hvote
  obtain ⟨v, hxs, hvote⟩ := (run_append_some _).mp hvote
  obtain ⟨w, hw, hys⟩ := Option.bind_eq_some_iff.mp hvote
  have hPv := hP _ _ _ (progress_of_run (fun q hq => hdecoded q (by simp [hq])) hxs)
    (hstart pre u ⟨_, hsplit.symm⟩ hearlier hu)
  have hbrought : ∃ a, w.getCommit c.rsaIdentity = some a ∧ G a := by
    rcases hone v known p hPv hknown hline with ⟨a, ha, hgot⟩ | ⟨hkeep, hgot⟩
    · have hsingle : ∀ q ∈ [p.1], Decoded q := fun q hq => hdecoded q (by simp_all)
      have hprogress := progress_of_run hsingle (by simpa using hw)
      obtain ⟨b, hb, hab⟩ := hprogress.keeps _ a ha
      exact ⟨b, hb, hG a b hab hgot⟩
    · obtain ⟨a, ha, hsame⟩ := handleCommit_kept hkeep hw
      exact ⟨a, ha, hgot a hsame⟩
  obtain ⟨a, ha, hgot⟩ := hbrought
  obtain ⟨b, hb, hab⟩ := (progress_of_run (fun q hq => hdecoded q (by simp [hq])) hys).keeps _ a ha
  obtain ⟨d, hd, hbd⟩ := hkeeps _ b hb
  exact ⟨d, hd, hG b d hbd (hG a b hab hgot)⟩

theorem run_commitment (h : Generated sha3 c) (hdelivered : CommitDelivered c events)
    (hrun : run (step sha3) (SrState.start ours) events = some s) : ∃ a, s.getCommit c.rsaIdentity = some a := by
  obtain ⟨p, hparse, -, -, hkeep⟩ := h.accepted.commitLine
  suffices hsome : ∃ a, s.getCommit c.rsaIdentity = some a ∧ True from hsome.imp fun _ => And.left
  refine run_voted (P := fun u => u.phase = .COMMIT) (fun xs u v hprogress hu => hprogress.phase.trans hu)
    (fun _ _ _ _ => trivial) (fun pre u _ hpre hu => ?_) (fun u known commit hu hknown hline => ?_) hdelivered hrun
  · cases hphase : u.phase with
    | COMMIT => rfl
    | REVEAL => exact absurd ((run_phase hu).mp hphase) hpre
  · obtain rfl := Option.some.inj (hparse.symm.trans hline)
    rw [hu]
    cases hget : u.getCommit c.rsaIdentity with
    | some a => exact .inl ⟨a, rfl, trivial⟩
    | none => exact .inr ⟨hkeep known u hknown hget, fun _ _ => trivial⟩

theorem run_reveal (h : Generated sha3 c) (hours : ∀ o, ours = some o → o.1.rsaIdentity = c.rsaIdentity → o.1 = c)
    (hvotes : VotesLinesOf c events) (hdelivered : RevealDelivered c events)
    (hrun : run (step sha3) (SrState.start ours) events = some s) :
    ∃ a, s.getCommit c.rsaIdentity = some a ∧ a.hasRevealValue = true := by
  obtain ⟨p, hparse, -, hvalue, hkeep⟩ := h.accepted.revealLine
  refine run_voted (P := fun u => u.phase = .REVEAL ∧ ∃ a, u.getCommit c.rsaIdentity = some a ∧
    a.encodedCommit = c.encodedCommit) ?_ (fun a b hab ha => hab.reveal ha ▸ ha) ?_ ?_ hdelivered hrun
  · rintro xs u v hprogress ⟨hphase, a, ha, htext⟩
    obtain ⟨b, hb, hab⟩ := hprogress.keeps _ a ha
    exact ⟨hprogress.phase.trans hphase, b, hb, hab.text.trans htext⟩
  · rintro pre u hearly ⟨hcommit, hpre⟩ hu
    obtain ⟨a, ha⟩ := run_commitment h hcommit hu
    have hs := run_value h hours (fun k cs hmem => hvotes k cs (hearly.subset hmem)) hu
    exact ⟨(run_phase hu).mpr hpre, a, ha, (hs a ha).text⟩
  · rintro u known commit ⟨hphase, a, ha, htext⟩ hknown hline
    obtain rfl := Option.some.inj (hparse.symm.trans hline)
    rw [hphase]
    by_cases hold : a.hasRevealValue = true
    · exact .inl ⟨a, ha, hold⟩
    · refine .inr ⟨hkeep known u a hknown ha htext (Bool.eq_false_iff.mpr hold), fun b hb => ?_⟩
      rw [SrCommit.hasRevealValue, hb, hvalue]
      exact decide_eq_true h.revealWord.ne_nil

/-- Whatever the votes of the others are: a commit of an honest authority is the one it made, it is there once its
line came in during the commit phase, and with its value once the other line came in during the reveal phase. -/
theorem honest_value_delivered {timestamp : UInt64} {digest : Identity} {random : Digest256}
    (hc : srGenerateOurCommit sha3 timestamp digest random = some c)
    (hours : ∀ o, ours = some o → o.1.rsaIdentity = c.rsaIdentity → o.1 = c) (hvotes : VotesLinesOf c events) :
    ∃ s, run (step sha3) (SrState.start ours) events = some s ∧ HoldsValue c s ∧
      (CommitDelivered c events → ∃ a, s.getCommit digest = some a) ∧
      (RevealDelivered c events → ∃ a, s.getCommit digest = some a ∧
        a.encodedReveal = c.encodedReveal ∧ a.randomNumber = c.randomNumber) := by
  obtain ⟨c', hc', hdigest, h⟩ := srGenerateOurCommit_spec sha3 timestamp digest random
  obtain rfl := Option.some.inj (hc'.symm.trans hc)
  subst hdigest
  obtain ⟨s, hrun, -, -⟩ := run_integrity ours events
  have hvalue := run_value h hours hvotes hrun
  refine ⟨s, hrun, hvalue, fun hcommit => run_commitment h hcommit hrun, fun hreveal => ?_⟩
  obtain ⟨a, ha, hhas⟩ := run_reveal h hours hvotes hreveal hrun
  exact ⟨a, ha, (hvalue a ha).value hhas⟩

/-- A commit with both its lines delivered. -/
theorem honest_value_delivered_in_both_phases : ∃ (c : SrCommit) (events : List Event) (s : SrState),
    RevealDelivered c events ∧
      run (step fun _ => zeroBytes 32) (SrState.start (none : Option (OurCommit fun _ => zeroBytes 32))) events = some s ∧
      ∃ a, s.getCommit (zeroBytes 20) = some a ∧ a.randomNumber = c.randomNumber := by
  obtain ⟨c, hc, -, h⟩ := srGenerateOurCommit_spec (fun _ => zeroBytes 32) 0 (zeroBytes 20) (zeroBytes 32)
  obtain ⟨p, hp, -⟩ := h.accepted.commitLine
  obtain ⟨q, hq, -⟩ := h.accepted.revealLine
  obtain ⟨args, -, hargs⟩ := Option.bind_eq_some_iff.mp hp
  obtain ⟨args', -, hargs'⟩ := Option.bind_eq_some_iff.mp hq
  let events : List Event := [.received (fun _ => true) c.rsaIdentity [⟨p, args, hargs⟩], .enterReveal,
    .received (fun _ => true) c.rsaIdentity [⟨q, args', hargs'⟩]]
  have hcommit : CommitDelivered c (events.take 2) :=
    ⟨[], _, _, _, rfl, List.not_mem_nil, rfl, _, List.mem_singleton_self _, hp⟩
  have hreveal : RevealDelivered c events :=
    ⟨events.take 2, _, _, [], rfl, ⟨hcommit, by simp [events]⟩, rfl, _, List.mem_singleton_self _, hq⟩
  have hvotes : VotesLinesOf c events := by
    intro known commits hmem r hr _
    simp only [events, List.mem_cons, List.not_mem_nil, or_false, reduceCtorEq, false_or, Event.received.injEq,
      true_and] at hmem
    rcases hmem with ⟨-, rfl⟩ | ⟨-, rfl⟩ <;> rw [List.mem_singleton.mp hr]
    · exact ⟨.COMMIT, hp⟩
    · exact ⟨.REVEAL, hq⟩
  obtain ⟨s, hrun, -, -, hvalue⟩ := @honest_value_delivered _ c none events _ _ _ hc (fun o ho => by cases ho) hvotes
  obtain ⟨a, ha, -, hnumber⟩ := hvalue hreveal
  exact ⟨c, events, s, hreveal, hrun, a, ha, hnumber⟩

end Badnet.SharedRandom
