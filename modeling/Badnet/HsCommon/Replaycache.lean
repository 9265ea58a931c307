/-
  Badnet.HsCommon.Replaycache — the replay cache of a hidden service (`feature/hs_common/replaycache.c`).

  The cache has for each digest the time it was presented last. What is scrubbed once can never be a hit again, since no
  later call has an earlier time: the answers are those of a cache that is never scrubbed (`scrubbing_hides_no_replay`).
-/

import Badnet.Encoding.Base64
import Badnet.Lib.Refine

namespace Badnet.HsCommon

open Lib Encoding

abbrev Sha256Digest := { bs : Bytes // bs.length = 32 }

structure Replaycache where
  scrubInterval : Int
  scrubbed : Int
  horizon : Int
  digestsSeen : Sha256Digest → Option Int

def replaycacheNew (horizon interval : Int) : Option Replaycache :=
  if horizon < 0 then none
  else
    let interval := if interval < 0 then 0 else interval
    some { scrubInterval := interval, scrubbed := 0, horizon := horizon, digestsSeen := fun _ => none }

/-- What is returned, and what `*elapsed` is set to. -/
structure AddAnswer where
  hit : Bool
  elapsed : Option Int
  deriving DecidableEq

namespace Replaycache

def set (r : Replaycache) (digest : Sha256Digest) (time : Int) : Replaycache :=
  { r with digestsSeen := fun d => if d = digest then some time else r.digestsSeen d }

def scrubIfNeeded (present : Int) (r : Replaycache) : Replaycache :=
  if present - r.scrubbed < r.scrubInterval ∧ r.scrubbed > 0 then r
  else if r.horizon = 0 then r
  else
    { r with
      digestsSeen := fun d => (r.digestsSeen d).filter fun accessTime => ¬ accessTime < present - r.horizon
      scrubbed := if present > r.scrubbed then present else r.scrubbed }

/-- The part before the cache is scrubbed. -/
def lookUpAndSet (sha256 : Bytes → Sha256Digest) (present : Int) (r : Replaycache) (data : Bytes) : Replaycache × AddAnswer :=
  let digest := sha256 data
  match r.digestsSeen digest with
  | some accessTime =>
    let answer :=
      if accessTime ≥ present - r.horizon ∨ r.horizon = 0 then
        { hit := true, elapsed := some (if present ≥ accessTime then present - accessTime else 0) }
      else { hit := false, elapsed := none }
    (if accessTime < present then r.set digest present else r, answer)
  | none => (r.set digest present, { hit := false, elapsed := none })

def addAndTest (sha256 : Bytes → Sha256Digest) (present : Int) (r : Replaycache) (data : Bytes) : Replaycache × AddAnswer :=
  if present ≤ 0 ∨ data.length = 0 then (r, { hit := false, elapsed := none })
  else
    let (r, answer) := r.lookUpAndSet sha256 present data
    (r.scrubIfNeeded present, answer)

end Replaycache

/-! ## Runs -/

inductive ReplayCall where
  | addAndTest (present : Int) (data : Bytes)
  | scrubIfNeeded (present : Int)

def ReplayCall.present : ReplayCall → Int
  | .addAndTest present _ => present
  | .scrubIfNeeded present => present

section

variable (sha256 : Bytes → Sha256Digest)

/-- The cache and, of a call that adds, the answer. -/
def replayStep (r : Replaycache) : ReplayCall → Option (Replaycache × Option AddAnswer)
  | .addAndTest present data =>
    let (r, answer) := r.addAndTest sha256 present data
    some (r, some answer)
  | .scrubIfNeeded present => some (r.scrubIfNeeded present, none)

/-- The same without any scrubbing. -/
def unscrubbedStep (r : Replaycache) : ReplayCall → Option (Replaycache × Option AddAnswer)
  | .addAndTest present data =>
    let (r, answer) := r.lookUpAndSet sha256 present data
    some (r, some answer)
  | .scrubIfNeeded _ => some (r, none)

/-! ## What the calls determine -/

/-- The times at which data with a digest was presented. -/
def presentedAt (digest : Sha256Digest) (calls : List ReplayCall) : List Int :=
  calls.filterMap fun
    | .addAndTest present data => if sha256 data = digest then some present else none
    | .scrubIfNeeded _ => none

/-- A hit, if there was such a time and the latest is not too long ago. -/
def answerFrom (horizon present : Int) : Option Int → AddAnswer
  | some latest =>
    if horizon = 0 ∨ present - horizon ≤ latest then { hit := true, elapsed := some (present - latest) }
    else { hit := false, elapsed := none }
  | none => { hit := false, elapsed := none }

/-- The state is the calls so far. A call that adds has a time, which is not before that of any call, and data. -/
def replaySpec (horizon : Int) : Spec (List ReplayCall) ReplayCall (Option AddAnswer) where
  legal calls
    | .addAndTest present data => 0 < present ∧ data ≠ [] ∧ ∀ call ∈ calls, call.present ≤ present
    | .scrubIfNeeded _ => True
  next calls call := calls ++ [call]
  answers calls
    | .addAndTest present data, answer =>
      answer = some (answerFrom horizon present (presentedAt sha256 (sha256 data) calls).getLast?)
    | .scrubIfNeeded _, answer => answer = none

end

/-! ## The entries -/

variable {sha256 : Bytes → Sha256Digest} {horizon present : Int} {r t : Replaycache} {calls : List ReplayCall}
  {digest : Sha256Digest} {data : Bytes} {latest : Int}

theorem presentedAt_add (present : Int) (data : Bytes) : presentedAt sha256 digest (calls ++ [.addAndTest present data]) =
    presentedAt sha256 digest calls ++ if sha256 data = digest then [present] else [] := by
  rw [presentedAt, List.filterMap_append, presentedAt]
  by_cases h : sha256 data = digest
  · simp [h]
  · simp [h]

theorem presentedAt_scrub (present : Int) :
    presentedAt sha256 digest (calls ++ [.scrubIfNeeded present]) = presentedAt sha256 digest calls := by
  rw [presentedAt, List.filterMap_append]
  exact List.append_nil _

/-- The latest time is that of a call. -/
theorem exists_call_at (h : (presentedAt sha256 digest calls).getLast? = some latest) :
    ∃ call ∈ calls, call.present = latest := by
  obtain ⟨call, hcall, hat⟩ := List.mem_filterMap.mp (List.mem_of_getLast? h)
  refine ⟨call, hcall, ?_⟩
  cases call with
  | addAndTest time data =>
    simp only at hat
    split at hat
    · exact Option.some.inj hat
    · cases hat
  | scrubIfNeeded time => cases hat

/-- An entry that was removed: at the time of some call it had aged out. -/
def AgedOut (horizon : Int) (calls : List ReplayCall) (latest : Int) : Prop :=
  horizon ≠ 0 ∧ ∃ call ∈ calls, latest < call.present - horizon

/-- An entry has the latest time, or it is gone because that has aged out. -/
def EntryRight (sha256 : Bytes → Sha256Digest) (horizon : Int) (calls : List ReplayCall) (digest : Sha256Digest)
    (entry : Option Int) : Prop :=
  entry = (presentedAt sha256 digest calls).getLast? ∨
    entry = none ∧ ∃ latest, (presentedAt sha256 digest calls).getLast? = some latest ∧ AgedOut horizon calls latest

structure CacheRight (sha256 : Bytes → Sha256Digest) (horizon : Int) (r : Replaycache) (calls : List ReplayCall) : Prop where
  sameHorizon : r.horizon = horizon
  entries : ∀ digest, EntryRight sha256 horizon calls digest (r.digestsSeen digest)

theorem AgedOut.mono {more : List ReplayCall} (h : AgedOut horizon calls latest) : AgedOut horizon (calls ++ more) latest := by
  obtain ⟨hne, call, hcall, hlt⟩ := h
  exact ⟨hne, call, List.mem_append_left _ hcall, hlt⟩

theorem EntryRight.mono {more : List ReplayCall} {entry : Option Int} (h : EntryRight sha256 horizon calls digest entry)
    (hsame : presentedAt sha256 digest (calls ++ more) = presentedAt sha256 digest calls) :
    EntryRight sha256 horizon (calls ++ more) digest entry := by
  rw [EntryRight, hsame]
  exact h.imp id fun ⟨hnone, latest, hlatest, haged⟩ => ⟨hnone, latest, hlatest, haged.mono⟩

/-- Scrubbing removes what has aged out at the time of a call. -/
theorem scrubIfNeeded_right (h : CacheRight sha256 horizon r calls) (hcall : ∃ call ∈ calls, call.present = present) :
    CacheRight sha256 horizon (r.scrubIfNeeded present) calls := by
  rw [Replaycache.scrubIfNeeded]
  split
  · exact h
  split
  · exact h
  · next hzero =>
    refine ⟨h.sameHorizon, fun digest => ?_⟩
    show EntryRight sha256 horizon calls digest ((r.digestsSeen digest).filter _)
    have hentry := h.entries digest
    cases hseen : r.digestsSeen digest with
    | none =>
      rw [hseen] at hentry
      exact hentry
    | some accessTime =>
      rw [hseen] at hentry
      obtain hlatest | ⟨hnone, -⟩ := hentry
      swap
      · cases hnone
      rw [Option.filter_some]
      split
      · exact .inl hlatest
      · next hold =>
        obtain ⟨call, hmem, rfl⟩ := hcall
        refine .inr ⟨rfl, accessTime, hlatest.symm, h.sameHorizon ▸ hzero, call, hmem, ?_⟩
        rw [← h.sameHorizon]
        exact Classical.not_not.mp fun h => hold (decide_eq_true h)

/-- A call that adds gives the answer of the calls so far, and leaves the entries right. -/
theorem lookUpAndSet_right (data : Bytes) (h : CacheRight sha256 horizon r calls) (hlater : ∀ call ∈ calls, call.present ≤ present) :
    (r.lookUpAndSet sha256 present data).2 =
        answerFrom horizon present (presentedAt sha256 (sha256 data) calls).getLast? ∧
      CacheRight sha256 horizon (r.lookUpAndSet sha256 present data).1 (calls ++ [.addAndTest present data]) := by
  have hnow : (presentedAt sha256 (sha256 data) (calls ++ [.addAndTest present data])).getLast? = some present := by
    rw [presentedAt_add, if_pos rfl, List.getLast?_append]
    rfl
  have hothers : ∀ digest, digest ≠ sha256 data →
      EntryRight sha256 horizon (calls ++ [.addAndTest present data]) digest (r.digestsSeen digest) := by
    intro digest hdigest
    refine (h.entries digest).mono ?_
    rw [presentedAt_add, if_neg hdigest.symm, List.append_nil]
  have hset : CacheRight sha256 horizon (r.set (sha256 data) present) (calls ++ [.addAndTest present data]) := by
    refine ⟨h.sameHorizon, fun digest => ?_⟩
    show EntryRight sha256 horizon _ digest (if digest = sha256 data then some present else r.digestsSeen digest)
    by_cases hdigest : digest = sha256 data
    · rw [if_pos hdigest, hdigest]
      exact .inl hnow.symm
    · rw [if_neg hdigest]
      exact hothers digest hdigest
  have hentry := h.entries (sha256 data)
  rw [Replaycache.lookUpAndSet]
  cases hseen : r.digestsSeen (sha256 data) with
  | none =>
    simp only
    refine ⟨?_, hset⟩
    rw [hseen] at hentry
    obtain hnone | ⟨-, latest, hlatest, hne, call, hcall, hlt⟩ := hentry
    · rw [← hnone]
      rfl
    · have hold : ¬ (horizon = 0 ∨ present - horizon ≤ latest) := by
        have := hlater call hcall
        omega
      rw [hlatest, answerFrom, if_neg hold]
  | some accessTime =>
    rw [hseen] at hentry
    obtain hlatest | ⟨hnone, -⟩ := hentry
    swap
    · cases hnone
    obtain ⟨call, hcall, hat⟩ := exists_call_at hlatest.symm
    have hle : accessTime ≤ present := hat ▸ hlater call hcall
    simp only
    refine ⟨?_, ?_⟩
    · rw [← hlatest, answerFrom, h.sameHorizon]
      by_cases hhit : horizon = 0 ∨ present - horizon ≤ accessTime
      · rw [if_pos hhit, if_pos hhit.symm, if_pos hle]
      · rw [if_neg hhit, if_neg fun hor => hhit hor.symm]
    · by_cases hlt : accessTime < present
      · rw [if_pos hlt]
        exact hset
      · obtain rfl : accessTime = present := by omega
        rw [if_neg hlt]
        refine ⟨h.sameHorizon, fun digest => ?_⟩
        by_cases hdigest : digest = sha256 data
        · rw [hdigest, hseen]
          exact .inl hnow.symm
        · exact hothers digest hdigest

/-- What a call that only scrubs, or that is not made for the cache, leaves. -/
theorem CacheRight.scrubCall (h : CacheRight sha256 horizon r calls) (present : Int) :
    CacheRight sha256 horizon r (calls ++ [.scrubIfNeeded present]) :=
  ⟨h.sameHorizon, fun digest => (h.entries digest).mono (presentedAt_scrub present)⟩

theorem replaycacheNew_right {interval : Int} (sha256 : Bytes → Sha256Digest) (h : replaycacheNew horizon interval = some r) :
    CacheRight sha256 horizon r [] := by
  rw [replaycacheNew] at h
  split at h
  · cases h
  · cases h
    exact ⟨rfl, fun _ => .inl rfl⟩

/-! ## Every run -/

section

variable (call : ReplayCall) (h : CacheRight sha256 horizon r calls)
  (hlegal : (replaySpec sha256 horizon).legal calls call)
include call h hlegal

theorem replayStep_simulates :
    ∃ t answer, replayStep sha256 r call = some (t, answer) ∧ (replaySpec sha256 horizon).answers calls call answer ∧
      CacheRight sha256 horizon t ((replaySpec sha256 horizon).next calls call) := by
  cases call with
  | addAndTest present data =>
    obtain ⟨hpos, hdata, hlater⟩ := hlegal
    obtain ⟨hanswer, hright⟩ := lookUpAndSet_right data h hlater
    have hsane : ¬ (present ≤ 0 ∨ data.length = 0) := by
      rintro (hle | hlen)
      · omega
      · exact hdata (List.length_eq_zero_iff.mp hlen)
    have hadd : replayStep sha256 r (.addAndTest present data) =
        some ((r.lookUpAndSet sha256 present data).1.scrubIfNeeded present, some (r.lookUpAndSet sha256 present data).2) := by
      rw [replayStep, Replaycache.addAndTest, if_neg hsane]
    exact ⟨_, _, hadd, congrArg some hanswer,
      scrubIfNeeded_right hright ⟨_, List.mem_append_right _ (List.mem_singleton_self _), rfl⟩⟩
  | scrubIfNeeded present =>
    exact ⟨_, _, rfl, rfl, scrubIfNeeded_right (h.scrubCall present)
      ⟨_, List.mem_append_right _ (List.mem_singleton_self _), rfl⟩⟩

theorem unscrubbedStep_simulates :
    ∃ t answer, unscrubbedStep sha256 r call = some (t, answer) ∧ (replaySpec sha256 horizon).answers calls call answer ∧
      CacheRight sha256 horizon t ((replaySpec sha256 horizon).next calls call) := by
  cases call with
  | addAndTest present data =>
    obtain ⟨hanswer, hright⟩ := lookUpAndSet_right data h hlegal.2.2
    exact ⟨_, _, rfl, congrArg some hanswer, hright⟩
  | scrubIfNeeded present => exact ⟨_, _, rfl, rfl, h.scrubCall present⟩

end

/-- The right answers are determined. -/
theorem answers_unique {calls ls : List ReplayCall} {os os' : List (Option AddAnswer)}
    (h : (replaySpec sha256 horizon).Answers calls ls os) (h' : (replaySpec sha256 horizon).Answers calls ls os') : os = os' := by
  induction ls generalizing calls os os' with
  | nil => exact h.trans h'.symm
  | cons call ls ih =>
    cases os with
    | nil => cases h
    | cons o os =>
      cases os' with
      | nil => cases h'
      | cons o' os' =>
        rw [ih h.2 h'.2]
        congr 1
        cases call with
        | addAndTest present data | scrubIfNeeded present => exact h.1.trans h'.1.symm

/-- In every run a call is a hit exactly if its digest was presented before within the horizon, and the answers are
those of a cache that is never scrubbed. -/
theorem scrubbing_hides_no_replay (sha256 : Bytes → Sha256Digest) (horizon interval : Int) (r : Replaycache)
    (hnew : replaycacheNew horizon interval = some r) (calls : List ReplayCall)
    (hlegal : (replaySpec sha256 horizon).Legal [] calls) :
    ∃ t t' answers, runOut (replayStep sha256) r calls = some (t, answers) ∧
      runOut (unscrubbedStep sha256) r calls = some (t', answers) ∧ (replaySpec sha256 horizon).Answers [] calls answers := by
  have hright := replaycacheNew_right sha256 hnew
  obtain ⟨t, answers, hrun, hanswers, -⟩ :=
    runOut_refines (fun _ _ call h hl => replayStep_simulates call h hl) hright hlegal
  obtain ⟨t', answers', hrun', hanswers', -⟩ :=
    runOut_refines (fun _ _ call h hl => unscrubbedStep_simulates call h hl) hright hlegal
  obtain rfl := answers_unique hanswers hanswers'
  exact ⟨t, t', answers, hrun, hrun', hanswers⟩

def sampleDigest (data : Bytes) : Sha256Digest := ⟨List.replicate 32 data.headI, List.length_replicate⟩

/-- The second call is a hit, the third one comes after the entry was scrubbed. -/
def sampleCalls : List ReplayCall :=
  [.addAndTest 100 [1], .addAndTest 105 [1], .scrubIfNeeded 116, .addAndTest 117 [1]]

theorem sample_calls_found : ∃ r t t' answers, replaycacheNew 10 5 = some r ∧
    runOut (replayStep sampleDigest) r sampleCalls = some (t, answers) ∧
    runOut (unscrubbedStep sampleDigest) r sampleCalls = some (t', answers) ∧
    (replaySpec sampleDigest 10).Answers [] sampleCalls answers := by
  have hlegal : (replaySpec sampleDigest 10).Legal [] sampleCalls := by
    simp [sampleCalls, replaySpec, Spec.Legal, ReplayCall.present]
  obtain ⟨t, t', answers, h⟩ := scrubbing_hides_no_replay sampleDigest 10 5 _ rfl sampleCalls hlegal
  exact ⟨_, t, t', answers, rfl, h⟩

end Badnet.HsCommon
