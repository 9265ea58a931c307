/-
  Badnet.Consdiffmgr.DiffTable — the table of consensus diffs a directory cache serves from (`consdiffmgr.c`).

  The table says, for a source digest, a flavour and a compression method, whether the diff is there, being computed, or
  failed, and which consensus it leads to. A rescan drops the diffs to other targets than the most recent consensus and
  queues a job for every older one that has no diff to it. A label of `step` is a consensus entering the cache, a
  rescan, or a reply to one of the outstanding jobs.
-/

import Badnet.Lib.Run
import Mathlib.Data.List.Sort
import Mathlib.Algebra.Ring.Nat

namespace Badnet.Consdiffmgr

open Lib

/-- `consensus_flavor_t`. -/
inductive Flavor | ns | microdesc
deriving DecidableEq

/-- `compress_method_t`. -/
inductive Method | no | gzip | zlib | lzma | zstd
deriving DecidableEq

/-- `cdm_diff_status_t`. -/
inductive Status | present | inProgress | error
deriving DecidableEq

abbrev Digest := BitVec 256

/-- Which compression libraries the build has. -/
structure Build where
  haveLzma : Bool
  haveZstd : Bool

variable (b : Build)

def compressDiffsWith : List Method :=
  [.no, .gzip] ++ (if b.haveLzma then [.lzma] else []) ++ (if b.haveZstd then [.zstd] else [])

/-- A consensus in the cache, under the compression method that is kept: the labels that are
    read. The as-signed digest is missing on files of old versions. -/
structure Consensus where
  flavor : Flavor
  validAfter : Int
  sha3Uncompressed : Digest
  sha3AsSigned : Option Digest
deriving DecidableEq

/-- A consensus diff in the cache: its labels. -/
structure Diff where
  flavor : Flavor
  validAfter : Int
  fromValidAfter : Int
  fromSha3 : Digest
  targetSha3 : Digest
  compression : Method
deriving DecidableEq

/-- `cdm_diff_t` without its key; `entry` is the handle of the diff in the cache. -/
structure CdmDiff where
  targetSha3 : Digest
  status : Status
  entry : Option Diff
deriving DecidableEq

/-- `cdm_diff_ht`, by flavour, source digest and compression method. -/
abbrev Table := Flavor → Digest → Method → Option CdmDiff

/-- `consensus_diff_worker_job_t`: its inputs. -/
structure Job where
  diffFrom : Consensus
  diffTo : Consensus
deriving DecidableEq

/-! ## The functions of the table -/

variable (t : Table)

def Table.set (f : Flavor) (d : Digest) (m : Method) (e : CdmDiff) : Table :=
  fun f' d' m' => if f' = f ∧ d' = d ∧ m' = m then some e else t f' d' m'

/-- One turn of the loop of `cdm_diff_ht_check_and_note_pending`: the table, whether an entry
    was found, whether an assertion failed. -/
def notePending (f : Flavor) (fromSha3 target : Digest) (acc : Table × Bool × Bool) (m : Method) :
    Table × Bool × Bool :=
  match acc.1 f fromSha3 m with
  | some ent => (acc.1, true, acc.2.2 || ent.status == .present)
  | none => (acc.1.set f fromSha3 m ⟨target, .inProgress, none⟩, acc.2.1, acc.2.2)

/-- `cdm_diff_ht_check_and_note_pending`. -/
def cdmDiffHtCheckAndNotePending (f : Flavor) (fromSha3 target : Digest) : Table × Bool × Bool :=
  (compressDiffsWith b).foldl (notePending f fromSha3 target) (t, false, false)

/-- `cdm_diff_ht_set_status`: the table, and whether an assertion failed. -/
def cdmDiffHtSetStatus (f : Flavor) (fromSha3 toSha3 : Digest) (m : Method) (status : Status) (handle : Option Diff) :
    Table × Bool :=
  let noHandle := handle.isNone && status == .present
  match t f fromSha3 m with
  | none => (t.set f fromSha3 m ⟨toSha3, status, handle⟩, noHandle)
  | some ent =>
    if ent.targetSha3 ≠ toSha3 then (t, noHandle)
    else (t.set f fromSha3 m ⟨ent.targetSha3, status, handle⟩, noHandle || ent.status != .inProgress)

/-- `cdm_diff_ht_purge`. -/
def cdmDiffHtPurge (f : Flavor) (unlessTargetSha3Matches : Digest) : Table :=
  fun f' d m =>
    match t f' d m with
    | some ent =>
      if ent.status = .present ∧ f = f' ∧ (ent.entry = none ∨ unlessTargetSha3Matches ≠ ent.targetSha3) then none
      else some ent
    | none => none

/-- `consdiff_status_t`, with the entry found. -/
inductive Found
  | available (x : Diff)
  | notFound
  | inProgress
deriving DecidableEq

/-- `consdiffmgr_find_diff_from`. -/
def consdiffmgrFindDiffFrom (f : Flavor) (digest : Digest) (m : Method) : Found :=
  match t f digest m with
  | none => .notFound
  | some ent =>
    match ent.status with
    | .error => .notFound
    | .inProgress => .inProgress
    | .present =>
      match ent.entry with
      | none => .notFound
      | some x => .available x

/-! ## The manager -/

/-- The cache, the table, the worker jobs without a reply (`jobs`) and all that were ever
    queued (`queued`). -/
structure Cdm where
  consensuses : List Consensus
  diffs : List Diff
  table : Table
  jobs : List Job
  queued : List Job
  assertFailed : Bool

def Cdm.init : Cdm := ⟨[], [], fun _ _ _ => none, [], [], false⟩

variable (n : Cdm) (f : Flavor)

/-- The consensuses of a flavour, sorted by `compare_by_valid_after_`. -/
def sortedConsensuses : List Consensus :=
  (n.consensuses.filter fun c => c.flavor = f).insertionSort fun c c' => c.validAfter ≤ c'.validAfter

/-- `sort_and_find_most_recent` on the consensuses of a flavour. -/
def mostRecent : Option Consensus := (sortedConsensuses n f).getLast?

variable (recent : Consensus)

/-- One turn of the last loop of `consdiffmgr_rescan_flavor_`. -/
def launch (n : Cdm) (c : Consensus) : Cdm :=
  if c = recent then { n with assertFailed := true }
  else
    match c.sha3AsSigned with
    | none => n
    | some thisSha3 =>
      let (table, found, failed) := cdmDiffHtCheckAndNotePending b n.table f thisSha3 recent.sha3Uncompressed
      let work : List Job := if found then [] else [⟨c, recent⟩]
      { n with
        table := table
        jobs := n.jobs ++ work
        queued := n.queued ++ work
        assertFailed := n.assertFailed || failed }

/-- Whether the cache has a diff to the most recent consensus from the one of time `va`. -/
def haveDiffFrom (va : Int) : Bool :=
  n.diffs.any fun x => x.validAfter = recent.validAfter ∧ x.flavor = f ∧ x.fromValidAfter = va

/-- The older consensuses without a diff to the most recent one, the newest first. -/
def computeDiffsFrom : List Consensus :=
  (sortedConsensuses n f).dropLast.reverse.filter fun c => !haveDiffFrom n f recent c.validAfter

/-- `consdiffmgr_rescan_flavor_`. -/
def consdiffmgrRescanFlavor : Cdm :=
  match mostRecent n f with
  | none => n
  | some recent =>
    (computeDiffsFrom n f recent).foldl (launch b f recent)
      { n with table := cdmDiffHtPurge n.table f recent.sha3Uncompressed }

variable (j : Job)

/-- The diff a worker makes: its labels. -/
def diffOf (fromDigest : Digest) (m : Method) : Diff :=
  { flavor := j.diffFrom.flavor
    validAfter := j.diffTo.validAfter
    fromValidAfter := j.diffFrom.validAfter
    fromSha3 := fromDigest
    targetSha3 := j.diffTo.sha3Uncompressed
    compression := m }

/-- One turn of the loop of `consensus_diff_worker_replyfn`. -/
def replyStatus (fromDigest : Digest) (stored : Method → Bool) (acc : Table × Bool) (m : Method) : Table × Bool :=
  let handle := if stored m then some (diffOf j fromDigest m) else none
  let status : Status := if stored m then .present else .error
  let (table, failed) := cdmDiffHtSetStatus acc.1 j.diffTo.flavor fromDigest j.diffTo.sha3Uncompressed m status handle
  (table, acc.2 || failed)

/-- `consensus_diff_worker_replyfn`, when the diff could be stored under the methods `stored`.
    A job whose source has no as-signed digest leaves its reply blank. -/
def consensusDiffWorkerReplyfn (stored : Method → Bool) : Cdm :=
  match j.diffFrom.sha3AsSigned with
  | none => n
  | some fromDigest =>
    let (table, failed) := (compressDiffsWith b).foldl (replyStatus j fromDigest stored) (n.table, false)
    { n with
      diffs := n.diffs ++ ((compressDiffsWith b).filter stored).map (diffOf j fromDigest)
      table := table
      assertFailed := n.assertFailed || failed }

inductive Event
  | add (c : Consensus)
  | rescan (f : Flavor)
  | reply (k : Nat) (stored : Method → Bool)

/-- A consensus that may enter the cache: newer than those of its flavour, with digests of its
    own. -/
def Enters (c : Consensus) : Prop :=
  ∀ c' ∈ n.consensuses, c'.flavor = c.flavor → c'.validAfter < c.validAfter ∧
    c'.sha3Uncompressed ≠ c.sha3Uncompressed ∧ (c.sha3AsSigned = none ∨ c'.sha3AsSigned ≠ c.sha3AsSigned)

instance (n : Cdm) (c : Consensus) : Decidable (Enters n c) :=
  inferInstanceAs (Decidable (∀ c' ∈ n.consensuses, c'.flavor = c.flavor → c'.validAfter < c.validAfter ∧
    c'.sha3Uncompressed ≠ c.sha3Uncompressed ∧ (c.sha3AsSigned = none ∨ c'.sha3AsSigned ≠ c.sha3AsSigned)))

def step : Event → Option Cdm
  | .add c => if Enters n c then some { n with consensuses := n.consensuses ++ [c] } else none
  | .rescan f => some (consdiffmgrRescanFlavor b n f)
  | .reply k stored =>
    match n.jobs[k]? with
    | none => none
    | some j => some (consensusDiffWorkerReplyfn b { n with jobs := n.jobs.eraseIdx k } j stored)

/-! ## What the loops over the compression methods do -/

theorem compressDiffsWith_nodup : (compressDiffsWith b).Nodup := by
  obtain ⟨lzma, zstd⟩ := b
  cases lzma <;> cases zstd <;> decide

theorem no_mem_compressDiffsWith : Method.no ∈ compressDiffsWith b := by
  simp [compressDiffsWith]

section Loops

variable {t : Table} {f f' : Flavor} {d d' target : Digest} {m' : Method}

/-- What a turn for method `m` says about the entry of method `m'`. -/
theorem set_row (t : Table) (e : CdmDiff) {m m' : Method} (h : m' ≠ m) : t.set f d m e f d m' = t f d m' := by
  simp [Table.set, h]

theorem notePending_eq (t : Table) (found failed : Bool) (m : Method) : notePending f d target (t, found, failed) m =
    match t f d m with
    | none => (t.set f d m ⟨target, .inProgress, none⟩, found, failed)
    | some ent => (t, true, failed || ent.status == .present) := by
  rcases hent : t f d m with _ | ent <;> simp [notePending, hent]

/-- The loop fills the row of the source where it has no entry. -/
theorem foldl_notePending_table {ms : List Method} (t : Table) (found failed : Bool) :
    (ms.foldl (notePending f d target) (t, found, failed)).1 f' d' m' =
      if f' = f ∧ d' = d ∧ m' ∈ ms ∧ t f d m' = none then some ⟨target, .inProgress, none⟩ else t f' d' m' := by
  induction ms generalizing t found failed with
  | nil => simp
  | cons m ms ih =>
    rw [List.foldl_cons, notePending_eq]
    rcases hent : t f d m with _ | ent <;> dsimp only
    · rw [ih]
      by_cases hkey : f' = f ∧ d' = d
      · obtain ⟨rfl, rfl⟩ := hkey
        by_cases hm : m' = m
        · subst hm
          simp [Table.set, hent]
        · simp [set_row _ _ hm, hm]
      · have hrow : t.set f d m ⟨target, .inProgress, none⟩ f' d' m' = t f' d' m' := by
          unfold Table.set
          exact if_neg fun h => hkey ⟨h.1, h.2.1⟩
        rw [hrow, if_neg fun h => hkey ⟨h.1, h.2.1⟩, if_neg fun h => hkey ⟨h.1, h.2.1⟩]
    · rw [ih]
      by_cases hm : m' = m
      · subst hm
        simp [hent]
      · simp [hm]

/-- It has found an entry if the row had one, and an assertion fails if one was present. -/
theorem foldl_notePending_found {ms : List Method} (hnd : ms.Nodup) (t : Table) (found failed : Bool) :
    (ms.foldl (notePending f d target) (t, found, failed)).2 =
      (found || (ms.map (t f d)).any Option.isSome,
        failed || (ms.map (t f d)).any fun e => e.any fun ent => ent.status == .present) := by
  induction ms generalizing t found failed with
  | nil => simp
  | cons m ms ih =>
    obtain ⟨hm, hnd⟩ := List.nodup_cons.mp hnd
    rw [List.foldl_cons, notePending_eq]
    rcases hent : t f d m with _ | ent <;> dsimp only
    · have hrow : ms.map (t.set f d m ⟨target, .inProgress, none⟩ f d) = ms.map (t f d) := by
        apply List.map_congr_left
        intro k hk
        exact set_row _ _ fun h => hm (h ▸ hk)
      rw [ih hnd, hrow]
      simp [hent]
    · rw [ih hnd]
      simp [hent, Bool.or_assoc]

theorem noted_table (b : Build) (t : Table) :
    (cdmDiffHtCheckAndNotePending b t f d target).1 f' d' m' =
      if f' = f ∧ d' = d ∧ m' ∈ compressDiffsWith b ∧ t f d m' = none then some ⟨target, .inProgress, none⟩
      else t f' d' m' :=
  foldl_notePending_table t false false

theorem noted_found (b : Build) (t : Table) :
    (cdmDiffHtCheckAndNotePending b t f d target).2.1 = false ↔ ∀ m ∈ compressDiffsWith b, t f d m = none := by
  rw [cdmDiffHtCheckAndNotePending, foldl_notePending_found (compressDiffsWith_nodup b)]
  simp

theorem noted_failed (b : Build) (t : Table) :
    (cdmDiffHtCheckAndNotePending b t f d target).2.2 = false ↔
      ∀ m ∈ compressDiffsWith b, ∀ ent, t f d m = some ent → ent.status ≠ .present := by
  rw [cdmDiffHtCheckAndNotePending, foldl_notePending_found (compressDiffsWith_nodup b)]
  simp [Option.any_eq_false]

/-- The entry a reply leaves for method `m`. -/
def answered (d : Digest) (stored : Method → Bool) (m : Method) : CdmDiff :=
  ⟨j.diffTo.sha3Uncompressed, if stored m then .present else .error, if stored m then some (diffOf j d m) else none⟩

/-- A reply finds the whole row of its source in progress to its own target, and answers it. -/
theorem foldl_replyStatus {j : Job} {ms : List Method} (hnd : ms.Nodup) (stored : Method → Bool) (t : Table)
    (failed : Bool)
    (hrow : ∀ m ∈ ms, ∃ e, t j.diffTo.flavor d m = some ⟨j.diffTo.sha3Uncompressed, .inProgress, e⟩) :
    (∀ f' d' m', (ms.foldl (replyStatus j d stored) (t, failed)).1 f' d' m' =
        if f' = j.diffTo.flavor ∧ d' = d ∧ m' ∈ ms then some (answered j d stored m') else t f' d' m') ∧
      (ms.foldl (replyStatus j d stored) (t, failed)).2 = failed := by
  induction ms generalizing t failed with
  | nil => simp
  | cons m ms ih =>
    obtain ⟨hm, hnd⟩ := List.nodup_cons.mp hnd
    obtain ⟨e, he⟩ := hrow m List.mem_cons_self
    have hturn : replyStatus j d stored (t, failed) m =
        (t.set j.diffTo.flavor d m (answered j d stored m), failed) := by
      rcases hs : stored m with _ | _ <;> simp [replyStatus, cdmDiffHtSetStatus, he, hs, answered]
    have hrow' : ∀ k ∈ ms, ∃ e, t.set j.diffTo.flavor d m (answered j d stored m) j.diffTo.flavor d k =
        some ⟨j.diffTo.sha3Uncompressed, .inProgress, e⟩ := by
      intro k hk
      have hkm : k ≠ m := by
        intro h
        exact hm (h ▸ hk)
      rw [set_row _ _ hkm]
      exact hrow k (List.mem_cons_of_mem _ hk)
    obtain ⟨h1, h2⟩ := ih hnd _ failed hrow'
    rw [List.foldl_cons, hturn]
    refine ⟨?_, h2⟩
    intro f' d' m'
    rw [h1]
    by_cases hkey : f' = j.diffTo.flavor ∧ d' = d
    · obtain ⟨rfl, rfl⟩ := hkey
      by_cases hmm : m' = m
      · subst hmm
        simp [Table.set]
      · simp [set_row _ _ hmm, hmm]
    · have hother : t.set j.diffTo.flavor d m (answered j d stored m) f' d' m' = t f' d' m' := by
        unfold Table.set
        exact if_neg fun h => hkey ⟨h.1, h.2.1⟩
      rw [hother, if_neg fun h => hkey ⟨h.1, h.2.1⟩, if_neg fun h => hkey ⟨h.1, h.2.1⟩]

/-- A purge leaves an entry unless it is present in the flavour and leads elsewhere. -/
theorem purged (t : Table) (hentry : ∀ e, t f' d m' = some e → e.status = .present → e.entry ≠ none) {e : CdmDiff} :
    cdmDiffHtPurge t f target f' d m' = some e ↔
      t f' d m' = some e ∧ ¬ (e.status = .present ∧ f' = f ∧ e.targetSha3 ≠ target) := by
  unfold cdmDiffHtPurge
  rcases he : t f' d m' with _ | ent
  · simp
  · have hentry := hentry ent he
    by_cases hp : ent.status = .present
    · have hne := hentry hp
      grind
    · grind

end Loops

/-! ## The most recent consensus -/

section Recent

variable {n : Cdm} {f : Flavor} {recent c : Consensus}

theorem mem_sortedConsensuses : c ∈ sortedConsensuses n f ↔ c ∈ n.consensuses ∧ c.flavor = f := by
  simp [sortedConsensuses]

theorem sortedConsensuses_pairwise (n : Cdm) (f : Flavor) :
    (sortedConsensuses n f).Pairwise fun c c' => c.validAfter ≤ c'.validAfter := by
  have : Std.Total fun c c' : Consensus => c.validAfter ≤ c'.validAfter := ⟨fun c c' => le_total _ _⟩
  have : IsTrans Consensus fun c c' => c.validAfter ≤ c'.validAfter := ⟨fun _ _ _ h h' => le_trans h h'⟩
  exact List.pairwise_insertionSort _ _

theorem mostRecent_split (h : mostRecent n f = some recent) :
    sortedConsensuses n f = (sortedConsensuses n f).dropLast ++ [recent] := by
  obtain ⟨older, hs⟩ := List.getLast?_eq_some_iff.mp h
  rw [hs, List.dropLast_concat]

theorem mostRecent_mem (h : mostRecent n f = some recent) : recent ∈ n.consensuses ∧ recent.flavor = f :=
  mem_sortedConsensuses.mp (List.mem_of_getLast? h)

theorem exists_mostRecent (hc : c ∈ n.consensuses) (hf : c.flavor = f) : ∃ recent, mostRecent n f = some recent := by
  rcases h : mostRecent n f with _ | recent
  · rw [mostRecent, List.getLast?_eq_none_iff] at h
    have hmem := mem_sortedConsensuses.mpr ⟨hc, hf⟩
    rw [h] at hmem
    cases hmem
  · exact ⟨recent, rfl⟩

theorem le_mostRecent (h : mostRecent n f = some recent) (hc : c ∈ n.consensuses) (hf : c.flavor = f) :
    c.validAfter ≤ recent.validAfter := by
  have hp := sortedConsensuses_pairwise n f
  have hmem := mem_sortedConsensuses.mpr ⟨hc, hf⟩
  rw [mostRecent_split h] at hp hmem
  rcases List.mem_append.mp hmem with hmem | hmem
  · exact (List.pairwise_append.mp hp).2.2 c hmem recent (List.mem_singleton_self _)
  · rw [List.mem_singleton.mp hmem]

/-- The consensuses a rescan considers are the older ones. -/
theorem mem_older (hnd : n.consensuses.Nodup) (h : mostRecent n f = some recent) :
    c ∈ (sortedConsensuses n f).dropLast ↔ c ∈ n.consensuses ∧ c.flavor = f ∧ c ≠ recent := by
  have hnd' : (sortedConsensuses n f).Nodup :=
    (List.perm_insertionSort _ _).nodup_iff.mpr (hnd.filter _)
  have hmem : c ∈ sortedConsensuses n f ↔ c ∈ (sortedConsensuses n f).dropLast ∨ c = recent := by
    rw [mostRecent_split h]
    simp
  rw [mostRecent_split h] at hnd'
  have hnot : recent ∉ (sortedConsensuses n f).dropLast := by
    intro hr
    exact (List.nodup_append.mp hnd').2.2 recent hr recent (List.mem_singleton_self _) rfl
  rw [← and_assoc, ← mem_sortedConsensuses, hmem]
  constructor
  · intro hc
    refine ⟨.inl hc, ?_⟩
    intro heq
    exact hnot (heq ▸ hc)
  · intro hc
    exact hc.1.resolve_right hc.2

theorem mem_computeDiffsFrom (hnd : n.consensuses.Nodup) (h : mostRecent n f = some recent) :
    c ∈ computeDiffsFrom n f recent ↔
      (c ∈ n.consensuses ∧ c.flavor = f ∧ c ≠ recent) ∧ haveDiffFrom n f recent c.validAfter = false := by
  rw [computeDiffsFrom, List.mem_filter, List.mem_reverse, mem_older hnd h, Bool.not_eq_true']

end Recent

end Badnet.Consdiffmgr
