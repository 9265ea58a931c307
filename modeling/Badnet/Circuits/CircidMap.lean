/-
  Badnet.Circuits.CircidMap — the map of pairs agrees with the circuits.

  `Coherent` says it of the map, the cached entry, the flags, and the counters of the channels, for the pairs whose
  DESTROY is pending. Lookups keep it and find what the map has (`impl_spec`); so does giving a side a pair the map has
  nothing for (`circuitSetCircidChan_spec`).
-/

import Badnet.Circuits.Circuitlist

namespace Badnet.Circuits.Circuitlist

open Lib

/-! ## The invariant -/

/-- The circuits with the channel on a side. -/
def onChannel (s : St) (chan : UInt64) (d : CellDirection) : Nat :=
  s.circuits.countP fun c => (c.pair d).map (·.chanId) = some chan

/-- The map, the cache, the flags and the counters agree with the circuits and with the pairs whose DESTROY is pending. -/
structure Coherent (pend : ChanCirc → Bool) (s : St) : Prop where
  distinct : Distinct s.chanCircidMap
  noLeak : s.leaked = []
  cached : ∀ addr, s.lastCircidChanEnt = some addr → ∃ e ∈ s.chanCircidMap, e.addr = addr
  entry : ∀ key i, view s.chanCircidMap key = some (some i) ↔ Holds s i key
  placeholder : ∀ key, view s.chanCircidMap key = some none ↔ pend key = true ∧ ∀ i, ¬ Holds s i key
  flags : ∀ (i : Nat) (c : Circuit) (d : CellDirection), s.circuits[i]? = some c →
    c.deletePending d = ((c.pair d).map pend).getD false
  apart : ∀ (i : Nat) (c : Circuit) (key : ChanCirc), s.circuits[i]? = some c →
    c.pair .OUT = some key → c.pair .IN ≠ some key
  nonzero : ∀ (i : Nat) (c : Circuit) (d : CellDirection) (key : ChanCirc), s.circuits[i]? = some c →
    c.pair d = some key → key.circId ≠ 0
  counts : ∀ chan d, (s.channels chan).numCircuits d = UInt32.ofNat (onChannel s chan d)

theorem init_coherent : Coherent (fun _ => false) init where
  distinct := List.nodup_nil
  noLeak := rfl
  cached := nofun
  entry key i := by simp [view, htFind, init, Holds]
  placeholder key := by simp [view, htFind, init]
  flags i c d h := by simp [init] at h
  apart i c key h := by simp [init] at h
  nonzero i c d key h := by simp [init] at h
  counts chan d := by cases d <;> rfl

section
variable {pend : ChanCirc → Bool} {s : St}

/-- A pair is free exactly if the map has nothing for it. -/
theorem Coherent.view_none (h : Coherent pend s) (key : ChanCirc) :
    view s.chanCircidMap key = none ↔ pend key = false ∧ ∀ i, ¬ Holds s i key := by
  refine ⟨fun hv => ?_, fun hfree => ?_⟩
  · have hholds : ∀ i, ¬ Holds s i key := fun i hi => by
      rw [(h.entry key i).mpr hi] at hv
      cases hv
    refine ⟨Bool.eq_false_iff.mpr fun hp => ?_, hholds⟩
    rw [(h.placeholder key).mpr ⟨hp, hholds⟩] at hv
    cases hv
  · cases hv : view s.chanCircidMap key with
    | none => rfl
    | some o =>
      cases o with
      | none => exact absurd ((h.placeholder key).mp hv).1 (by simp [hfree.1])
      | some i => exact absurd ((h.entry key i).mp hv) (hfree.2 i)

variable {key : ChanCirc} {s' : St} {p : MapEntry → Prop} {v : ChanCirc → Option (Option Nat)}
  {old new : Option ChanCirc}

theorem Coherent.holds_unique (h : Coherent pend s) {i j : Nat} (hi : Holds s i key) (hj : Holds s j key) :
    i = j := by
  have hv := (h.entry key i).mpr hi
  rw [(h.entry key j).mpr hj] at hv
  cases hv
  rfl

/-! ## Lookups -/

theorem Coherent.deref_cached (h : Coherent pend s) {addr : Nat} (hc : s.lastCircidChanEnt = some addr) :
    ∃ e ∈ s.chanCircidMap, e.addr = addr ∧ deref s addr = some e := by
  obtain ⟨e, he, haddr⟩ := h.cached addr hc
  unfold deref
  rw [h.noLeak, List.append_nil]
  cases hf : s.chanCircidMap.find? (fun e => e.addr = addr) with
  | none => exact absurd (List.find?_eq_none.mp hf e he) (by simp [haddr])
  | some e' =>
    have haddr' := List.find?_some hf
    exact ⟨e', List.mem_of_find?_eq_some hf, by simpa using haddr', rfl⟩

theorem Coherent.setLast (h : Coherent pend s) {last : Option Nat}
    (hlast : ∀ addr, last = some addr → ∃ e ∈ s.chanCircidMap, e.addr = addr) :
    Coherent pend { s with lastCircidChanEnt := last } :=
  ⟨h.distinct, h.noLeak, hlast, h.entry, h.placeholder, h.flags, h.apart, h.nonzero, h.counts⟩

/-- A lookup finds what the map has, and the cache stays within the map. -/
theorem impl_spec (h : Coherent pend s) (key : ChanCirc) :
    ∃ last, circuitGetByCircidChannelImpl s key =
        some ({ s with lastCircidChanEnt := last }, htFind s.chanCircidMap key) ∧
      Coherent pend { s with lastCircidChanEnt := last } := by
  have hsearch : Coherent pend { s with lastCircidChanEnt := (htFind s.chanCircidMap key).map (·.addr) } := by
    refine h.setLast fun addr ha => ?_
    obtain ⟨e, he, haddr⟩ := Option.map_eq_some_iff.mp ha
    exact ⟨e, ((htFind_eq_some h.distinct).mp he).1, haddr⟩
  unfold circuitGetByCircidChannelImpl
  cases hc : s.lastCircidChanEnt with
  | none => exact ⟨_, rfl, hsearch⟩
  | some addr =>
    obtain ⟨e, he, haddr, hd⟩ := h.deref_cached hc
    by_cases hkey : e.key = key
    · refine ⟨some addr, ?_, h.setLast fun a ha => h.cached a (hc.trans ha)⟩
      simp [hd, (htFind_eq_some h.distinct).mpr ⟨he, hkey⟩, hkey, ← hc]
    · refine ⟨_, ?_, hsearch⟩
      simp [hd, hkey]

/-! ## One circuit changes -/

variable {circ : Nat} {c c' : Circuit} {d : CellDirection}

theorem getElem?_changed (hc : s.circuits[circ]? = some c) (hcirc : s'.circuits = s.circuits.set circ c') (i : Nat) :
    s'.circuits[i]? = if i = circ then some c' else s.circuits[i]? := by
  rw [hcirc]
  by_cases hi : i = circ
  · rw [if_pos hi, hi, List.getElem?_set_self (List.getElem?_eq_some_iff.mp hc).1]
  · rw [if_neg hi, List.getElem?_set_ne (Ne.symm hi)]

theorem holds_self (hc : s.circuits[circ]? = some c) : Holds s circ key ↔ c.Has key := by
  simp [Holds, hc]

/-- The other side keeps its pair and its flag. -/
def SameElsewhere (d : CellDirection) (c c' : Circuit) : Prop :=
  ∀ d', d' ≠ d → c'.pair d' = c.pair d' ∧ c'.deletePending d' = c.deletePending d'

theorem has_of_sameElsewhere (h : SameElsewhere d c c') (hold : c.pair d ≠ some key)
    (hnew : c'.pair d ≠ some key) : c'.Has key ↔ c.Has key := by
  rw [Circuit.has_iff, Circuit.has_iff]
  refine exists_congr fun d' => ?_
  by_cases hd : d' = d
  · subst hd
    exact iff_of_false hnew hold
  · rw [(h d' hd).1]

theorem Coherent.not_both (h : Coherent pend s) (hc : s.circuits[circ]? = some c) {d' : CellDirection} (hd : d' ≠ d)
    (hkey : c.pair d = some key) : c.pair d' ≠ some key := by
  intro hkey'
  cases d <;> cases d'
  · exact hd rfl
  · exact h.apart circ c key hc hkey' hkey
  · exact h.apart circ c key hc hkey hkey'
  · exact hd rfl

/-- What the map has for a pair after a side changes. -/
def viewAfter (pend : ChanCirc → Bool) (circ : Nat) (old new : Option ChanCirc) (v : ChanCirc → Option (Option Nat))
    (key : ChanCirc) : Option (Option Nat) :=
  if old = some key then (if pend key then some none else none)
  else if new = some key then some (some circ)
  else v key

/-- A side of one circuit changes from one pair to a free one. -/
structure ChangesSide (d : CellDirection) (circ : Nat) (c c' : Circuit) (s s' : St) : Prop where
  before : s.circuits[circ]? = some c
  after : s'.circuits = s.circuits.set circ c'
  elsewhere : SameElsewhere d c c'
  different : ∀ key, c.pair d = some key → c'.pair d ≠ some key
  free : ∀ key, c'.pair d = some key → view s.chanCircidMap key = none

section Side

variable {s' : St} {key : ChanCirc} {i : Nat}

section

variable (hs : ChangesSide d circ c c' s s')
include hs

theorem ChangesSide.holds_this : Holds s' circ key ↔ c'.Has key :=
  holds_self ((getElem?_changed hs.before hs.after circ).trans (if_pos rfl))

theorem ChangesSide.holds_other (hi : i ≠ circ) : Holds s' i key ↔ Holds s i key := by
  unfold Holds
  rw [getElem?_changed hs.before hs.after, if_neg hi]

/-- Nobody has the old pair any more. -/
theorem ChangesSide.holds_old (h : Coherent pend s) (hkey : c.pair d = some key) : ¬ Holds s' i key := by
  intro hi
  by_cases hic : i = circ
  · subst hic
    obtain ⟨d', hd'⟩ := Circuit.has_iff.mp (hs.holds_this.mp hi)
    by_cases hd : d' = d
    · subst hd
      exact hs.different key hkey hd'
    · rw [(hs.elsewhere d' hd).1] at hd'
      exact h.not_both hs.before hd hkey hd'
  · have hi := (hs.holds_other hic).mp hi
    exact hic (h.holds_unique hi ((holds_self hs.before).mpr (Circuit.has_iff.mpr ⟨d, hkey⟩)))

/-- Only this circuit has the new one. -/
theorem ChangesSide.holds_new (h : Coherent pend s) (hkey : c'.pair d = some key) : Holds s' i key ↔ i = circ := by
  refine ⟨fun hi => ?_, fun hi => ?_⟩
  · by_contra hic
    exact ((h.view_none key).mp (hs.free key hkey)).2 i ((hs.holds_other hic).mp hi)
  · rw [hi, hs.holds_this]
    exact Circuit.has_iff.mpr ⟨d, hkey⟩

theorem ChangesSide.holds_rest (hold : c.pair d ≠ some key) (hnew : c'.pair d ≠ some key) :
    Holds s' i key ↔ Holds s i key := by
  by_cases hic : i = circ
  · rw [hic, hs.holds_this, holds_self hs.before, has_of_sameElsewhere hs.elsewhere hold hnew]
  · exact hs.holds_other hic

/-- A property of every side holds when it holds of the changed one. -/
theorem ChangesSide.forall_sides {P : CellDirection → Option ChanCirc → Bool → Prop}
    (hchanged : P d (c'.pair d) (c'.deletePending d))
    (h : ∀ (i : Nat) (x : Circuit) (d' : CellDirection), s.circuits[i]? = some x → P d' (x.pair d') (x.deletePending d'))
    (i : Nat) (x : Circuit) (d' : CellDirection) (hx : s'.circuits[i]? = some x) :
    P d' (x.pair d') (x.deletePending d') := by
  rw [getElem?_changed hs.before hs.after] at hx
  split at hx
  next =>
    cases hx
    by_cases hd : d' = d
    · exact hd ▸ hchanged
    · rw [(hs.elsewhere d' hd).1, (hs.elsewhere d' hd).2]
      exact h circ c d' hs.before
  · exact h i x d' hx

end

/-- The sides of a circuit have different pairs, since the new one was free. -/
theorem ChangesSide.apart (hs : ChangesSide d circ c c' s s') (h : Coherent pend s) {x : Circuit}
    (hx : s'.circuits[i]? = some x) (hout : x.pair .OUT = some key) : x.pair .IN ≠ some key := by
  intro hin
  rw [getElem?_changed hs.before hs.after] at hx
  split at hx
  next =>
    cases hx
    -- one of the two sides is the changed one: the circuit had its new pair before
    have hclash : ∀ d', d' ≠ d → c'.pair d = some key → c'.pair d' = some key → False := by
      intro d' hd hk hk'
      rw [(hs.elsewhere d' hd).1] at hk'
      exact ((h.view_none key).mp (hs.free key hk)).2 circ
        ((holds_self hs.before).mpr (Circuit.has_iff.mpr ⟨d', hk'⟩))
    cases d with
    | OUT => exact hclash .IN nofun hout hin
    | IN => exact hclash .OUT nofun hin hout
  · exact h.apart i x key hx hout hin

end Side

/-- The map takes the new pair of a side that changes, and keeps the old one as a placeholder if its DESTROY is
    pending. -/
theorem Coherent.change_side (h : Coherent pend s) (hc : s.circuits[circ]? = some c)
    (helse : SameElsewhere d c c') (hflag : c'.deletePending d = false) (hne : ∀ key, c.pair d = some key → c'.pair d ≠ some key)
    (hfree : ∀ key, c'.pair d = some key → view s.chanCircidMap key = none)
    (hzero : ∀ key, c'.pair d = some key → key.circId ≠ 0)
    (hcirc : s'.circuits = s.circuits.set circ c') (hdist : Distinct s'.chanCircidMap) (hleak : s'.leaked = [])
    (hcached : ∀ addr, s'.lastCircidChanEnt = some addr → ∃ e ∈ s'.chanCircidMap, e.addr = addr)
    (hview : ∀ key, view s'.chanCircidMap key = viewAfter pend circ (c.pair d) (c'.pair d) (view s.chanCircidMap) key)
    (hcounts : ∀ chan d', (s'.channels chan).numCircuits d' = UInt32.ofNat (onChannel s' chan d')) : Coherent pend s' := by
  have hs : ChangesSide d circ c c' s s' := ⟨hc, hcirc, helse, hne, hfree⟩
  have hflags := hs.forall_sides (P := fun _ pair deletePending => deletePending = (pair.map pend).getD false) (by
    rw [hflag]
    cases hk : c'.pair d with
    | none => rfl
    | some key => exact ((h.view_none key).mp (hfree key hk)).1.symm) h.flags
  have hnonzero := hs.forall_sides (P := fun _ pair _ => ∀ key, pair = some key → key.circId ≠ 0) hzero
    fun i x d' hx key hk => h.nonzero i x d' key hx hk
  refine ⟨hdist, hleak, hcached, fun key i => ?_, fun key => ?_, hflags, fun i x key hx => hs.apart h hx,
    fun i x d' key hx => hnonzero i x d' hx key, hcounts⟩
  · rw [hview, viewAfter]
    by_cases hk : c.pair d = some key
    · rw [if_pos hk, iff_false_right (hs.holds_old h hk)]
      split <;> exact nofun
    · rw [if_neg hk]
      by_cases hk' : c'.pair d = some key
      · rw [if_pos hk', hs.holds_new h hk']
        exact ⟨fun e => (Option.some.inj (Option.some.inj e)).symm, fun e => by rw [e]⟩
      · rw [if_neg hk', h.entry, hs.holds_rest hk hk']
  · rw [hview, viewAfter]
    by_cases hk : c.pair d = some key
    · rw [if_pos hk, and_iff_left fun i => hs.holds_old h hk]
      cases pend key <;> simp
    · rw [if_neg hk]
      by_cases hk' : c'.pair d = some key
      · rw [if_pos hk']
        exact ⟨nofun, fun hno => absurd ((hs.holds_new h hk').mpr rfl) (hno.2 circ)⟩
      · rw [if_neg hk', h.placeholder]
        exact and_congr_right fun _ => forall_congr' fun i => not_congr (hs.holds_rest hk hk').symm

/-! ## Changes of the map -/

/-- The map gets another view, and keeps the entries of a kind where they are. -/
structure Moves (s s' : St) (keeps : MapEntry → Prop) (v : ChanCirc → Option (Option Nat)) : Prop where
  leaked : s'.leaked = s.leaked
  last : s'.lastCircidChanEnt = s.lastCircidChanEnt
  distinct : Distinct s'.chanCircidMap
  view : ∀ key, Circuitlist.view s'.chanCircidMap key = v key
  kept : ∀ e ∈ s.chanCircidMap, keeps e → ∃ e' ∈ s'.chanCircidMap, e'.addr = e.addr ∧ e'.key = e.key

theorem Moves.trans {s1 s2 s3 : St} {q : MapEntry → Prop} {w : ChanCirc → Option (Option Nat)} (h : Moves s1 s2 p v)
    (h' : Moves s2 s3 q w) (hq : ∀ e e', e'.key = e.key → p e → q e') : Moves s1 s3 p w where
  leaked := h'.leaked.trans h.leaked
  last := h'.last.trans h.last
  distinct := h'.distinct
  view := h'.view
  kept e he hp := by
    obtain ⟨e2, he2, haddr, hkey⟩ := h.kept e he hp
    obtain ⟨e3, he3, haddr', hkey'⟩ := h'.kept e2 he2 (hq e e2 hkey hp)
    exact ⟨e3, he3, haddr'.trans haddr, hkey'.trans hkey⟩

theorem Moves.congr {q : MapEntry → Prop} {w : ChanCirc → Option (Option Nat)} (h : Moves s s' p v)
    (hv : ∀ key, v key = w key) (hq : ∀ e, q e → p e) : Moves s s' q w :=
  ⟨h.leaked, h.last, h.distinct, fun key => (h.view key).trans (hv key), fun e he hqe => h.kept e he (hq e hqe)⟩

variable (malloc : List Nat → Nat)

theorem htInsert_moves (hdist : Distinct s.chanCircidMap) (hfree : view s.chanCircidMap key = none)
    (circuit : Option Nat) (t : Int) :
    Moves s (htInsert malloc s key circuit t) (fun _ => True) fun k =>
      if key = k then some circuit else view s.chanCircidMap k where
  leaked := rfl
  last := rfl
  distinct := by
    refine List.nodup_cons.mpr ⟨fun hm => ?_, hdist⟩
    obtain ⟨e, he, hkey⟩ := List.mem_map.mp hm
    exact view_eq_none.mp hfree e he hkey
  view k := view_cons _ _ k
  kept e he _ := ⟨e, List.mem_cons_of_mem _ he, rfl, rfl⟩

/-- A pair without a circuit becomes a placeholder, or stays one. -/
theorem channelMarkCircidUnusable_moves (hdist : Distinct s.chanCircidMap)
    (hfree : view s.chanCircidMap key = none ∨ view s.chanCircidMap key = some none) :
    Moves s (channelMarkCircidUnusable malloc s key) (fun _ => True) fun k =>
      if key = k then some none else view s.chanCircidMap k := by
  unfold channelMarkCircidUnusable
  cases hf : htFind s.chanCircidMap key with
  | none => exact htInsert_moves malloc hdist (by rw [view, hf]; rfl) none s.approxTime
  | some ent =>
    have hv : view s.chanCircidMap key = some ent.circuit := by rw [view, hf]; rfl
    have hnone : ent.circuit = none := by
      rw [hv] at hfree
      rcases hfree with hfree | hfree
      · cases hfree
      · exact Option.some.inj hfree
    have hsame : ∀ k, view s.chanCircidMap k = if key = k then some none else view s.chanCircidMap k := by
      intro k
      split
      next hk => rw [← hk, hv, hnone]
      · rfl
    simp only [hnone, Option.isSome_none, Bool.false_eq_true, if_false]
    split
    · refine ⟨rfl, rfl, ?_, fun k => (view_modifyAt _ _ _ k).trans (hsame k), fun e he _ => ?_⟩
      · have hkeys : (modifyAt s.chanCircidMap ent.addr fun e => { e with madePlaceholderAt := s.approxTime }).map (·.key) =
            s.chanCircidMap.map (·.key) := by
          rw [modifyAt, List.map_map]
          refine List.map_congr_left fun e _ => ?_
          simp only [Function.comp_apply]
          split <;> rfl
        unfold Distinct
        rw [hkeys]
        exact hdist
      · refine ⟨_, List.mem_map.mpr ⟨e, he, rfl⟩, ?_⟩
        split <;> exact ⟨rfl, rfl⟩
    · exact ⟨rfl, rfl, hdist, hsame, fun e he _ => ⟨e, he, rfl, rfl⟩⟩

theorem channelMarkCircidUnusable_frame (key : ChanCirc) :
    (channelMarkCircidUnusable malloc s key).circuits = s.circuits ∧
      (channelMarkCircidUnusable malloc s key).channels = s.channels := by
  unfold channelMarkCircidUnusable
  split
  · split
    · exact ⟨rfl, rfl⟩
    · split <;> exact ⟨rfl, rfl⟩
  · exact ⟨rfl, rfl⟩

theorem htRemove_moves (hdist : Distinct s.chanCircidMap) (key : ChanCirc) :
    Moves s { s with chanCircidMap := htRemove s.chanCircidMap key } (·.key ≠ key) fun k =>
      if k = key then none else view s.chanCircidMap k where
  leaked := rfl
  last := rfl
  distinct := hdist.htRemove key
  view k := view_htRemove hdist key k
  kept e he hne := ⟨e, (mem_htRemove hdist).mpr ⟨he, hne⟩, rfl, rfl⟩

/-! ## Setting a side -/

theorem forgetCached_spec (h : Coherent pend s) (old new : Option ChanCirc) :
    ∃ last, forgetCached s old new = some { s with lastCircidChanEnt := last } ∧
      ∀ addr, last = some addr → ∃ e ∈ s.chanCircidMap, e.addr = addr ∧ old ≠ some e.key := by
  unfold forgetCached
  cases hc : s.lastCircidChanEnt with
  | none => exact ⟨none, by simp [← hc], nofun⟩
  | some addr =>
    obtain ⟨e, he, haddr, hd⟩ := h.deref_cached hc
    by_cases hkey : old = some e.key ∨ new = some e.key
    · exact ⟨none, by simp [hd, hkey], nofun⟩
    · refine ⟨some addr, by simp [hd, hkey, ← hc], fun a ha => ⟨e, he, ?_, fun ho => hkey (.inl ho)⟩⟩
      cases ha
      exact haddr

@[simp] theorem numCircuits_addToNum (chan chan' : UInt64) (d' : CellDirection) (n : UInt32) :
    ((addToNum s d chan n).channels chan').numCircuits d' =
      (s.channels chan').numCircuits d' + if chan' = chan ∧ d' = d then n else 0 := by
  by_cases hchan : chan' = chan
  · subst hchan
    cases d <;> cases d' <;> simp [addToNum, setChannel, Channel.numCircuits, Channel.setNumCircuits]
  · simp [addToNum, setChannel, hchan]

theorem addToNum_moves (h : Moves s s' p v) (chan : UInt64) (n : UInt32) : Moves s (addToNum s' d chan n) p v :=
  ⟨h.leaked, h.last, h.distinct, h.view, h.kept⟩

theorem dropOldEntry_spec (hdist : Distinct s.chanCircidMap)
    (hold : ∀ key, old = some key → view s.chanCircidMap key ≠ none) :
    (dropOldEntry s d old).circuits = s.circuits ∧
    Moves s (dropOldEntry s d old) (fun e => old ≠ some e.key)
      (fun key => if old = some key then none else view s.chanCircidMap key) ∧
    ∀ chan d', ((dropOldEntry s d old).channels chan).numCircuits d' =
      (s.channels chan).numCircuits d' + if old.map (·.chanId) = some chan ∧ d' = d then -1 else 0 := by
  cases old with
  | none =>
    refine ⟨rfl, ⟨rfl, rfl, hdist, fun key => by simp [dropOldEntry], fun e he _ => ⟨e, he, rfl, rfl⟩⟩, fun chan d' => ?_⟩
    simp [dropOldEntry]
  | some key =>
    cases hf : htFind s.chanCircidMap key with
    | none => exact absurd (by rw [view, hf]; rfl) (hold key rfl)
    | some ent =>
      have heq : dropOldEntry s d (some key) =
          addToNum { s with chanCircidMap := htRemove s.chanCircidMap key } d key.chanId (-1) := by
        simp [dropOldEntry, hf]
      rw [heq]
      refine ⟨rfl, addToNum_moves ((htRemove_moves hdist key).congr (fun k => ?_) fun e hne hk => hne (by rw [hk])) _ _,
        fun chan d' => ?_⟩
      · simp [eq_comm]
      · rw [numCircuits_addToNum]
        simp [eq_comm]

theorem addNewEntry_spec (circ : Nat) (hdist : Distinct s.chanCircidMap)
    (hnew : ∀ key, new = some key → view s.chanCircidMap key = none) :
    (addNewEntry malloc s d circ new).circuits = s.circuits ∧
    Moves s (addNewEntry malloc s d circ new) (fun _ => True)
      (fun key => if new = some key then some (some circ) else view s.chanCircidMap key) ∧
    ∀ chan d', ((addNewEntry malloc s d circ new).channels chan).numCircuits d' =
      (s.channels chan).numCircuits d' + if new.map (·.chanId) = some chan ∧ d' = d then 1 else 0 := by
  cases new with
  | none =>
    refine ⟨rfl, ⟨rfl, rfl, hdist, fun key => by simp [addNewEntry], fun e he _ => ⟨e, he, rfl, rfl⟩⟩, fun chan d' => ?_⟩
    simp [addNewEntry]
  | some key =>
    have hfree := hnew key rfl
    have hf : htFind s.chanCircidMap key = none := Option.map_eq_none_iff.mp hfree
    have heq : addNewEntry malloc s d circ (some key) =
        addToNum (htInsert malloc s key (some circ) 0) d key.chanId 1 := by
      simp [addNewEntry, hf]
    rw [heq]
    refine ⟨rfl, addToNum_moves ((htInsert_moves malloc hdist hfree (some circ) 0).congr (fun k => ?_) fun _ => id) _ _,
      fun chan d' => ?_⟩
    · simp
    · rw [numCircuits_addToNum]
      simp [eq_comm, htInsert]

theorem onChannel_set (hc : s.circuits[circ]? = some c) (hcirc : s'.circuits = s.circuits.set circ c') (chan : UInt64)
    (d' : CellDirection) :
    onChannel s' chan d' + (if (c.pair d').map (·.chanId) = some chan then 1 else 0) =
      onChannel s chan d' + if (c'.pair d').map (·.chanId) = some chan then 1 else 0 := by
  obtain ⟨hlt, hget⟩ := List.getElem?_eq_some_iff.mp hc
  unfold onChannel
  rw [hcirc, List.countP_set hlt, hget]
  have hpos : (c.pair d').map (·.chanId) = some chan →
      0 < s.circuits.countP fun c => (c.pair d').map (·.chanId) = some chan := by
    intro hp
    exact List.countP_pos_iff.mpr ⟨c, List.mem_of_getElem? hc, by simpa using hp⟩
  simp only [decide_eq_true_eq]
  by_cases hp : (c.pair d').map (·.chanId) = some chan
  · have hcount := hpos hp
    rw [if_pos hp]
    omega
  · rw [if_neg hp]
    omega

theorem UInt32.ofNat_change {n n' x y : Nat} (h : n' + x = n + y) :
    UInt32.ofNat n' = UInt32.ofNat n + -UInt32.ofNat x + UInt32.ofNat y := by
  have hsum : UInt32.ofNat n' + UInt32.ofNat x = UInt32.ofNat n + UInt32.ofNat y := by
    rw [← UInt32.ofNat_add, ← UInt32.ofNat_add, h]
  calc UInt32.ofNat n' = UInt32.ofNat n' + UInt32.ofNat x + -UInt32.ofNat x := by
        rw [UInt32.add_assoc, UInt32.add_right_neg, UInt32.add_zero]
    _ = UInt32.ofNat n + -UInt32.ofNat x + UInt32.ofNat y := by
        rw [hsum, UInt32.add_assoc, UInt32.add_comm (UInt32.ofNat y), ← UInt32.add_assoc]

/-- The map and the counters after the old entry is dropped and the new one added. -/
theorem swapEntries_spec (circ : Nat) (c' : Circuit) (hdist : Distinct s.chanCircidMap)
    (hold : ∀ key, old = some key → view s.chanCircidMap key ≠ none)
    (hnew : ∀ key, new = some key → view s.chanCircidMap key = none) :
    let s' := addNewEntry malloc (setCircuit (dropOldEntry s d old) circ c') d circ new
    s'.circuits = s.circuits.set circ c' ∧
    Moves s s' (fun e => old ≠ some e.key) (fun key =>
      if new = some key then some (some circ) else if old = some key then none else view s.chanCircidMap key) ∧
    ∀ chan d', (s'.channels chan).numCircuits d' = (s.channels chan).numCircuits d' +
      (if old.map (·.chanId) = some chan ∧ d' = d then -1 else 0) +
      if new.map (·.chanId) = some chan ∧ d' = d then 1 else 0 := by
  obtain ⟨hcirc, hmoves, hnum⟩ := dropOldEntry_spec (d := d) hdist hold
  have hnew' : ∀ key, new = some key → view (setCircuit (dropOldEntry s d old) circ c').chanCircidMap key = none := by
    intro key hk
    have hv : view (dropOldEntry s d old).chanCircidMap key = _ := hmoves.view key
    exact hv.trans (by split <;> simp [hnew key hk])
  obtain ⟨hcirc', hmoves', hnum'⟩ := addNewEntry_spec (d := d) malloc circ
    (s := setCircuit (dropOldEntry s d old) circ c') hmoves.distinct hnew'
  have hset : Moves s (setCircuit (dropOldEntry s d old) circ c') (fun e => old ≠ some e.key)
      (fun key => if old = some key then none else view s.chanCircidMap key) :=
    ⟨hmoves.leaked, hmoves.last, hmoves.distinct, hmoves.view, hmoves.kept⟩
  refine ⟨?_, (hset.trans hmoves' fun _ _ _ _ => trivial).congr (fun key => ?_) fun _ => id, fun chan d' => ?_⟩
  · rw [hcirc']
    exact congrArg (List.set · circ c') hcirc
  · rw [hset.view]
  · rw [hnum']
    exact congrArg (· + _) (hnum chan d')

theorem noteHadCircuits_moves (h : Moves s s' p v)
    (chan : Option UInt64) : Moves s (noteHadCircuits s' chan) p v := by
  cases chan <;> exact ⟨h.leaked, h.last, h.distinct, h.view, h.kept⟩

theorem numCircuits_noteHadCircuits (chan : Option UInt64) (chan' : UInt64) (d' : CellDirection) :
    ((noteHadCircuits s chan).channels chan').numCircuits d' = (s.channels chan').numCircuits d' := by
  cases chan with
  | none => rfl
  | some chan =>
    by_cases hchan : chan' = chan
    · subst hchan
      cases d' <;> simp [noteHadCircuits, setChannel, Channel.numCircuits]
    · simp [noteHadCircuits, setChannel, hchan]

theorem circuits_noteHadCircuits (chan : Option UInt64) : (noteHadCircuits s chan).circuits = s.circuits := by
  cases chan <;> rfl

/-- The old pair, dropped from the map, becomes a placeholder if the flag of the side is set, and the flag is cleared. -/
theorem keepReserved_spec (hc : s.circuits[circ]? = some c) (hdist : Distinct s.chanCircidMap)
    (hold : ∀ key, old = some key → view s.chanCircidMap key = none)
    (hflag : c.deletePending d = true → old.isSome = true) :
    ∃ s', keepReserved malloc s circ d old = some s' ∧ s'.circuits = s.circuits.set circ (c.setDeletePending d false) ∧
      s'.channels = s.channels ∧ Moves s s' (fun _ => True) fun key =>
        if old = some key ∧ c.deletePending d = true then some none else view s.chanCircidMap key := by
  have hstay : c.deletePending d = false → c.setDeletePending d false = c := by
    intro hf
    cases d <;> cases c <;> simp_all [Circuit.deletePending, Circuit.setDeletePending]
  have hsame : c.deletePending d = false → s.circuits = s.circuits.set circ (c.setDeletePending d false) := by
    intro hf
    obtain ⟨hlt, hget⟩ := List.getElem?_eq_some_iff.mp hc
    rw [hstay hf, ← hget, List.set_getElem_self]
  have hkeep : Moves s s (fun _ => True) (view s.chanCircidMap) :=
    ⟨rfl, rfl, hdist, fun _ => rfl, fun e he _ => ⟨e, he, rfl, rfl⟩⟩
  unfold keepReserved
  rw [hc]
  cases hf : c.deletePending d with
  | false =>
    refine ⟨s, ?_, hsame hf, rfl, hkeep.congr (fun key => by simp) fun _ => id⟩
    cases old <;> simp [hf]
  | true =>
    obtain ⟨key, rfl⟩ := Option.isSome_iff_exists.mp (hflag hf)
    have hmoves := channelMarkCircidUnusable_moves malloc hdist (.inl (hold key rfl))
    obtain ⟨hcirc, hchan⟩ := channelMarkCircidUnusable_frame (s := s) malloc key
    refine ⟨setCircuit (channelMarkCircidUnusable malloc s key) circ (c.setDeletePending d false), by simp [hf],
      congrArg (List.set · circ _) hcirc, hchan, ?_⟩
    have hset : Moves s (setCircuit (channelMarkCircidUnusable malloc s key) circ (c.setDeletePending d false))
        (fun _ => True) fun k => if key = k then some none else view s.chanCircidMap k :=
      ⟨hmoves.leaked, hmoves.last, hmoves.distinct, hmoves.view, hmoves.kept⟩
    exact hset.congr (fun k => by simp) fun _ => id

/-- The helper, for a pair that is new to the side and that the map has nothing for. -/
theorem circuitSetCircidChanHelper_spec (h : Coherent pend s) (hc : s.circuits[circ]? = some c)
    {old : Option UInt64 × UInt32} (hside : c.side d = some old) {id : UInt32} {chan : Option UInt64}
    (hne : old ≠ (chan, id)) (hnew : new = chan.map (⟨·, id⟩))
    (hfree : ∀ key, new = some key → view s.chanCircidMap key = none) :
    ∃ last t, circuitSetCircidChanHelper malloc s circ d id chan = some t ∧
      (∀ addr, last = some addr → ∃ e ∈ s.chanCircidMap, e.addr = addr ∧ c.pair d ≠ some e.key) ∧
      t.circuits = s.circuits.set circ (c.setSide d chan id) ∧
      Moves { s with lastCircidChanEnt := last } t (fun e => c.pair d ≠ some e.key) (fun key =>
        if new = some key then some (some circ) else if c.pair d = some key then none else view s.chanCircidMap key) ∧
      ∀ chan' d', (t.channels chan').numCircuits d' = (s.channels chan').numCircuits d' +
        (if (c.pair d).map (·.chanId) = some chan' ∧ d' = d then -1 else 0) +
        if new.map (·.chanId) = some chan' ∧ d' = d then 1 else 0 := by
  obtain ⟨oldChan, oldId⟩ := old
  have hold : c.pair d = oldChan.map (⟨·, oldId⟩) := by simp [Circuit.pair, hside]
  have hchg : ¬ (id = oldId ∧ chan = oldChan) := fun e => hne (by rw [e.1, e.2])
  have hnamed : ∀ key, c.pair d = some key → view s.chanCircidMap key ≠ none := by
    intro key hkey
    rw [(h.entry key circ).mpr ((holds_self hc).mpr (Circuit.has_iff.mpr ⟨d, hkey⟩))]
    exact Option.some_ne_none _
  obtain ⟨last, hforget, hlast⟩ := forgetCached_spec h (c.pair d) new
  refine ⟨last, _, ?_, hlast,
    swapEntries_spec (s := { s with lastCircidChanEnt := last }) malloc circ (c.setSide d chan id) h.distinct hnamed hfree⟩
  rw [hold, hnew] at hforget
  simp only [circuitSetCircidChanHelper, hc, hside, Option.bind_some, if_neg hchg, hforget, Option.map_some, hold, hnew]

/-- A side gets a pair the map has nothing for: the step succeeds and keeps the invariant. -/
theorem circuitSetCircidChan_spec (h : Coherent pend s) (hc : s.circuits[circ]? = some c)
    {old : Option UInt64 × UInt32} (hside : c.side d = some old) {id : UInt32} {chan : Option UInt64}
    (hne : old ≠ (chan, id)) (hzero : chan.isSome ↔ id ≠ 0)
    (hfree : ∀ key ∈ chan.map (⟨·, id⟩ : UInt64 → ChanCirc), view s.chanCircidMap key = none) :
    ∃ s', circuitSetCircidChan malloc d s circ id chan = some s' ∧ Coherent pend s' := by
  let c' := (c.setSide d chan id).setDeletePending d false
  have hnew : c'.pair d = chan.map (⟨·, id⟩) := Circuit.pair_setDeletePending.trans (Circuit.pair_setSide hside)
  have hfree : ∀ key, c'.pair d = some key → view s.chanCircidMap key = none := fun key hk => hfree key (hnew ▸ hk)
  have helse : SameElsewhere d c c' := by
    intro d' hd
    rw [Circuit.pair_setDeletePending, Circuit.pair_setSide_of_ne hd, Circuit.deletePending_setDeletePending_of_ne hd,
      Circuit.deletePending_setSide]
    exact ⟨rfl, rfl⟩
  have hdiff : ∀ key, c.pair d = some key → c'.pair d ≠ some key := by
    intro key ho hn
    rw [Circuit.pair, hside, Option.bind_some] at ho
    rw [hnew] at hn
    obtain ⟨a, ha, rfl⟩ := Option.map_eq_some_iff.mp ho
    obtain ⟨b, rfl, hb⟩ := Option.map_eq_some_iff.mp hn
    cases hb
    exact hne (Prod.ext ha rfl)
  have hzero : ∀ key, c'.pair d = some key → key.circId ≠ 0 := by
    intro key hk
    rw [hnew] at hk
    obtain ⟨a, rfl, rfl⟩ := Option.map_eq_some_iff.mp hk
    exact hzero.mp rfl
  have hflag : (c.setSide d chan id).deletePending d = ((c.pair d).map pend).getD false := by
    rw [Circuit.deletePending_setSide, h.flags circ c d hc]
  have hflagged : (c.setSide d chan id).deletePending d = true → (c.pair d).isSome = true := by
    rw [hflag]
    cases c.pair d with
    | none =>
      intro h
      cases h
    | some key => exact fun _ => rfl
  obtain ⟨last, t, ht, hlast, hcirc, hmoves, hnum⟩ := circuitSetCircidChanHelper_spec malloc h hc hside hne hnew hfree
  have hmoves := noteHadCircuits_moves hmoves chan
  have hct : (noteHadCircuits t chan).circuits[circ]? = some (c.setSide d chan id) := by
    rw [circuits_noteHadCircuits, getElem?_changed hc hcirc, if_pos rfl]
  have hgone : ∀ key, c.pair d = some key → view (noteHadCircuits t chan).chanCircidMap key = none := by
    intro key hk
    rw [hmoves.view, if_neg (hdiff key hk), if_pos hk]
  obtain ⟨s', hs', hcirc', hchan', hmoves'⟩ := keepReserved_spec malloc hct hmoves.distinct hgone hflagged
  have hset : s'.circuits = s.circuits.set circ c' := by
    rw [hcirc', circuits_noteHadCircuits, hcirc, List.set_set]
  refine ⟨s', by simp [circuitSetCircidChan, hc, ht, hs'], h.change_side hc helse (by simp [c']) hdiff hfree hzero hset
    hmoves'.distinct (hmoves'.leaked.trans (hmoves.leaked.trans h.noLeak)) (fun addr haddr => ?_) (fun key => ?_)
    fun chan' d' => ?_⟩
  · rw [hmoves'.last, hmoves.last] at haddr
    obtain ⟨e, he, rfl, hkey⟩ := hlast addr haddr
    obtain ⟨e1, he1, haddr1, -⟩ := hmoves.kept e he hkey
    obtain ⟨e2, he2, haddr2, -⟩ := hmoves'.kept e1 he1 trivial
    exact ⟨e2, he2, haddr2.trans haddr1⟩
  · rw [hmoves'.view, hmoves.view, viewAfter, hflag]
    by_cases hk : c.pair d = some key
    · simp [hk, hdiff key hk]
    · simp [hk]
  · rw [hchan', numCircuits_noteHadCircuits, hnum, UInt32.ofNat_change (onChannel_set hc hset chan' d'), ← h.counts]
    by_cases hd : d' = d
    · subst hd
      simp only [and_true]
      congr 2
      · split <;> rfl
      · split <;> rfl
    · rw [(helse d' hd).1]
      simp [hd]

end

end Badnet.Circuits.Circuitlist
