/-
  Badnet.Nodelist.Operations — the operations of the nodelist keep it in order, over whole runs.

  Proved: from a consistent nodelist whose nodes are all of use, each operation leads to another one, unless the
  list has no room for the nodes it adds (`step_ends`). So after any sequence of operations the nodelist is in order,
  and a sequence only stops for want of room (`nodelist_stays_ok`).
-/

import Badnet.Nodelist.Consistent

namespace Badnet.Nodelist

open Lib Encoding Dirparse

/-! ## What an operation comes to -/

/-- Every node has an entry of the consensus or a routerinfo. -/
def Usable (s : NodelistT) : Prop := ∀ r ∈ s.nodes, nodeIsUsable (s.node r) = true

variable {s t : NodelistT}

theorem nodeIsUsable_of_same (h : SameInfo s t) (r : NodeRef) :
    nodeIsUsable (t.node r) = nodeIsUsable (s.node r) := by
  rw [nodeIsUsable, nodeIsUsable, (h r).1, (h r).2]

theorem Usable.of_same (h : Usable s) (hl : SameList s t) (hi : SameInfo s t) : Usable t := by
  intro r hr
  rw [nodeIsUsable_of_same hi]
  exact h r (hl.nodes ▸ hr)

/-- A nodelist in order, or an assertion that the list has room, which it does not have for `n` more nodes. -/
def Ends (s : NodelistT) (n : Nat) (o : Option NodelistT) : Prop :=
  (∃ t, o = some t ∧ Consistent t ∧ Usable t) ∨ (o = none ∧ maxCapacity < s.nodes.length + n)

theorem Ends.of_some {n : Nat} (h : Consistent t) (hu : Usable t) : Ends s n (some t) :=
  .inl ⟨t, rfl, h, hu⟩

/-! ## Routerinfos -/

theorem nodelistSetRouterinfo_ends (h : Consistent s) (hu : Usable s) (ri : RouterinfoT) :
    Ends s 1 ((nodelistSetRouterinfo s ri).map (·.1)) := by
  rw [nodelistSetRouterinfo]
  rcases nodeGetOrCreate_spec h ri.identityDigest with ⟨t, r, ht, hct, hr, -, hothers⟩ | ⟨hnone, hfull⟩
  · rw [ht, Option.map_some, Option.map_some]
    have h1 := nodeRemoveFromEd25519Map_consistent hct hr
    obtain ⟨hl1, hi1⟩ := nodeRemoveFromEd25519Map_same hct.ed hr
    have hr1 : r ∈ (nodeRemoveFromEd25519Map t r).nodes := hl1.nodes ▸ hr
    have h2 := setRi_consistent h1 r (some ri)
    obtain ⟨hl3, hi3⟩ := nodeAddToEd25519Map_same h2.ed r
    refine Ends.of_some (nodeAddToEd25519Map_consistent h2 hr1) fun q hq => ?_
    rw [nodeIsUsable_of_same hi3]
    by_cases hqr : q = r
    · subst hqr
      simp [setRi, nodeIsUsable]
    · rw [setRi, set_node_of_ne hqr, nodeIsUsable_of_same hi1]
      have hq : q ∈ t.nodes := hl1.nodes ▸ hl3.nodes ▸ hq
      obtain ⟨hqs, hsame⟩ := hothers q hq hqr
      rw [hsame]
      exact hu q hqs
  · rw [hnone]
    exact .inr ⟨rfl, hfull⟩

theorem nodelistRemoveRouterinfo_ends (h : Consistent s) (hu : Usable s) (ri : RouterinfoT) :
    Ends s 0 (nodelistRemoveRouterinfo s ri) := by
  rw [nodelistRemoveRouterinfo]
  rcases hf : nodeGetMutableById s ri.identityDigest with _ | r
  · exact Ends.of_some h hu
  have hr : r ∈ s.nodes := ((nodeGetMutableById_iff h.listed).mp hf).1
  simp only
  split
  · have h1 := setRi_consistent h r none
    have hother : ∀ q ∈ s.nodes, q ≠ r → nodeIsUsable ((setRi s r none).node q) = true := by
      intro q hq hqr
      rw [setRi, set_node_of_ne hqr]
      exact hu q hq
    split
    · next huse =>
      refine Ends.of_some h1 fun q hq => ?_
      by_cases hqr : q = r
      · rw [hqr]
        exact huse
      · exact hother q hq hqr
    · obtain ⟨t, ht, -, hct, hperm, hinfo, -⟩ := nodelistDropNode_nodeFree h1 (show r ∈ (setRi s r none).nodes from hr)
      rw [ht]
      have hnd := hperm.nodup_iff.mpr h1.listed.idx.nodup
      refine Ends.of_some hct fun q hq => ?_
      rw [nodeIsUsable_of_same hinfo]
      have hqr : q ≠ r := fun he => (List.nodup_cons.mp hnd).1 (he ▸ hq)
      exact hother q (hperm.subset (List.mem_cons_of_mem _ hq)) hqr
  · exact Ends.of_some h hu

/-! ## Microdescriptors -/

theorem nodelistAddMicrodesc_ends (h : Consistent s) (hu : Usable s) (ns : Option NetworkstatusT)
    (md : MicrodescT) : Ends s 0 (some (nodelistAddMicrodesc s ns md).1) := by
  rw [nodelistAddMicrodesc]
  split
  · exact Ends.of_some h hu
  next rs _ =>
  rcases hf : nodeGetMutableById s rs.identityDigest with _ | r
  · exact Ends.of_some h hu
  · obtain ⟨hct, hl, hi⟩ := takeMd_spec h ((nodeGetMutableById_iff h.listed).mp hf).1 md
    exact Ends.of_some hct (hu.of_same hl hi)

theorem nodelistRemoveMicrodesc_ends (h : Consistent s) (hu : Usable s) (identity : BytesN DIGEST_LEN)
    (md : MicrodescT) : Ends s 0 (some (nodelistRemoveMicrodesc s identity md)) := by
  rw [nodelistRemoveMicrodesc]
  rcases hf : nodeGetMutableById s identity with _ | r
  · exact Ends.of_some h hu
  have hr : r ∈ s.nodes := ((nodeGetMutableById_iff h.listed).mp hf).1
  simp only
  split
  · have h1 := setMd_consistent h hr none
    have hu1 : Usable (setMd s r none) := hu.of_same setMd_sameList setMd_sameInfo
    split
    · obtain ⟨hl, hi⟩ := nodeRemoveFromEd25519Map_same h1.ed (show r ∈ (setMd s r none).nodes from hr)
      exact Ends.of_some (nodeRemoveFromEd25519Map_consistent h1 hr) (hu1.of_same hl hi)
    · exact Ends.of_some h1 hu1
  · exact Ends.of_some h hu

/-! ## The purge -/

/-- One node of the walk: it is kept if it is of use, and the other ones are kept. -/
theorem purgeNode_spec (h : Consistent s) {r : NodeRef} (hr : r ∈ s.nodes) :
    ∃ t, purgeNode s r = some t ∧ Consistent t ∧ SameInfo s t ∧ (∀ q ∈ t.nodes, q ∈ s.nodes) ∧
      (∀ q ∈ s.nodes, q ≠ r → q ∈ t.nodes) ∧ (r ∈ t.nodes → nodeIsUsable (s.node r) = true) := by
  -- without its microdescriptor, or as it was
  obtain ⟨u, hu, hcu, hlu, hiu⟩ : ∃ u, (if (s.node r).md.isSome ∧ (s.node r).rs = none then setMd s r none else s) = u ∧
      Consistent u ∧ SameList s u ∧ SameInfo s u := by
    split
    · exact ⟨_, rfl, setMd_consistent h hr none, setMd_sameList, setMd_sameInfo⟩
    · exact ⟨_, rfl, h, ⟨rfl, rfl, rfl, fun _ => ⟨rfl, rfl⟩⟩, fun _ => ⟨rfl, rfl⟩⟩
  simp only [purgeNode, hu]
  rw [nodeIsUsable_of_same hiu]
  split
  · next huse =>
    exact ⟨u, rfl, hcu, hiu, fun q hq => hlu.nodes ▸ hq, fun q hq _ => hlu.nodes ▸ hq, fun _ => huse⟩
  · have hru : r ∈ u.nodes := hlu.nodes ▸ hr
    obtain ⟨t, -, ht, hct, hperm, hinfo, -⟩ := nodelistDropNode_nodeFree hcu hru
    have hperm : (r :: t.nodes).Perm s.nodes := hlu.nodes ▸ hperm
    have hnd := hperm.nodup_iff.mpr h.listed.idx.nodup
    refine ⟨t, ht, hct, hiu.trans hinfo, fun q hq => hperm.subset (List.mem_cons_of_mem _ hq), fun q hq hqr => ?_,
      fun hm => absurd hm (List.nodup_cons.mp hnd).1⟩
    rcases List.mem_cons.mp (hperm.mem_iff.mpr hq) with he | hq
    · exact absurd he hqr
    · exact hq

/-- The walk over `todo`, when the nodes that it does not visit are of use. -/
theorem purge_loop {todo : List NodeRef} (h : Consistent s) (hnd : todo.Nodup)
    (hsub : ∀ q ∈ todo, q ∈ s.nodes) (hdone : ∀ q ∈ s.nodes, q ∉ todo → nodeIsUsable (s.node q) = true) :
    ∃ t, todo.foldlM purgeNode s = some t ∧ Consistent t ∧ Usable t := by
  induction todo generalizing s with
  | nil => exact ⟨s, rfl, h, fun q hq => hdone q hq List.not_mem_nil⟩
  | cons r todo ih =>
    obtain ⟨hout, hnd⟩ := List.nodup_cons.mp hnd
    obtain ⟨t, ht, hct, hinfo, hback, hkeep, huse⟩ := purgeNode_spec h (hsub r List.mem_cons_self)
    have hrest : ∀ q ∈ todo, q ∈ t.nodes := by
      intro q hq
      exact hkeep q (hsub q (List.mem_cons_of_mem _ hq)) fun he => hout (he ▸ hq)
    obtain ⟨u, hu, hcu, huu⟩ := ih hct hnd hrest fun q hq hqt => by
      rw [nodeIsUsable_of_same hinfo]
      by_cases hqr : q = r
      · rw [hqr] at hq ⊢
        exact huse hq
      · exact hdone q (hback q hq) fun hm => (List.mem_cons.mp hm).elim hqr hqt
    refine ⟨u, ?_, hcu, huu⟩
    rw [List.foldlM_cons, ht]
    exact hu

theorem nodelistPurge_spec (h : Consistent s) (order : HtOrder) :
    ∃ t, nodelistPurge order s = some t ∧ Consistent t ∧ Usable t := by
  have hperm : (order.1 s.nodesById).Perm s.nodes := (order.2 _).trans h.listed.byId
  refine purge_loop h (hperm.nodup_iff.mpr h.listed.idx.nodup) (fun q hq => hperm.mem_iff.mp hq) fun q hq hout => ?_
  exact absurd (hperm.mem_iff.mpr hq) hout

/-! ## The consensus -/

theorem clearRs_consistent {l : List NodeRef} (h : Consistent s) :
    Consistent (l.foldl (fun s r => setRs s r none) s) ∧
      (l.foldl (fun s r => setRs s r none) s).nodes = s.nodes := by
  induction l generalizing s with
  | nil => exact ⟨h, rfl⟩
  | cons r l ih => exact ih (setRs_consistent h r none)

theorem useRouterstatus_spec (h : Consistent s) (flavor : Flavor) (rs : RouterstatusT) :
    (∃ t, useRouterstatus flavor s rs = some t ∧ Consistent t ∧ t.nodes.length ≤ s.nodes.length + 1) ∨
      (useRouterstatus flavor s rs = none ∧ maxCapacity < s.nodes.length + 1) := by
  rw [useRouterstatus]
  rcases nodeGetOrCreate_spec h rs.identityDigest with ⟨t, r, ht, hct, hr, hlen, -⟩ | ⟨hnone, hfull⟩
  · rw [ht, Option.map_some]
    have h1 := setRs_consistent hct r (some rs)
    obtain ⟨h2, hl, -⟩ := takeMd_spec h1 (show r ∈ (setRs t r (some rs)).nodes from hr) rs.md
    refine .inl ⟨_, rfl, ?_⟩
    simp only
    split
    · exact ⟨h2, hl.nodes ▸ hlen⟩
    · exact ⟨h1, hlen⟩
  · rw [hnone]
    exact .inr ⟨rfl, hfull⟩

theorem useRouterstatus_loop {l : List RouterstatusT} (h : Consistent s) (flavor : Flavor) :
    (∃ t, l.foldlM (useRouterstatus flavor) s = some t ∧ Consistent t) ∨
      (l.foldlM (useRouterstatus flavor) s = none ∧ maxCapacity < s.nodes.length + l.length) := by
  induction l generalizing s with
  | nil => exact .inl ⟨s, rfl, h⟩
  | cons rs l ih =>
    rw [List.foldlM_cons, List.length_cons]
    rcases useRouterstatus_spec h flavor rs with ⟨t, ht, hct, hlen⟩ | ⟨hnone, hfull⟩
    · rw [ht]
      rcases ih hct with ⟨u, hu, hcu⟩ | ⟨hnone, hfull⟩
      · exact .inl ⟨u, hu, hcu⟩
      · exact .inr ⟨hnone, by omega⟩
    · rw [hnone]
      exact .inr ⟨rfl, by omega⟩

theorem nodelistSetConsensus_ends (h : Consistent s) (order : HtOrder) (authdir : Bool)
    (ns : NetworkstatusT) : Ends s ns.routerstatusList.length (nodelistSetConsensus order authdir s ns) := by
  obtain ⟨h0, hnodes⟩ := clearRs_consistent (l := s.nodes) h
  rw [nodelistSetConsensus]
  rcases useRouterstatus_loop (l := ns.routerstatusList) h0 ns.flavor with ⟨t, ht, hct⟩ | ⟨hnone, hfull⟩
  · obtain ⟨u, hu, hcu, huu⟩ := nodelistPurge_spec hct order
    have hall : u.nodes.all (fun r => (u.node r).rs.isSome || (u.node r).ri.isSome) = true := List.all_eq_true.mpr huu
    simp only [ht, hu, Option.bind_eq_bind, Option.bind_some]
    rw [if_neg (by simp [hall])]
    exact Ends.of_some hcu huu
  · simp only [hnone, Option.bind_eq_bind, Option.bind_none]
    exact .inr ⟨rfl, hnodes ▸ hfull⟩

/-! ## Runs -/

/-- The nodes that an operation may add. -/
def Op.entries : Op → Nat
  | .setConsensus _ _ ns => ns.routerstatusList.length
  | .setRouterinfo _ => 1
  | .removeRouterinfo _ | .addMicrodesc .. | .removeMicrodesc .. | .purge _ => 0

theorem step_ends (h : Consistent s) (hu : Usable s) (op : Op) : Ends s op.entries (step s op) := by
  cases op with
  | setConsensus order authdir ns => exact nodelistSetConsensus_ends h order authdir ns
  | setRouterinfo ri => exact nodelistSetRouterinfo_ends h hu ri
  | removeRouterinfo ri => exact nodelistRemoveRouterinfo_ends h hu ri
  | addMicrodesc ns md => exact nodelistAddMicrodesc_ends h hu ns md
  | removeMicrodesc identity md => exact nodelistRemoveMicrodesc_ends h hu identity md
  | purge order =>
    obtain ⟨t, ht, hct, hut⟩ := nodelistPurge_spec h order
    exact .inl ⟨t, ht, hct, hut⟩

theorem empty_consistent : Consistent NodelistT.empty where
  listed := ⟨Nat.zero_le _, nofun, nofun, List.Perm.refl _, nofun⟩
  ed := ⟨List.nodup_nil, by simp [NodelistT.empty], nofun⟩
  held _ := rfl

theorem run_consistent {ops : List Op} (h : run step NodelistT.empty ops = some s) : Consistent s ∧ Usable s := by
  refine run_inv_hist (I := fun _ s => Consistent s ∧ Usable s) ⟨empty_consistent, nofun⟩ ?_ h
  intro _ t op u _ hi hstep
  rcases step_ends hi.1 hi.2 op with ⟨v, hv, hcv, huv⟩ | ⟨hnone, -⟩
  · rw [hstep] at hv
    cases hv
    exact ⟨hcv, huv⟩
  · rw [hstep] at hnone
    cases hnone

/-- What `nodelist_assert_ok` asks of the indexes, and the counts of the microdescriptors. -/
structure NodelistOk (s : NodelistT) : Prop where
  idx : ∀ (i : Nat) (r : NodeRef), s.nodes[i]? = some r → (s.node r).nodelistIdx = i
  byId : s.nodesById.Perm s.nodes
  identities : (s.nodes.map fun r => (s.node r).identity).Nodup
  /-- each key finds the node that has it, and the table holds no other node -/
  byEdId : ∀ key r, key ≠ zeroEd25519Id →
    (nodeGetMutableByEd25519Id s key = some r ↔ r ∈ s.nodes ∧ (s.node r).ed25519Id = key)
  edNodes : s.nodesByEdId.Nodup ∧ ∀ r ∈ s.nodesByEdId, r ∈ s.nodes ∧ (s.node r).ed25519Id ≠ zeroEd25519Id
  usable : ∀ r ∈ s.nodes, (s.node r).rs.isSome = true ∨ (s.node r).ri.isSome = true
  held : ∀ addr, (s.heldByNodes addr).toNat = s.nodes.countP fun r => (s.node r).md.map (·.addr) = some addr

theorem Consistent.ok (h : Consistent s) (hu : Usable s) : NodelistOk s where
  idx := h.listed.idx
  byId := h.listed.byId
  identities := h.listed.idx.nodup.map_on h.listed.identities
  byEdId key r hkey := by
    rw [nodeGetMutableByEd25519Id, if_neg hkey, findByEdId_iff h.ed, h.ed.mem]
    refine ⟨fun hr => ⟨hr.1.1, hr.2⟩, fun hr => ⟨⟨hr.1, ?_⟩, hr.2⟩⟩
    rw [hr.2]
    exact hkey
  edNodes := ⟨h.ed.nodup, fun r hr => (h.ed.mem r).mp hr⟩
  usable r hr := by simpa only [nodeIsUsable, Bool.or_eq_true] using hu r hr
  held := h.held

/-- Any operations lead from the empty nodelist to one in order; they stop only at one that adds more nodes than
    the list has room for. -/
theorem nodelist_stays_ok (ops : List Op) :
    (∀ s, run step NodelistT.empty ops = some s → NodelistOk s) ∧
      (run step NodelistT.empty ops = none → ∃ pre op s, pre ++ [op] <+: ops ∧
        run step NodelistT.empty pre = some s ∧ NodelistOk s ∧ maxCapacity < s.nodes.length + op.entries) := by
  refine ⟨fun s hs => ?_, fun hnone => ?_⟩
  · obtain ⟨h, hu⟩ := run_consistent hs
    exact h.ok hu
  · obtain ⟨pre, op, s, hpre, hs, hstep⟩ := run_eq_none hnone
    obtain ⟨h, hu⟩ := run_consistent hs
    refine ⟨pre, op, s, hpre, hs, h.ok hu, ?_⟩
    rcases step_ends h hu op with ⟨t, ht, -⟩ | ⟨-, hfull⟩
    · rw [hstep] at ht
      cases ht
    · exact hfull

def repeated (n : Nat) (b : UInt8) : BytesN n := ⟨List.replicate n b, List.length_replicate⟩

/-- An entry of a relay, with a key and a microdescriptor of its own. -/
def entryOf (identity key : UInt8) (addr : Nat) : RouterstatusT where
  identityDigest := repeated DIGEST_LEN identity
  descriptorDigest := repeated DIGEST256_LEN identity
  md := ⟨addr, repeated DIGEST256_LEN identity, some (repeated DIGEST256_LEN key)⟩

-- Two relays with one ed25519 key, the first listed twice: two nodes, one of them found by the key, and nothing
-- holds the microdescriptor that the second entry of the first relay replaced.
example : (run step NodelistT.empty [.setConsensus ⟨id, List.Perm.refl⟩ false
      ⟨.MICRODESC, [entryOf 1 7 100, entryOf 2 7 101, entryOf 1 7 102]⟩]).map
    (fun s => (s.nodes, s.nodesById, s.nodesByEdId, s.heldByNodes 100, s.heldByNodes 101, s.heldByNodes 102)) =
    some ([0, 1], [1, 0], [0], 0, 1, 1) := by decide +kernel

end Badnet.Nodelist
