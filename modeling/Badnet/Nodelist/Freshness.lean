/-
  Badnet.Nodelist.Freshness — whether the nodes that the table by ed25519 identity finds still have the key they are
  found by.

  The key of a node is that of its routerinfo or of its microdescriptor. `nodelist_remove_microdesc` takes the node out
  of the table if it has no key anymore; `nodelist_remove_routerinfo`, `nodelist_purge` and `nodelist_set_consensus`
  leave it where it is. So the table is fresh in every state of a run exactly if all its operations leave a descriptor
  that asserts the key (`KeepsKeys`, `ed_index_fresh_iff`).
-/

import Badnet.Nodelist.Operations

namespace Badnet.Nodelist

open Lib Encoding Dirparse

/-- Whatever node a key finds has this key. -/
def Fresh (s : NodelistT) : Prop :=
  ∀ key r, nodeGetMutableByEd25519Id s key = some r → nodeGetEd25519Id (s.node r) = some key

/-! ## The keys that the descriptors assert -/

variable (node : NodeT)

def assertedByRi : Option Ed25519Id :=
  node.ri.bind fun ri => ri.signingKey.filter (· ≠ zeroEd25519Id)

def assertedByMd : Option Ed25519Id :=
  node.md.bind fun md => md.ed25519IdentityPkey.filter (· ≠ zeroEd25519Id)

/-- The key of the node is the one the table has it under. -/
def KeyAsserted : Prop := nodeGetEd25519Id node = some node.ed25519Id

/-- The purge takes the microdescriptor of a node without an entry of the consensus, and keeps the node if it has a
routerinfo: what it leaves asserts the key. -/
def KeptByRi : Prop := node.rs = none → node.ri ≠ none → assertedByRi node = some node.ed25519Id

theorem nodeGetEd25519Id_without_ri : nodeGetEd25519Id { node with ri := none } = assertedByMd node := rfl

theorem nodeGetEd25519Id_without_md : nodeGetEd25519Id { node with md := none } = assertedByRi node := by
  show nodeGetEd25519Id { node with md := none } = node.ri.bind fun ri => ri.signingKey.filter (· ≠ zeroEd25519Id)
  rw [nodeGetEd25519Id]
  rcases node.ri.bind fun ri => ri.signingKey.filter (· ≠ zeroEd25519Id) with _ | pk <;> rfl

/-- A routerinfo with a key has that of the node. -/
theorem assertedByRi_eq {node : NodeT} {key pk : Ed25519Id} (h : nodeGetEd25519Id node = some key)
    (hri : assertedByRi node = some pk) : pk = key := by
  rw [assertedByRi] at hri
  rw [nodeGetEd25519Id, hri] at h
  split at h
  · next he _ =>
    cases he
    split at h
    · exact Option.some.inj h
    · cases h
  · next he _ =>
    cases he
    exact Option.some.inj h
  · next he => cases he

variable {s t : NodelistT}

/-- The table in place of the searches in it. -/
theorem fresh_iff (h : EdOk s) : Fresh s ↔ ∀ r ∈ s.nodesByEdId, KeyAsserted (s.node r) := by
  have hfind : ∀ {key r}, nodeGetMutableByEd25519Id s key = some r ↔
      r ∈ s.nodesByEdId ∧ (s.node r).ed25519Id = key := by
    intro key r
    rw [nodeGetMutableByEd25519Id]
    split
    · next hz =>
      constructor
      · intro hn
        cases hn
      · intro hr
        exact absurd (hr.2.trans hz) ((h.mem r).mp hr.1).2
    · exact findByEdId_iff h
  constructor
  · intro hf r hr
    exact hf _ r (hfind.mpr ⟨hr, rfl⟩)
  · intro hf key r hr
    obtain ⟨hr, hkey⟩ := hfind.mp hr
    rw [← hkey]
    exact hf r hr

/-! ## Nodes that an operation leaves alone -/

/-- The node is in the table if it was, and then it is as it was but for its place in the list. -/
def Untouched (s t : NodelistT) (q : NodeRef) : Prop :=
  (q ∈ t.nodesByEdId ↔ q ∈ s.nodesByEdId) ∧
    (q ∈ s.nodesByEdId → ∃ i, t.node q = { s.node q with nodelistIdx := i })

section

variable {s t u : NodelistT} {q r : NodeRef}

theorem Untouched.of_eq (ht : t.nodesByEdId = s.nodesByEdId) (hq : q ∈ s.nodesByEdId → t.node q = s.node q) :
    Untouched s t q := by
  refine ⟨by rw [ht], fun hm => ⟨(s.node q).nodelistIdx, ?_⟩⟩
  rw [hq hm]

theorem Untouched.trans (h1 : Untouched s t q) (h2 : Untouched t u q) : Untouched s u q := by
  refine ⟨h2.1.trans h1.1, fun hm => ?_⟩
  obtain ⟨i, hi⟩ := h1.2 hm
  obtain ⟨j, hj⟩ := h2.2 (h1.1.mpr hm)
  exact ⟨j, by rw [hj, hi]⟩

/-- A property of the nodes of the table that does not look at their places. -/
theorem Untouched.iff {P : NodeT → Prop} (hP : ∀ node i, P { node with nodelistIdx := i } ↔ P node)
    (h : Untouched s t q) : (q ∈ t.nodesByEdId → P (t.node q)) ↔ (q ∈ s.nodesByEdId → P (s.node q)) := by
  rw [h.1]
  refine forall_congr' fun hm => ?_
  obtain ⟨i, hi⟩ := h.2 hm
  rw [hi, hP]

theorem Untouched.keyAsserted (h : Untouched s t q) :
    (q ∈ t.nodesByEdId → KeyAsserted (t.node q)) ↔ (q ∈ s.nodesByEdId → KeyAsserted (s.node q)) :=
  h.iff fun _ _ => Iff.rfl

theorem Untouched.keptByRi (h : Untouched s t q) :
    (q ∈ t.nodesByEdId → KeptByRi (t.node q)) ↔ (q ∈ s.nodesByEdId → KeptByRi (s.node q)) :=
  h.iff fun _ _ => Iff.rfl

/-- After an operation on one node it only matters whether this one is fresh. -/
theorem fresh_of_untouched (hs : EdOk s) (ht : EdOk t) (hf : Fresh s) (h : ∀ q, q ≠ r → Untouched s t q) :
    Fresh t ↔ (r ∈ t.nodesByEdId → KeyAsserted (t.node r)) := by
  rw [fresh_iff ht]
  refine ⟨fun hall => hall r, fun hr q hq => ?_⟩
  by_cases hqr : q = r
  · rw [hqr] at hq ⊢
    exact hr hq
  · exact (h q hqr).keyAsserted.mpr ((fresh_iff hs).mp hf q) hq

theorem set_untouched {f : NodeT → NodeT} (h : q ≠ r) : Untouched s (s.set r f) q :=
  Untouched.of_eq rfl fun _ => set_node_of_ne h

theorem setMd_node_self {md : Option MicrodescT} : (setMd s r md).node r = { s.node r with md } :=
  Function.update_self ..

theorem setMd_node_of_ne {md : Option MicrodescT} (h : q ≠ r) : (setMd s r md).node q = s.node q :=
  Function.update_of_ne h ..

theorem setMd_untouched {md : Option MicrodescT} (h : q ≠ r) : Untouched s (setMd s r md) q :=
  Untouched.of_eq rfl fun _ => setMd_node_of_ne h

/-! ## Out of the table and back -/

theorem putEd_untouched {key : Ed25519Id} {table : List NodeRef} (h : q ≠ r)
    (hmem : q ∈ table ↔ q ∈ s.nodesByEdId) : Untouched s (putEd s r key table) q := by
  exact ⟨hmem, fun _ => ⟨(s.node q).nodelistIdx, Function.update_of_ne h ..⟩⟩

theorem removed_untouched (h : EdOk s) (hr : r ∈ s.nodes) (hq : q ≠ r) :
    Untouched s (nodeRemoveFromEd25519Map s r) q := by
  rw [nodeRemoveFromEd25519Map_eq h hr]
  refine putEd_untouched hq ?_
  rw [h.nodup.mem_erase_iff]
  exact and_iff_right hq

theorem removed_not_mem (h : EdOk s) (hr : r ∈ s.nodes) : r ∉ (nodeRemoveFromEd25519Map s r).nodesByEdId := by
  rw [nodeRemoveFromEd25519Map_eq h hr, putEd_nodesByEdId, h.nodup.mem_erase_iff]
  exact fun hm => hm.1 rfl

theorem added_untouched (h : EdOk s) (hq : q ≠ r) : Untouched s (nodeAddToEd25519Map s r) q := by
  rcases nodeAddToEd25519Map_cases h r with he | ⟨key, -, -, -, he⟩ <;> rw [he]
  · exact Untouched.of_eq rfl fun _ => rfl
  · refine putEd_untouched hq ?_
    rw [List.mem_cons]
    exact or_iff_right hq

/-- A node that is put into the table is put there under its key. -/
theorem added_asserted (h : EdOk s) (hout : r ∉ s.nodesByEdId) (hm : r ∈ (nodeAddToEd25519Map s r).nodesByEdId) :
    KeyAsserted ((nodeAddToEd25519Map s r).node r) := by
  rcases nodeAddToEd25519Map_cases h r with he | ⟨key, hkey, -, -, he⟩ <;> rw [he] at hm ⊢
  · exact absurd hm hout
  · rw [KeyAsserted, putEd_key, ← hkey, putEd]
    simp only [set_node_self]
    rfl

/-- The node is taken out, its descriptors change, and it is put back: what the header asks for. -/
theorem readded (h : EdOk s) (hr : r ∈ s.nodes) (hu : EdOk u)
    (htable : u.nodesByEdId = (nodeRemoveFromEd25519Map s r).nodesByEdId)
    (hnode : ∀ q, q ≠ r → u.node q = (nodeRemoveFromEd25519Map s r).node q) :
    (∀ q, q ≠ r → Untouched s (nodeAddToEd25519Map u r) q) ∧
      (r ∈ (nodeAddToEd25519Map u r).nodesByEdId → KeyAsserted ((nodeAddToEd25519Map u r).node r)) := by
  refine ⟨fun q hq => ?_, added_asserted hu ?_⟩
  · have hmid : Untouched (nodeRemoveFromEd25519Map s r) u q := Untouched.of_eq htable fun _ => hnode q hq
    exact ((removed_untouched h hr hq).trans hmid).trans (added_untouched hu hq)
  · rw [htable]
    exact removed_not_mem h hr

theorem takeMd_readded (h : Consistent s) (hr : r ∈ s.nodes) (md : MicrodescT) :
    (∀ q, q ≠ r → Untouched s (takeMd s r md) q) ∧
      (r ∈ (takeMd s r md).nodesByEdId → KeyAsserted ((takeMd s r md).node r)) := by
  have hremoved := nodeRemoveFromEd25519Map_consistent h hr
  have hr' : r ∈ (nodeRemoveFromEd25519Map s r).nodes := (nodeRemoveFromEd25519Map_same h.ed hr).1.nodes ▸ hr
  exact readded h.ed hr (setMd_consistent hremoved hr' (some md)).ed rfl fun q hq => setMd_node_of_ne hq

/-! ## A node that comes, a node that goes -/

/-- A node that is created is in no table by key. -/
theorem nodeGetOrCreate_untouched (h : Consistent s) {identity : BytesN DIGEST_LEN}
    (hc : nodeGetOrCreate s identity = some (t, r)) :
    t.nodesByEdId = s.nodesByEdId ∧ (∀ q ∈ s.nodes, t.node q = s.node q) ∧ (t.node r).identity = identity := by
  rw [nodeGetOrCreate] at hc
  rcases hf : nodeGetMutableById s identity with _ | old
  · rw [hf] at hc
    simp only at hc
    split at hc
    · cases hc
    · cases hc
      refine ⟨rfl, fun q hq => created_node_of_ne (h.listed.ne_next hq), ?_⟩
      exact congrArg NodeT.identity (created_node_self (s := s))
  · rw [hf] at hc
    cases hc
    exact ⟨rfl, fun _ _ => rfl, ((nodeGetMutableById_iff h.listed).mp hf).2⟩

theorem gone_untouched (h : Consistent s) (hr : r ∈ s.nodes) {i : Nat} (hq : q ≠ r) :
    Untouched s (gone (nodeRemoveFromEd25519Map s r) r i) q :=
  (removed_untouched h.ed hr hq).trans ⟨Iff.rfl, fun _ => ⟨_, rfl⟩⟩

theorem gone_not_mem (h : Consistent s) (hr : r ∈ s.nodes) {i : Nat} :
    r ∉ (gone (nodeRemoveFromEd25519Map s r) r i).nodesByEdId := removed_not_mem h.ed hr

end

/-! ## The purge -/

/-- The walk at one node: it stays fresh if what it keeps asserts its key. -/
theorem purgeNode_fresh (h : Consistent s) {r : NodeRef} (hr : r ∈ s.nodes) (ht : purgeNode s r = some t) :
    (∀ q, q ≠ r → Untouched s t q) ∧ ((r ∈ s.nodesByEdId → KeyAsserted (s.node r)) →
      ((r ∈ t.nodesByEdId → KeyAsserted (t.node r)) ↔ (r ∈ s.nodesByEdId → KeptByRi (s.node r)))) := by
  have hdropped : ∀ {u : NodelistT}, Consistent u → r ∈ u.nodes →
      (nodelistDropNode { u with nodesById := u.nodesById.erase r } r false).bind (nodeFree · r) = some t →
      (∀ q, q ≠ r → Untouched u t q) ∧ r ∉ t.nodesByEdId := by
    intro u hu hru he
    obtain ⟨v, -, hv, -, -, -, i, rfl⟩ := nodelistDropNode_nodeFree hu hru
    cases hv.symm.trans he
    exact ⟨fun q hq => gone_untouched hu hru hq, gone_not_mem hu hru⟩
  rw [purgeNode] at ht
  by_cases hmd : (s.node r).md.isSome ∧ (s.node r).rs = none
  · rw [if_pos hmd] at ht
    have huse : nodeIsUsable ((setMd s r none).node r) = (s.node r).ri.isSome := by
      rw [setMd_node_self, nodeIsUsable, hmd.2]
      rfl
    simp only [huse] at ht
    split at ht
    · next hri =>
      -- the node loses its microdescriptor and stays
      cases ht
      refine ⟨fun q hq => setMd_untouched hq, fun _ => ?_⟩
      show (r ∈ s.nodesByEdId → _) ↔ _
      refine forall_congr' fun _ => ?_
      rw [KeyAsserted, setMd_node_self, nodeGetEd25519Id_without_md, KeptByRi]
      simp [hmd.2, Option.isSome_iff_ne_none.mp hri]
    · next hri =>
      have hnone : (s.node r).ri = none := by simpa using hri
      obtain ⟨hothers, hout⟩ := hdropped (setMd_consistent h hr none) hr ht
      refine ⟨fun q hq => (setMd_untouched hq).trans (hothers q hq), fun _ => ?_⟩
      refine ⟨fun _ _ _ hri => absurd hnone hri, fun _ hm => absurd hm hout⟩
  · rw [if_neg hmd] at ht
    split at ht
    · -- the node stays as it was: without an entry it has no microdescriptor
      cases ht
      refine ⟨fun q _ => Untouched.of_eq rfl fun _ => rfl, fun hf => ⟨fun hkey hm hrs hri => ?_, fun _ => hf⟩⟩
      have hnone : (s.node r).md = none := by
        rcases hm' : (s.node r).md with _ | md
        · rfl
        · exact absurd ⟨by rw [hm']; rfl, hrs⟩ hmd
      have hsame : s.node r = { s.node r with md := none } := by rw [← hnone]
      have hget := hkey hm
      rw [KeyAsserted] at hget
      rw [← hget, ← nodeGetEd25519Id_without_md, ← hsame]
    · next huse =>
      have hnone : (s.node r).ri = none := by
        rcases hri : (s.node r).ri with _ | ri
        · rfl
        · exact absurd (by rw [nodeIsUsable, hri]; exact Bool.or_true _) huse
      obtain ⟨hothers, hout⟩ := hdropped h hr ht
      exact ⟨hothers, fun _ => ⟨fun _ _ _ hri => absurd hnone hri, fun _ hm => absurd hm hout⟩⟩

theorem purge_loop_fresh {todo : List NodeRef} (h : Consistent s) (hnd : todo.Nodup)
    (hsub : ∀ q ∈ todo, q ∈ s.nodes) (ht : todo.foldlM purgeNode s = some t) :
    (∀ q, q ∉ todo → Untouched s t q) ∧ (∀ q ∈ todo, (q ∈ s.nodesByEdId → KeyAsserted (s.node q)) →
      ((q ∈ t.nodesByEdId → KeyAsserted (t.node q)) ↔ (q ∈ s.nodesByEdId → KeptByRi (s.node q)))) := by
  induction todo generalizing s with
  | nil =>
    cases ht
    exact ⟨fun q _ => Untouched.of_eq rfl fun _ => rfl, by simp⟩
  | cons r todo ih =>
    obtain ⟨hout, hnd⟩ := List.nodup_cons.mp hnd
    have hr := hsub r List.mem_cons_self
    obtain ⟨u, hu, hcu, -, -, hkeep, -⟩ := purgeNode_spec h hr
    rw [List.foldlM_cons, hu] at ht
    obtain ⟨hothers, hself⟩ := purgeNode_fresh h hr hu
    have hne : ∀ q ∈ todo, q ≠ r := by
      intro q hq he
      exact hout (he ▸ hq)
    obtain ⟨hrest, hvisited⟩ := ih hcu hnd
      (fun q hq => hkeep q (hsub q (List.mem_cons_of_mem _ hq)) (hne q hq)) ht
    refine ⟨fun q hq => ?_, fun q hq hf => ?_⟩
    · have hqr : q ≠ r := fun he => hq (he ▸ List.mem_cons_self)
      exact (hothers q hqr).trans (hrest q fun hm => hq (List.mem_cons_of_mem _ hm))
    · rcases List.mem_cons.mp hq with he | hq
      · -- the rest of the walk does not come back
        rw [he] at hf ⊢
        exact (hrest r hout).keyAsserted.trans (hself hf)
      · have huq := hothers q (hne q hq)
        exact (hvisited q hq (huq.keyAsserted.mpr hf)).trans huq.keptByRi

theorem nodelistPurge_fresh (h : Consistent s) (hf : Fresh s) {order : HtOrder}
    (ht : nodelistPurge order s = some t) : Fresh t ↔ ∀ r ∈ s.nodesByEdId, KeptByRi (s.node r) := by
  have hperm : (order.1 s.nodesById).Perm s.nodes := (order.2 _).trans h.listed.byId
  obtain ⟨u, hu, hcu, -⟩ := nodelistPurge_spec h order
  cases hu.symm.trans ht
  obtain ⟨hrest, hvisited⟩ := purge_loop_fresh h (hperm.nodup_iff.mpr h.listed.idx.nodup)
    (fun q hq => hperm.mem_iff.mp hq) hu
  have hsub : ∀ q, q ∈ s.nodesByEdId → q ∈ order.1 s.nodesById := by
    intro q hq
    exact hperm.mem_iff.mpr ((h.ed.mem q).mp hq).1
  rw [fresh_iff hcu.ed]
  refine forall_congr' fun q => ?_
  by_cases hq : q ∈ order.1 s.nodesById
  · exact hvisited q hq ((fresh_iff h.ed).mp hf q)
  · have hout : q ∉ s.nodesByEdId := fun hm => hq (hsub q hm)
    refine ⟨fun _ hm => absurd hm hout, fun _ hm => absurd ((hrest q hq).1.mp hm) hout⟩

/-! ## The consensus -/

/-- What is left of a node that has no entry in the new consensus asserts its key. -/
def KeptByRiWithout (ns : List RouterstatusT) (node : NodeT) : Prop :=
  (∀ rs ∈ ns, rs.identityDigest ≠ node.identity) → node.ri ≠ none → assertedByRi node = some node.ed25519Id

theorem clearRs_node {l : List NodeRef} : (l.foldl (fun s r => setRs s r none) s).nodesByEdId = s.nodesByEdId ∧
      ∀ q, (q ∈ l → (l.foldl (fun s r => setRs s r none) s).node q = { s.node q with rs := none }) ∧
        (q ∉ l → (l.foldl (fun s r => setRs s r none) s).node q = s.node q) := by
  induction l generalizing s with
  | nil => exact ⟨rfl, fun q => ⟨by simp, fun _ => rfl⟩⟩
  | cons r l ih =>
    obtain ⟨htable, hnode⟩ := ih (s := setRs s r none)
    have hself : (setRs s r none).node r = { s.node r with rs := none } := set_node_self
    refine ⟨htable, fun q => ⟨fun hq => ?_, fun hq => ?_⟩⟩
    · rw [List.foldl_cons]
      by_cases hqr : q = r
      · subst hqr
        by_cases hql : q ∈ l
        · rw [(hnode q).1 hql, hself]
        · rw [(hnode q).2 hql, hself]
      · rw [(hnode q).1 ((List.mem_cons.mp hq).resolve_left hqr)]
        rw [setRs, set_node_of_ne hqr]
    · have hqr : q ≠ r := fun he => hq (he ▸ List.mem_cons_self)
      rw [List.foldl_cons, (hnode q).2 fun hm => hq (List.mem_cons_of_mem _ hm)]
      exact set_node_of_ne hqr

theorem nodeGetOrCreate_consistent (h : Consistent s) {identity : BytesN DIGEST_LEN} {r : NodeRef}
    (hu : nodeGetOrCreate s identity = some (t, r)) : Consistent t ∧ r ∈ t.nodes := by
  rcases nodeGetOrCreate_spec h identity with ⟨v, p, hv, hcv, hpv, -⟩ | ⟨hnone, -⟩
  · cases hv.symm.trans hu
    exact ⟨hcv, hpv⟩
  · cases hnone.symm.trans hu

/-- An entry gives its node something to be kept for, and keeps the table fresh. -/
theorem useRouterstatus_fresh (h : Consistent s) {flavor : Flavor} {rs : RouterstatusT}
    (ht : useRouterstatus flavor s rs = some t) (q : NodeRef) :
    ((q ∈ s.nodesByEdId → KeyAsserted (s.node q)) → (q ∈ t.nodesByEdId → KeyAsserted (t.node q))) ∧
      ((q ∈ t.nodesByEdId → KeptByRi (t.node q)) ↔
        (q ∈ s.nodesByEdId → rs.identityDigest ≠ (s.node q).identity → KeptByRi (s.node q))) ∧
      (q ∈ s.nodesByEdId → (t.node q).identity = (s.node q).identity) := by
  rw [useRouterstatus] at ht
  obtain ⟨⟨u, r⟩, hu, ht⟩ := Option.map_eq_some_iff.mp ht
  obtain ⟨htable, hnode, hid⟩ := nodeGetOrCreate_untouched h hu
  obtain ⟨hcu, hru⟩ := nodeGetOrCreate_consistent h hu
  have hcreated : Untouched s u q := Untouched.of_eq htable fun hm => hnode q ((h.ed.mem q).mp hm).1
  have hw := setRs_consistent hcu r (some rs)
  -- the node with its entry, and then with the microdescriptor of the entry
  obtain ⟨hothers, hself, hrs, hids⟩ : (∀ p, p ≠ r → Untouched u t p) ∧
      ((r ∈ u.nodesByEdId → KeyAsserted (u.node r)) → (r ∈ t.nodesByEdId → KeyAsserted (t.node r))) ∧
      (t.node r).rs = some rs ∧ ∀ p, (t.node p).identity = (u.node p).identity := by
    have hset : ((setRs u r (some rs)).node r).rs = some rs := by
      rw [setRs, set_node_self]
    have hids : ∀ p, ((setRs u r (some rs)).node p).identity = (u.node p).identity := by
      intro p
      exact set_field (f := fun node => { node with rs := some rs }) NodeT.identity (fun _ => rfl) p
    simp only at ht
    split at ht
    · cases ht
      obtain ⟨hothers, hself⟩ := takeMd_readded hw (show r ∈ (setRs u r (some rs)).nodes from hru) rs.md
      obtain ⟨-, hlist, hinfo⟩ := takeMd_spec hw (show r ∈ (setRs u r (some rs)).nodes from hru) rs.md
      exact ⟨fun p hp => (set_untouched hp).trans (hothers p hp), fun _ => hself, (hinfo r).1.trans hset,
        fun p => (hlist.node p).2.trans (hids p)⟩
    · cases ht
      refine ⟨fun p hp => set_untouched hp, fun hf hm => ?_, hset, hids⟩
      have hkey := hf hm
      rw [setRs, set_node_self]
      exact hkey
  by_cases hqr : q = r
  · subst hqr
    refine ⟨fun hf => hself (hcreated.keyAsserted.mpr hf), ⟨fun _ hm hne => ?_, fun _ _ hnone => ?_⟩, fun hm => ?_⟩
    · rw [← hnode q ((h.ed.mem q).mp hm).1, hid] at hne
      exact absurd rfl hne
    · rw [hrs] at hnone
      cases hnone
    · rw [hids, hnode q ((h.ed.mem q).mp hm).1]
  · have huntouched := hcreated.trans (hothers q hqr)
    refine ⟨fun hf => huntouched.keyAsserted.mpr hf, huntouched.keptByRi.trans ?_, fun hm => ?_⟩
    · refine forall_congr' fun hm => ⟨fun hk _ => hk, fun hk => hk ?_⟩
      have hq := ((h.ed.mem q).mp hm).1
      intro he
      rw [← hnode q hq, ← hid] at he
      have hqu : q ∈ u.nodes := by
        rw [← htable] at hm
        exact ((hcu.ed.mem q).mp hm).1
      exact hqr (hcu.listed.identities r hru q hqu he).symm
    · rw [hids, hnode q ((h.ed.mem q).mp hm).1]

theorem useRouterstatus_loop_fresh {l : List RouterstatusT} (h : Consistent s) {flavor : Flavor}
    (ht : l.foldlM (useRouterstatus flavor) s = some t) (q : NodeRef) :
    ((q ∈ s.nodesByEdId → KeyAsserted (s.node q)) → (q ∈ t.nodesByEdId → KeyAsserted (t.node q))) ∧
      ((q ∈ t.nodesByEdId → KeptByRi (t.node q)) ↔
        (q ∈ s.nodesByEdId → (∀ rs ∈ l, rs.identityDigest ≠ (s.node q).identity) → KeptByRi (s.node q))) := by
  induction l generalizing s with
  | nil =>
    cases ht
    exact ⟨fun hf => hf, by simp⟩
  | cons rs l ih =>
    rw [List.foldlM_cons] at ht
    obtain ⟨u, hu, ht⟩ := Option.bind_eq_some_iff.mp ht
    have hcu : Consistent u := by
      rcases useRouterstatus_spec h flavor rs with ⟨v, hv, hcv, -⟩ | ⟨hnone, -⟩
      · cases hv.symm.trans hu
        exact hcv
      · cases hnone.symm.trans hu
    obtain ⟨hf, hk, hid⟩ := useRouterstatus_fresh h hu q
    obtain ⟨hfl, hkl⟩ := ih hcu ht
    refine ⟨fun hs => hfl (hf hs), hkl.trans ?_⟩
    by_cases hm : q ∈ s.nodesByEdId
    · rw [hid hm, List.forall_mem_cons]
      constructor
      · rintro hall _ ⟨hne, hl⟩
        exact hk.mp (fun hmu => hall hmu hl) hm hne
      · intro hall hmu hl
        exact hk.mpr (fun hm hne => hall hm ⟨hne, hl⟩) hmu
    · refine ⟨fun _ hm' => absurd hm' hm, fun _ hmu _ => ?_⟩
      exact hk.mpr (fun hm' => absurd hm' hm) hmu

theorem nodelistSetConsensus_fresh (h : Consistent s) (hf : Fresh s) {order : HtOrder}
    {authdir : Bool} {ns : NetworkstatusT} (ht : nodelistSetConsensus order authdir s ns = some t) :
    Fresh t ↔ ∀ r ∈ s.nodesByEdId, KeptByRiWithout ns.routerstatusList (s.node r) := by
  obtain ⟨h0, -⟩ := clearRs_consistent (l := s.nodes) h
  obtain ⟨htable, hnode⟩ := clearRs_node (l := s.nodes) (s := s)
  rw [nodelistSetConsensus] at ht
  simp only [Option.bind_eq_bind] at ht
  obtain ⟨u, hu, ht⟩ := Option.bind_eq_some_iff.mp ht
  obtain ⟨v, hv, ht⟩ := Option.bind_eq_some_iff.mp ht
  have hvt : v = t := by
    split at ht
    · cases ht
    · exact Option.some.inj ht
  subst hvt
  have hcu : Consistent u := by
    rcases useRouterstatus_loop (l := ns.routerstatusList) h0 ns.flavor with ⟨w, hw, hcw⟩ | ⟨hnone, -⟩
    · cases hw.symm.trans hu
      exact hcw
    · cases hnone.symm.trans hu
  have hcleared : ∀ r ∈ s.nodesByEdId, (s.nodes.foldl (fun s r => setRs s r none) s).node r =
      { s.node r with rs := none } := by
    intro r hr
    exact (hnode r).1 ((h.ed.mem r).mp hr).1
  have hfu : Fresh u := by
    refine (fresh_iff hcu.ed).mpr fun r => (useRouterstatus_loop_fresh h0 hu r).1 fun hr => ?_
    rw [htable] at hr
    rw [hcleared r hr]
    exact (fresh_iff h.ed).mp hf r hr
  rw [nodelistPurge_fresh hcu hfu hv]
  refine forall_congr' fun r => ?_
  rw [(useRouterstatus_loop_fresh h0 hu r).2, htable]
  refine forall_congr' fun hr => ?_
  rw [hcleared r hr]
  exact ⟨fun hk hl => hk hl rfl, fun hk hl _ => hk hl⟩

/-! ## One operation -/

/-- The descriptor that an operation leaves to a node asserts the key under which the table has the node. -/
def KeepsKeys (s : NodelistT) : Op → Prop
  | .removeRouterinfo ri => ∀ r ∈ s.nodesByEdId, (s.node r).identity = ri.identityDigest →
      (s.node r).ri.map (·.addr) = some ri.addr → (s.node r).rs ≠ none →
      assertedByMd (s.node r) = some (s.node r).ed25519Id
  | .purge _ => ∀ r ∈ s.nodesByEdId, KeptByRi (s.node r)
  | .setConsensus _ _ ns => ∀ r ∈ s.nodesByEdId, KeptByRiWithout ns.routerstatusList (s.node r)
  | .setRouterinfo _ | .addMicrodesc .. | .removeMicrodesc .. => True

theorem nodelistSetRouterinfo_fresh (h : Consistent s) (ht' : Consistent t) (hf : Fresh s)
    {ri : RouterinfoT} (ht : (nodelistSetRouterinfo s ri).map (·.1) = some t) : Fresh t := by
  rw [nodelistSetRouterinfo, Option.map_map] at ht
  obtain ⟨⟨u, r⟩, hu, rfl⟩ := Option.map_eq_some_iff.mp ht
  obtain ⟨htable, hnode, -⟩ := nodeGetOrCreate_untouched h hu
  obtain ⟨hcu, hru⟩ := nodeGetOrCreate_consistent h hu
  have hcreated : ∀ q, Untouched s u q := by
    intro q
    exact Untouched.of_eq htable fun hm => hnode q ((h.ed.mem q).mp hm).1
  have hset := setRi_consistent (nodeRemoveFromEd25519Map_consistent hcu hru) r (some ri)
  obtain ⟨hothers, hself⟩ := readded hcu.ed hru hset.ed rfl fun q hq => set_node_of_ne hq
  exact (fresh_of_untouched h.ed ht'.ed hf fun q hq => (hcreated q).trans (hothers q hq)).mpr hself

theorem nodelistAddMicrodesc_fresh (h : Consistent s) (hf : Fresh s) {ns : Option NetworkstatusT}
    {md : MicrodescT} (ht : Consistent (nodelistAddMicrodesc s ns md).1) : Fresh (nodelistAddMicrodesc s ns md).1 := by
  rw [nodelistAddMicrodesc] at ht ⊢
  rcases hns : ns.bind fun ns => routerGetConsensusStatusByDescriptorDigest ns md.digest with _ | rs
  · exact hf
  rw [hns] at ht
  simp only at ht ⊢
  rcases hr : nodeGetMutableById s rs.identityDigest with _ | r
  · exact hf
  · rw [hr] at ht
    obtain ⟨hothers, hself⟩ := takeMd_readded h ((nodeGetMutableById_iff h.listed).mp hr).1 md
    exact (fresh_of_untouched h.ed ht.ed hf hothers).mpr hself

/-- The operation looks at what is left of the node: its routerinfo, which cannot have another key. -/
theorem nodelistRemoveMicrodesc_fresh (h : Consistent s) (hf : Fresh s)
    {identity : BytesN DIGEST_LEN} {md : MicrodescT} (ht : Consistent (nodelistRemoveMicrodesc s identity md)) :
    Fresh (nodelistRemoveMicrodesc s identity md) := by
  rw [nodelistRemoveMicrodesc] at ht ⊢
  rcases hr : nodeGetMutableById s identity with _ | r
  · exact hf
  rw [hr] at ht
  have hrs : r ∈ s.nodes := ((nodeGetMutableById_iff h.listed).mp hr).1
  have hmd := setMd_consistent h hrs none
  simp only at ht ⊢
  split
  · next hheld =>
    rw [if_pos hheld] at ht
    split
    · have hothers : ∀ q, q ≠ r → Untouched s (nodeRemoveFromEd25519Map (setMd s r none) r) q := by
        intro q hq
        exact (setMd_untouched hq).trans (removed_untouched hmd.ed hrs hq)
      next hnone =>
      rw [if_pos hnone] at ht
      exact (fresh_of_untouched h.ed ht.ed hf hothers).mpr fun hm => absurd hm (removed_not_mem hmd.ed hrs)
    · next hkey =>
      refine (fresh_of_untouched h.ed hmd.ed hf fun q hq => setMd_untouched hq).mpr fun hm => ?_
      have hold : nodeGetEd25519Id (s.node r) = some (s.node r).ed25519Id := (fresh_iff h.ed).mp hf r hm
      rw [setMd_node_self, nodeGetEd25519Id_without_md] at hkey
      rw [KeyAsserted, setMd_node_self, nodeGetEd25519Id_without_md]
      obtain ⟨pk, hpk⟩ := Option.ne_none_iff_exists'.mp hkey
      rw [hpk, assertedByRi_eq hold hpk]
  · exact hf

theorem nodelistRemoveRouterinfo_fresh (h : Consistent s) (hf : Fresh s) {ri : RouterinfoT}
    (ht : nodelistRemoveRouterinfo s ri = some t) : Fresh t ↔ KeepsKeys s (.removeRouterinfo ri) := by
  have hfound : ∀ {r}, nodeGetMutableById s ri.identityDigest = some r ↔
      r ∈ s.nodes ∧ (s.node r).identity = ri.identityDigest := nodeGetMutableById_iff h.listed
  rw [nodelistRemoveRouterinfo] at ht
  rcases hr : nodeGetMutableById s ri.identityDigest with _ | r
  · rw [hr] at ht
    cases ht
    refine ⟨fun _ q hq hid => ?_, fun _ => hf⟩
    rw [hfound.mpr ⟨((h.ed.mem q).mp hq).1, hid⟩] at hr
    cases hr
  rw [hr] at ht
  obtain ⟨hrs, hrid⟩ := hfound.mp hr
  have honly : ∀ q ∈ s.nodesByEdId, (s.node q).identity = ri.identityDigest → q = r := by
    intro q hq hid
    exact h.listed.identities q ((h.ed.mem q).mp hq).1 r hrs (hid.trans hrid.symm)
  simp only at ht
  split at ht
  · next hri =>
    have hset := setRi_consistent h r none
    have hnode : (setRi s r none).node r = { s.node r with ri := none } := set_node_self
    have hothers : ∀ q, q ≠ r → Untouched s (setRi s r none) q := fun q hq => set_untouched hq
    split at ht
    · next huse =>
      cases ht
      have hrs' : (s.node r).rs ≠ none := by
        rw [hnode, nodeIsUsable] at huse
        intro hnone
        rw [hnone] at huse
        cases huse
      rw [fresh_of_untouched h.ed hset.ed hf hothers, KeyAsserted, hnode, nodeGetEd25519Id_without_ri]
      show (r ∈ s.nodesByEdId → _) ↔ _
      constructor
      · intro hkey q hq hid _ _
        have hqr := honly q hq hid
        rw [hqr] at hq ⊢
        exact hkey hq
      · intro hall hm
        exact hall r hm hrid hri hrs'
    · next huse =>
      obtain ⟨v, hv, -, hcv, -, -, i, rfl⟩ := nodelistDropNode_nodeFree hset (show r ∈ (setRi s r none).nodes from hrs)
      cases hv.symm.trans ht
      refine ⟨fun _ q hq hid _ hne => ?_, fun _ => ?_⟩
      · rw [honly q hq hid] at hne
        refine absurd ?_ huse
        rw [hnode, nodeIsUsable, Option.isSome_iff_ne_none.mpr hne]
        rfl
      · have hall : ∀ q, q ≠ r → Untouched s (gone (nodeRemoveFromEd25519Map (setRi s r none) r) r i) q := by
          intro q hq
          exact (hothers q hq).trans (gone_untouched hset hrs hq)
        exact (fresh_of_untouched h.ed hcv.ed hf hall).mpr fun hm => absurd hm (gone_not_mem hset hrs)
  · next hri =>
    cases ht
    refine ⟨fun _ q hq hid haddr => ?_, fun _ => hf⟩
    rw [honly q hq hid] at haddr
    exact absurd haddr hri

theorem step_fresh (h : Consistent s) (hu : Usable s) (hf : Fresh s) {op : Op}
    (ht : step s op = some t) : Fresh t ↔ KeepsKeys s op := by
  have hct : Consistent t := by
    rcases step_ends h hu op with ⟨v, hv, hcv, -⟩ | ⟨hnone, -⟩
    · cases hv.symm.trans ht
      exact hcv
    · cases hnone.symm.trans ht
  cases op with
  | setConsensus order authdir ns => exact nodelistSetConsensus_fresh h hf ht
  | setRouterinfo ri => exact iff_of_true (nodelistSetRouterinfo_fresh h hct hf ht) trivial
  | removeRouterinfo ri => exact nodelistRemoveRouterinfo_fresh h hf ht
  | addMicrodesc ns md =>
    cases ht
    exact iff_of_true (nodelistAddMicrodesc_fresh h hf hct) trivial
  | removeMicrodesc identity md =>
    cases ht
    exact iff_of_true (nodelistRemoveMicrodesc_fresh h hf hct) trivial
  | purge order => exact nodelistPurge_fresh h hf ht

/-! ## Runs -/

/-- The table by ed25519 identity is fresh in every state of a run exactly if every operation leaves to each node a
descriptor that asserts its key in the table. -/
theorem ed_index_fresh_iff {ops : List Op} {s : NodelistT} (hrun : run step NodelistT.empty ops = some s) :
    AllStates step Fresh NodelistT.empty ops ↔ AllSteps step KeepsKeys NodelistT.empty ops := by
  have hinit : Consistent NodelistT.empty ∧ Usable NodelistT.empty :=
    ⟨empty_consistent, by simp [Usable, NodelistT.empty]⟩
  refine allStates_iff_allSteps_inv (I := fun s => Consistent s ∧ Usable s) hinit ?_ ?_ hrun
  · intro key r hr
    rw [nodeGetMutableByEd25519Id] at hr
    split at hr <;> cases hr
  · intro s op t hi hf ht
    refine ⟨step_fresh hi.1 hi.2 hf ht, fun _ => ?_⟩
    rcases step_ends hi.1 hi.2 op with ⟨v, hv, hcv, huv⟩ | ⟨hnone, -⟩
    · cases hv.symm.trans ht
      exact ⟨hcv, huv⟩
    · cases hnone.symm.trans ht

/-- An entry whose microdescriptor has no ed25519 key. -/
def entryWithoutKey (identity : UInt8) (addr : Nat) : RouterstatusT where
  identityDigest := repeated DIGEST_LEN identity
  descriptorDigest := repeated DIGEST256_LEN identity
  md := ⟨addr, repeated DIGEST256_LEN identity, none⟩

def routerinfoOf (identity key : UInt8) (addr : Nat) : RouterinfoT where
  addr := addr
  identityDigest := repeated DIGEST_LEN identity
  signingKey := some (repeated DIGEST256_LEN key)

/-- A consensus with one entry, then the routerinfo of that relay, which goes again. -/
def routerinfoComesAndGoes (rs : RouterstatusT) : List Op :=
  [.setConsensus ⟨id, List.Perm.refl⟩ false ⟨.MICRODESC, [rs]⟩, .setRouterinfo (routerinfoOf 1 7 200),
    .removeRouterinfo (routerinfoOf 1 7 200)]

theorem the_key_outlives_its_routerinfo :
    ¬ ∀ ops s, run step NodelistT.empty ops = some s →
      ∀ key r, nodeGetMutableByEd25519Id s key = some r → nodeGetEd25519Id (s.node r) = some key := by
  intro hall
  have hrun : (run step NodelistT.empty (routerinfoComesAndGoes (entryWithoutKey 1 100))).map
      (fun s => (nodeGetMutableByEd25519Id s (repeated DIGEST256_LEN 7), nodeGetEd25519Id (s.node 0))) =
      some (some 0, none) := by decide +kernel
  obtain ⟨s, hs, he⟩ := Option.map_eq_some_iff.mp hrun
  obtain ⟨hfound, hkey⟩ := Prod.mk.inj he
  cases hkey.symm.trans (hall _ s hs _ 0 hfound)

instance (s : NodelistT) (op : Op) : Decidable (KeepsKeys s op) :=
  match op with
  | .removeRouterinfo ri => List.decidableBAll (fun r => (s.node r).identity = ri.identityDigest →
      (s.node r).ri.map (·.addr) = some ri.addr → (s.node r).rs ≠ none →
      assertedByMd (s.node r) = some (s.node r).ed25519Id) s.nodesByEdId
  | .purge _ => List.decidableBAll (fun r => (s.node r).rs = none → (s.node r).ri ≠ none →
      assertedByRi (s.node r) = some (s.node r).ed25519Id) s.nodesByEdId
  | .setConsensus _ _ ns => @List.decidableBAll _ (fun r => KeptByRiWithout ns.routerstatusList (s.node r))
      (fun r => @instDecidableForall _ _
        (List.decidableBAll (fun rs => rs.identityDigest ≠ (s.node r).identity) ns.routerstatusList) inferInstance)
      s.nodesByEdId
  | .setRouterinfo _ | .addMicrodesc .. | .removeMicrodesc .. => inferInstanceAs (Decidable True)

/-- A microdescriptor with the same key keeps the node findable. -/
theorem the_key_stays_with_its_microdescriptor :
    AllStates step Fresh NodelistT.empty (routerinfoComesAndGoes (entryOf 1 7 100)) := by
  obtain ⟨s, hs⟩ : ∃ s, run step NodelistT.empty (routerinfoComesAndGoes (entryOf 1 7 100)) = some s :=
    Option.isSome_iff_exists.mp (by decide +kernel)
  exact (ed_index_fresh_iff hs).mpr (allSteps_of_check (by decide +kernel))

end Badnet.Nodelist
