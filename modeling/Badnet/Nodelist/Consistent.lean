/-
  Badnet.Nodelist.Consistent — the list, the tables and the counts of the nodelist agree.

  Three invariants, each about its own fields: the list and the table by identity (`Listed`), the table by ed25519
  identity (`EdOk`), the counts of the microdescriptors (`HeldOk`). What an operation leaves alone is said by
  `SameList`, `SameEd` and `SameMd`. Every operation keeps them, and no assertion in it fails while the list has room.
-/

import Badnet.Nodelist.Nodelist

namespace Badnet.Nodelist

open Lib Encoding Dirparse

/-! ## The invariants -/

structure Listed (s : NodelistT) : Prop where
  room : s.nodes.length ≤ maxCapacity
  idx : Positioned (fun r => (s.node r).nodelistIdx) s.nodes
  next : ∀ r ∈ s.nodes, r < s.next
  byId : s.nodesById.Perm s.nodes
  identities : ∀ r ∈ s.nodes, ∀ q ∈ s.nodes, (s.node r).identity = (s.node q).identity → r = q

structure EdOk (s : NodelistT) : Prop where
  nodup : s.nodesByEdId.Nodup
  mem : ∀ r, r ∈ s.nodesByEdId ↔ r ∈ s.nodes ∧ (s.node r).ed25519Id ≠ zeroEd25519Id
  ids : ∀ r ∈ s.nodesByEdId, ∀ q ∈ s.nodesByEdId, (s.node r).ed25519Id = (s.node q).ed25519Id → r = q

/-- The node holds the microdescriptor at this address. -/
def holds (s : NodelistT) (addr : Nat) (r : NodeRef) : Bool := (s.node r).md.map (·.addr) = some addr

def HeldOk (s : NodelistT) : Prop := ∀ addr, (s.heldByNodes addr).toNat = s.nodes.countP (holds s addr)

structure Consistent (s : NodelistT) : Prop where
  listed : Listed s
  ed : EdOk s
  held : HeldOk s

/-! ## What an operation leaves alone -/

structure SameList (s t : NodelistT) : Prop where
  next : t.next = s.next
  nodes : t.nodes = s.nodes
  nodesById : t.nodesById = s.nodesById
  node : ∀ r, (t.node r).nodelistIdx = (s.node r).nodelistIdx ∧ (t.node r).identity = (s.node r).identity

structure SameEd (s t : NodelistT) : Prop where
  nodes : t.nodes = s.nodes
  nodesByEdId : t.nodesByEdId = s.nodesByEdId
  node : ∀ r, (t.node r).ed25519Id = (s.node r).ed25519Id

structure SameMd (s t : NodelistT) : Prop where
  nodes : t.nodes = s.nodes
  heldByNodes : t.heldByNodes = s.heldByNodes
  node : ∀ r, (t.node r).md = (s.node r).md

/-- The entries and routerinfos of the nodes. -/
def SameInfo (s t : NodelistT) : Prop := ∀ r, (t.node r).rs = (s.node r).rs ∧ (t.node r).ri = (s.node r).ri

variable {s t : NodelistT} {r : NodeRef}

theorem SameList.trans {u : NodelistT} (h1 : SameList s t) (h2 : SameList t u) : SameList s u where
  next := h2.next.trans h1.next
  nodes := h2.nodes.trans h1.nodes
  nodesById := h2.nodesById.trans h1.nodesById
  node r := ⟨(h2.node r).1.trans (h1.node r).1, (h2.node r).2.trans (h1.node r).2⟩

theorem SameInfo.trans {u : NodelistT} (h1 : SameInfo s t) (h2 : SameInfo t u) : SameInfo s u :=
  fun r => ⟨(h2 r).1.trans (h1 r).1, (h2 r).2.trans (h1 r).2⟩

theorem Listed.of_same (h : Listed s) (e : SameList s t) : Listed t where
  room := e.nodes ▸ h.room
  idx := e.nodes ▸ h.idx.congr fun r _ => (e.node r).1
  next r hr := e.next ▸ h.next r (e.nodes ▸ hr)
  byId := e.nodes ▸ e.nodesById ▸ h.byId
  identities r hr q hq he := by
    rw [(e.node r).2, (e.node q).2] at he
    exact h.identities r (e.nodes ▸ hr) q (e.nodes ▸ hq) he

theorem EdOk.of_same (h : EdOk s) (e : SameEd s t) : EdOk t where
  nodup := e.nodesByEdId ▸ h.nodup
  mem r := by
    rw [e.nodesByEdId, e.nodes, e.node]
    exact h.mem r
  ids r hr q hq he := by
    rw [e.node, e.node] at he
    exact h.ids r (e.nodesByEdId ▸ hr) q (e.nodesByEdId ▸ hq) he

theorem HeldOk.of_same (h : HeldOk s) (e : SameMd s t) : HeldOk t := by
  intro addr
  have hholds : holds t addr = holds s addr := by
    funext r
    rw [holds, holds, e.node]
  rw [e.heldByNodes, e.nodes, hholds]
  exact h addr

/-! ## Assignments to one node -/

section

variable {s : NodelistT} {r : NodeRef} {f : NodeT → NodeT}

@[simp] theorem set_node_self : (s.set r f).node r = f (s.node r) := Function.update_self ..

theorem set_node_of_ne {q : NodeRef} (h : q ≠ r) : (s.set r f).node q = s.node q := Function.update_of_ne h ..

/-- A field that the assignment does not touch. -/
theorem set_field {β : Type} (g : NodeT → β) (hg : ∀ node, g (f node) = g node) (q : NodeRef) :
    g ((s.set r f).node q) = g (s.node q) := by
  by_cases h : q = r
  · rw [h, set_node_self, hg]
  · rw [set_node_of_ne h]

/-- An assignment to fields that are in no invariant. -/
theorem set_consistent (h : Consistent s) (hidx : ∀ node, (f node).nodelistIdx = node.nodelistIdx)
    (hid : ∀ node, (f node).identity = node.identity) (hed : ∀ node, (f node).ed25519Id = node.ed25519Id)
    (hmd : ∀ node, (f node).md = node.md) : Consistent (s.set r f) where
  listed := h.listed.of_same ⟨rfl, rfl, rfl, fun q => ⟨set_field _ hidx q, set_field _ hid q⟩⟩
  ed := h.ed.of_same ⟨rfl, rfl, set_field _ hed⟩
  held := h.held.of_same ⟨rfl, rfl, set_field _ hmd⟩

end

theorem setRs_consistent (h : Consistent s) (r : NodeRef) (rs : Option RouterstatusT) :
    Consistent (setRs s r rs) := set_consistent h (fun _ => rfl) (fun _ => rfl) (fun _ => rfl) fun _ => rfl

theorem setRi_consistent (h : Consistent s) (r : NodeRef) (ri : Option RouterinfoT) :
    Consistent (setRi s r ri) := set_consistent h (fun _ => rfl) (fun _ => rfl) (fun _ => rfl) fun _ => rfl

/-! ## Searches -/

theorem nodeGetMutableById_iff (h : Listed s) {identity : BytesN DIGEST_LEN} :
    nodeGetMutableById s identity = some r ↔ r ∈ s.nodes ∧ (s.node r).identity = identity := by
  rw [nodeGetMutableById, find?_key_iff, h.byId.mem_iff]
  intro q hq q' hq' he
  exact h.identities q (h.byId.mem_iff.mp hq) q' (h.byId.mem_iff.mp hq') he

theorem findByEdId_iff (h : EdOk s) {key : Ed25519Id} :
    findByEdId s key = some r ↔ r ∈ s.nodesByEdId ∧ (s.node r).ed25519Id = key := by
  rw [findByEdId, find?_key_iff h.ids]

theorem nodeGetEd25519Id_ne_zero {node : NodeT} {key : Ed25519Id} (h : nodeGetEd25519Id node = some key) :
    key ≠ zeroEd25519Id := by
  have hpk : ∀ {o : Option Ed25519Id} {k : Ed25519Id}, o.filter (· ≠ zeroEd25519Id) = some k → k ≠ zeroEd25519Id := by
    intro o k hk
    have := (Option.filter_eq_some_iff.mp hk).2
    rwa [decide_eq_true_eq] at this
  have hri : ∀ {k}, (node.ri.bind fun ri => ri.signingKey.filter (· ≠ zeroEd25519Id)) = some k → k ≠ zeroEd25519Id := by
    intro k hk
    obtain ⟨ri, -, hk⟩ := Option.bind_eq_some_iff.mp hk
    exact hpk hk
  have hmd : ∀ {k}, (node.md.bind fun md => md.ed25519IdentityPkey.filter (· ≠ zeroEd25519Id)) = some k →
      k ≠ zeroEd25519Id := by
    intro k hk
    obtain ⟨md, -, hk⟩ := Option.bind_eq_some_iff.mp hk
    exact hpk hk
  rw [nodeGetEd25519Id] at h
  split at h
  · next hr hm =>
    split at h
    · exact Option.some.inj h ▸ hri hr
    · cases h
  · next hr hm => exact Option.some.inj h ▸ hri hr
  · next hr => exact hmd h

/-! ## The table by ed25519 identity -/

/-- A key for the node and members for the table: what both operations on it come to. -/
def putEd (s : NodelistT) (r : NodeRef) (key : Ed25519Id) (table : List NodeRef) : NodelistT :=
  { s.set r fun node => { node with ed25519Id := key } with nodesByEdId := table }

section

variable {s : NodelistT} {r : NodeRef} {key : Ed25519Id} {table : List NodeRef}

@[simp] theorem putEd_nodes : (putEd s r key table).nodes = s.nodes := rfl
@[simp] theorem putEd_nodesByEdId : (putEd s r key table).nodesByEdId = table := rfl
@[simp] theorem putEd_key : ((putEd s r key table).node r).ed25519Id = key := by simp [putEd]

theorem putEd_key_of_ne {q : NodeRef} (h : q ≠ r) : ((putEd s r key table).node q).ed25519Id = (s.node q).ed25519Id := by
  rw [putEd]
  simp only
  rw [set_node_of_ne h]

theorem putEd_field {β : Type} (g : NodeT → β) (hg : ∀ node, g { node with ed25519Id := key } = g node) (q : NodeRef) :
    g ((putEd s r key table).node q) = g (s.node q) := set_field (f := fun node => { node with ed25519Id := key }) g hg q

theorem putEd_sameList : SameList s (putEd s r key table) where
  next := rfl
  nodes := rfl
  nodesById := rfl
  node q := ⟨putEd_field (·.nodelistIdx) (fun _ => rfl) q, putEd_field (·.identity) (fun _ => rfl) q⟩

theorem putEd_sameMd : SameMd s (putEd s r key table) where
  nodes := rfl
  heldByNodes := rfl
  node := putEd_field (·.md) fun _ => rfl

theorem putEd_sameInfo : SameInfo s (putEd s r key table) :=
  fun q => ⟨putEd_field (·.rs) (fun _ => rfl) q, putEd_field (·.ri) (fun _ => rfl) q⟩

/-- The node is in the new table exactly if its key is not zero, and no other member has that key. -/
theorem EdOk.putEd (h : EdOk s) (hr : r ∈ s.nodes) (hnd : table.Nodup) (hself : r ∈ table ↔ key ≠ zeroEd25519Id)
    (hother : ∀ q, q ≠ r → (q ∈ table ↔ q ∈ s.nodesByEdId))
    (hnew : r ∈ table → ∀ q ∈ s.nodesByEdId, q ≠ r → (s.node q).ed25519Id ≠ key) :
    EdOk (Badnet.Nodelist.putEd s r key table) := by
  refine ⟨hnd, fun q => ?_, fun q hq q' hq' he => ?_⟩
  · by_cases hqr : q = r
    · subst hqr
      simp only [putEd_nodesByEdId, putEd_nodes, putEd_key, hself, hr, true_and]
    · rw [putEd_nodesByEdId, putEd_nodes, putEd_key_of_ne hqr, hother q hqr]
      exact h.mem q
  · rw [putEd_nodesByEdId] at hq hq'
    by_cases hqr : q = r <;> by_cases hqr' : q' = r
    · exact hqr.trans hqr'.symm
    · rw [hqr] at hq he
      rw [putEd_key, putEd_key_of_ne hqr'] at he
      exact absurd he.symm (hnew hq q' ((hother q' hqr').mp hq') hqr')
    · rw [hqr'] at hq' he
      rw [putEd_key, putEd_key_of_ne hqr] at he
      exact absurd he (hnew hq' q ((hother q hqr).mp hq) hqr)
    · rw [putEd_key_of_ne hqr, putEd_key_of_ne hqr'] at he
      exact h.ids q ((hother q hqr).mp hq) q' ((hother q' hqr').mp hq') he

end

/-- With the invariant, a removal takes the node out of the table and clears its key, also if it had none. -/
theorem nodeRemoveFromEd25519Map_eq (h : EdOk s) (hr : r ∈ s.nodes) :
    nodeRemoveFromEd25519Map s r = putEd s r zeroEd25519Id (s.nodesByEdId.erase r) := by
  rw [nodeRemoveFromEd25519Map]
  by_cases hz : (s.node r).ed25519Id = zeroEd25519Id
  · have hout : r ∉ s.nodesByEdId := fun hm => ((h.mem r).mp hm).2 hz
    have hsame : { s.node r with ed25519Id := zeroEd25519Id } = s.node r := by rw [← hz]
    rw [if_pos hz, List.erase_of_not_mem hout, putEd, NodelistT.set, hsame, Function.update_eq_self]
  · have hfound : findByEdId s (s.node r).ed25519Id = some r := (findByEdId_iff h).mpr ⟨(h.mem r).mpr ⟨hr, hz⟩, rfl⟩
    rw [if_neg hz, if_neg (not_not.mpr hfound)]
    rfl

theorem nodeRemoveFromEd25519Map_consistent (h : Consistent s) (hr : r ∈ s.nodes) :
    Consistent (nodeRemoveFromEd25519Map s r) := by
  rw [nodeRemoveFromEd25519Map_eq h.ed hr]
  have hmem : ∀ {q}, q ∈ s.nodesByEdId.erase r ↔ q ≠ r ∧ q ∈ s.nodesByEdId := h.ed.nodup.mem_erase_iff
  refine ⟨h.listed.of_same putEd_sameList, h.ed.putEd hr (h.ed.nodup.erase r) ?_ (fun q hq => ?_) (fun hm => ?_),
    h.held.of_same putEd_sameMd⟩
  · simp [hmem]
  · simp [hmem, hq]
  · exact absurd rfl (hmem.mp hm).1

theorem nodeRemoveFromEd25519Map_same (h : EdOk s) (hr : r ∈ s.nodes) :
    SameList s (nodeRemoveFromEd25519Map s r) ∧ SameInfo s (nodeRemoveFromEd25519Map s r) := by
  rw [nodeRemoveFromEd25519Map_eq h hr]
  exact ⟨putEd_sameList, putEd_sameInfo⟩

/-- With the invariant, an addition gives the node its key, which no node of the table has, or does nothing. -/
theorem nodeAddToEd25519Map_cases (h : EdOk s) (r : NodeRef) : nodeAddToEd25519Map s r = s ∨
      ∃ key, nodeGetEd25519Id (s.node r) = some key ∧ r ∉ s.nodesByEdId ∧
        (∀ q ∈ s.nodesByEdId, (s.node q).ed25519Id ≠ key) ∧
        nodeAddToEd25519Map s r = putEd s r key (r :: s.nodesByEdId) := by
  rw [nodeAddToEd25519Map]
  split
  · exact .inl rfl
  next hz =>
  have hz : (s.node r).ed25519Id = zeroEd25519Id := not_not.mp hz
  have hne : ∀ q ∈ s.nodesByEdId, q ≠ r := by
    intro q hq he
    exact ((h.mem q).mp hq).2 (he ▸ hz)
  split
  · exact .inl rfl
  next key hkey =>
  simp only
  rcases hf : findByEdId (s.set r fun node => { node with ed25519Id := key }) key with _ | old
  · refine .inr ⟨key, hkey, fun hm => hne r hm rfl, fun q hq he => ?_, rfl⟩
    have hnot := List.find?_eq_none.mp hf q hq
    rw [set_node_of_ne (hne q hq)] at hnot
    exact hnot (decide_eq_true he)
  · -- another node has the key: this one is left without
    have hold : old ∈ s.nodesByEdId := List.mem_of_find?_eq_some hf
    have hsame : { s.node r with ed25519Id := zeroEd25519Id } = s.node r := by rw [← hz]
    refine .inl ?_
    simp only
    rw [if_neg (hne old hold), clearEd25519Id, NodelistT.set, NodelistT.set]
    simp only [Function.update_self, Function.update_idem]
    rw [hsame, Function.update_eq_self]

theorem nodeAddToEd25519Map_consistent (h : Consistent s) (hr : r ∈ s.nodes) :
    Consistent (nodeAddToEd25519Map s r) := by
  rcases nodeAddToEd25519Map_cases h.ed r with he | ⟨key, hkey, hout, hnew, he⟩
  · rw [he]
    exact h
  rw [he]
  refine ⟨h.listed.of_same putEd_sameList,
    h.ed.putEd hr (List.nodup_cons.mpr ⟨hout, h.ed.nodup⟩) ?_ (fun q hq => ?_) (fun _ q hq _ => hnew q hq),
    h.held.of_same putEd_sameMd⟩
  · simp [nodeGetEd25519Id_ne_zero hkey]
  · simp [hq]

theorem nodeAddToEd25519Map_same (h : EdOk s) (r : NodeRef) :
    SameList s (nodeAddToEd25519Map s r) ∧ SameInfo s (nodeAddToEd25519Map s r) := by
  rcases nodeAddToEd25519Map_cases h r with he | ⟨key, -, -, -, he⟩
  · rw [he]
    exact ⟨⟨rfl, rfl, rfl, fun _ => ⟨rfl, rfl⟩⟩, fun _ => ⟨rfl, rfl⟩⟩
  · rw [he]
    exact ⟨putEd_sameList, putEd_sameInfo⟩

/-! ## The counts -/

/-- One for the microdescriptor at the address. -/
def one (md : Option MicrodescT) (addr : Nat) : Nat := if md.map (·.addr) = some addr then 1 else 0

theorem releaseMd_toNat {held : Nat → UInt32} {md : Option MicrodescT} {addr : Nat}
    (h : one md addr ≤ (held addr).toNat) : (releaseMd held md addr).toNat + one md addr = (held addr).toNat := by
  rcases md with _ | md
  · simp [releaseMd, one]
  by_cases ha : md.addr = addr
  · subst ha
    have hone : one (some md) md.addr = 1 := by simp [one]
    rw [hone] at h ⊢
    rw [releaseMd, Function.update_self, UInt32.toNat_sub_of_le _ _ (UInt32.le_iff_toNat_le.mpr (by simpa using h))]
    simp
    omega
  · simp [releaseMd, one, ha, Function.update_of_ne (Ne.symm ha)]

theorem holdMd_toNat (held : Nat → UInt32) (md : Option MicrodescT) (addr : Nat)
    (h : (held addr).toNat + 1 < 2 ^ 32) : (holdMd held md addr).toNat = (held addr).toNat + one md addr := by
  rcases md with _ | md
  · simp [holdMd, one]
  by_cases ha : md.addr = addr
  · subst ha
    have hone : one (some md) md.addr = 1 := by simp [one]
    rw [hone, holdMd, Function.update_self, UInt32.toNat_add, UInt32.toNat_one, Nat.mod_eq_of_lt h]
  · simp [holdMd, one, ha, Function.update_of_ne (Ne.symm ha)]

/-- A node of the list is in the count of what it holds. -/
theorem HeldOk.one_le (h : HeldOk s) (hr : r ∈ s.nodes) (addr : Nat) :
    one (s.node r).md addr ≤ (s.heldByNodes addr).toNat := by
  rw [one]
  split
  · next hm =>
    rw [h addr]
    exact List.countP_pos_iff.mpr ⟨r, hr, decide_eq_true hm⟩
  · exact Nat.zero_le _

section

variable {s : NodelistT} {r : NodeRef} {md : Option MicrodescT}

theorem setMd_field {β : Type} (g : NodeT → β) (hg : ∀ node, g { node with md } = g node) (q : NodeRef) :
    g ((setMd s r md).node q) = g (s.node q) := set_field (f := fun node => { node with md }) g hg q

@[simp] theorem setMd_md : ((setMd s r md).node r).md = md := by simp [setMd]

theorem setMd_md_of_ne {q : NodeRef} (h : q ≠ r) : ((setMd s r md).node q).md = (s.node q).md := by
  rw [setMd]
  simp only
  rw [set_node_of_ne h]

theorem setMd_sameList : SameList s (setMd s r md) where
  next := rfl
  nodes := rfl
  nodesById := rfl
  node q := ⟨setMd_field (·.nodelistIdx) (fun _ => rfl) q, setMd_field (·.identity) (fun _ => rfl) q⟩

theorem setMd_sameEd : SameEd s (setMd s r md) where
  nodes := rfl
  nodesByEdId := rfl
  node := setMd_field (·.ed25519Id) fun _ => rfl

theorem setMd_sameInfo : SameInfo s (setMd s r md) :=
  fun q => ⟨setMd_field (·.rs) (fun _ => rfl) q, setMd_field (·.ri) (fun _ => rfl) q⟩

theorem setMd_consistent (h : Consistent s) (hr : r ∈ s.nodes) (md : Option MicrodescT) :
    Consistent (setMd s r md) := by
  refine ⟨h.listed.of_same setMd_sameList, h.ed.of_same setMd_sameEd, fun addr => ?_⟩
  have hchange : s.nodes.countP (holds (setMd s r md) addr) + one (s.node r).md addr =
      s.nodes.countP (holds s addr) + one md addr := by
    have hcount := countP_change h.listed.idx.nodup hr (p := holds s addr) (q := holds (setMd s r md) addr)
      fun q hq => by rw [holds, holds, setMd_md_of_ne hq]
    simpa only [holds, setMd_md, one, decide_eq_true_eq] using hcount
  have hheld := h.held addr
  have hle := h.held.one_le hr addr
  have hroom := h.listed.room
  have hcap : maxCapacity = 2147483647 := rfl
  have hcount := List.countP_le_length (p := holds s addr) (l := s.nodes)
  have hrel := releaseMd_toNat hle
  have hhold := holdMd_toNat (releaseMd s.heldByNodes (s.node r).md) md addr (by omega)
  show (holdMd (releaseMd s.heldByNodes (s.node r).md) md addr).toNat = s.nodes.countP (holds (setMd s r md) addr)
  omega

end

theorem takeMd_spec (h : Consistent s) (hr : r ∈ s.nodes) (md : MicrodescT) :
    Consistent (takeMd s r md) ∧ SameList s (takeMd s r md) ∧ SameInfo s (takeMd s r md) := by
  have h1 := nodeRemoveFromEd25519Map_consistent h hr
  obtain ⟨hl1, hi1⟩ := nodeRemoveFromEd25519Map_same h.ed hr
  have hr1 : r ∈ (nodeRemoveFromEd25519Map s r).nodes := hl1.nodes ▸ hr
  have h2 := setMd_consistent h1 hr1 (some md)
  obtain ⟨hl3, hi3⟩ := nodeAddToEd25519Map_same h2.ed r
  exact ⟨nodeAddToEd25519Map_consistent h2 hr1, (hl1.trans setMd_sameList).trans hl3,
    (hi1.trans setMd_sameInfo).trans hi3⟩

/-! ## A new node -/

/-- The state with a new node at the end of the list. -/
def created (s : NodelistT) (identity : BytesN DIGEST_LEN) : NodelistT :=
  { s with
    node := Function.update s.node s.next ⟨identity, s.nodes.length, none, none, none, zeroEd25519Id⟩
    next := s.next + 1
    nodes := s.nodes ++ [s.next]
    nodesById := s.next :: s.nodesById }

section

variable {s : NodelistT} {identity : BytesN DIGEST_LEN}

theorem created_node_self : (created s identity).node s.next =
    ⟨identity, s.nodes.length, none, none, none, zeroEd25519Id⟩ := Function.update_self ..

theorem created_node_of_ne {q : NodeRef} (h : q ≠ s.next) : (created s identity).node q = s.node q :=
  Function.update_of_ne h ..

theorem Listed.ne_next (h : Listed s) {q : NodeRef} (hq : q ∈ s.nodes) : q ≠ s.next := Nat.ne_of_lt (h.next q hq)

theorem created_listed (h : Listed s) (hroom : s.nodes.length + 1 ≤ maxCapacity)
    (hnew : nodeGetMutableById s identity = none) : Listed (created s identity) where
  room := by
    rw [created]
    simpa using hroom
  idx := by
    refine Positioned.append (h.idx.congr fun q hq => ?_) ?_
    · rw [created_node_of_ne (h.ne_next hq)]
    · rw [created_node_self]
  next q hq := by
    rcases List.mem_append.mp hq with hq | hq
    · exact Nat.lt_succ_of_lt (h.next q hq)
    · rw [List.mem_singleton.mp hq]
      exact Nat.lt_succ_self _
  byId := (h.byId.cons _).trans (List.perm_append_singleton _ _).symm
  identities := by
    have hfresh : ∀ q ∈ s.nodes, (s.node q).identity ≠ identity := by
      intro q hq he
      have hfound := (nodeGetMutableById_iff h).mpr ⟨hq, he⟩
      rw [hnew] at hfound
      cases hfound
    intro q hq q' hq' he
    rcases List.mem_append.mp hq with hq | hq <;> rcases List.mem_append.mp hq' with hq' | hq'
    · rw [created_node_of_ne (h.ne_next hq), created_node_of_ne (h.ne_next hq')] at he
      exact h.identities q hq q' hq' he
    · rw [List.mem_singleton.mp hq', created_node_self, created_node_of_ne (h.ne_next hq)] at he
      exact absurd he (hfresh q hq)
    · rw [List.mem_singleton.mp hq, created_node_self, created_node_of_ne (h.ne_next hq')] at he
      exact absurd he.symm (hfresh q' hq')
    · exact (List.mem_singleton.mp hq).trans (List.mem_singleton.mp hq').symm

theorem created_edOk (hl : Listed s) (h : EdOk s) : EdOk (created s identity) := by
  have hne : ∀ {q}, q ∈ s.nodesByEdId → q ≠ s.next := fun hq => hl.ne_next ((h.mem _).mp hq).1
  refine ⟨h.nodup, fun q => ?_, fun q hq q' hq' he => ?_⟩
  · have hmem : q ∈ (created s identity).nodes ↔ q ∈ s.nodes ∨ q = s.next := by simp [created]
    rw [hmem]
    by_cases hq : q = s.next
    · subst hq
      rw [created_node_self]
      simp only [ne_eq, not_true_eq_false, and_false, iff_false]
      exact fun hm => hne hm rfl
    · rw [created_node_of_ne hq]
      simp only [hq, or_false]
      exact h.mem q
  · rw [created_node_of_ne (hne hq), created_node_of_ne (hne hq')] at he
    exact h.ids q hq q' hq' he

theorem created_heldOk (hl : Listed s) (h : HeldOk s) : HeldOk (created s identity) := by
  intro addr
  have hold : s.nodes.countP (holds (created s identity) addr) = s.nodes.countP (holds s addr) := by
    refine List.countP_congr fun q hq => ?_
    rw [holds, holds, created_node_of_ne (hl.ne_next hq)]
  have hself : holds (created s identity) addr s.next = false := by simp [holds, created_node_self]
  show (s.heldByNodes addr).toNat = (s.nodes ++ [s.next]).countP (holds (created s identity) addr)
  rw [List.countP_append, hold, List.countP_singleton, hself, h addr]
  rfl

end

/-- The node with an identity, and the other ones as they were; or the list was full. -/
theorem nodeGetOrCreate_spec (h : Consistent s) (identity : BytesN DIGEST_LEN) :
    (∃ t r, nodeGetOrCreate s identity = some (t, r) ∧ Consistent t ∧ r ∈ t.nodes ∧
      t.nodes.length ≤ s.nodes.length + 1 ∧ ∀ q ∈ t.nodes, q ≠ r → q ∈ s.nodes ∧ t.node q = s.node q) ∨
    (nodeGetOrCreate s identity = none ∧ maxCapacity < s.nodes.length + 1) := by
  rw [nodeGetOrCreate]
  rcases hf : nodeGetMutableById s identity with _ | r
  · simp only
    by_cases hroom : maxCapacity < s.nodes.length + 1
    · rw [if_pos hroom]
      exact .inr ⟨rfl, hroom⟩
    rw [if_neg hroom]
    have hroom : s.nodes.length + 1 ≤ maxCapacity := Nat.le_of_not_lt hroom
    refine .inl ⟨created s identity, s.next, rfl, ⟨created_listed h.listed hroom hf, created_edOk h.listed h.ed,
      created_heldOk h.listed h.held⟩, by simp [created], by simp [created], fun q hq hne => ?_⟩
    rcases List.mem_append.mp hq with hq | hq
    · exact ⟨hq, created_node_of_ne hne⟩
    · exact absurd (List.mem_singleton.mp hq) hne
  · have hr := ((nodeGetMutableById_iff h.listed).mp hf).1
    exact .inl ⟨s, r, rfl, h, hr, Nat.le_succ _, fun q hq _ => ⟨hq, rfl⟩⟩

/-! ## A node that goes -/

/-- The state without the node at position `i` and its hold on its microdescriptor. The last node of the list takes
    its place. -/
def gone (s : NodelistT) (r : NodeRef) (i : Nat) : NodelistT where
  node q := { s.node q with
    nodelistIdx := if q = r then -1 else if (swapRemove s.nodes i)[i]? = some q then i else (s.node q).nodelistIdx }
  next := s.next
  nodes := swapRemove s.nodes i
  nodesById := s.nodesById.erase r
  nodesByEdId := s.nodesByEdId
  heldByNodes := releaseMd s.heldByNodes (s.node r).md

section

variable {s : NodelistT} {r : NodeRef} {i : Nat}

/-- A node without a key can go. -/
theorem gone_consistent (h : Consistent s) (hi : s.nodes[i]? = some r) (hz : (s.node r).ed25519Id = zeroEd25519Id) :
    Consistent (gone s r i) := by
  have hperm := swapRemove_perm hi
  have hnd : (r :: swapRemove s.nodes i).Nodup := hperm.nodup_iff.mpr h.listed.idx.nodup
  have hne : ∀ {q}, q ∈ swapRemove s.nodes i → q ≠ r := by
    intro q hq he
    exact (List.nodup_cons.mp hnd).1 (he ▸ hq)
  have hmem : ∀ q, q ∈ s.nodes ↔ q = r ∨ q ∈ swapRemove s.nodes i := fun q => hperm.mem_iff.symm.trans List.mem_cons
  have hr : r ∈ s.nodes := List.mem_of_getElem? hi
  refine ⟨⟨?_, ?_, ?_, ?_, ?_⟩, ⟨h.ed.nodup, ?_, h.ed.ids⟩, ?_⟩
  · have hlen := hperm.length_eq
    have hroom := h.listed.room
    rw [List.length_cons] at hlen
    show (swapRemove s.nodes i).length ≤ maxCapacity
    omega
  · refine h.listed.idx.swapRemove hi (fun q hq => ?_) fun q hq hm => ?_
    · simp only [gone]
      rw [if_neg (hne (List.mem_of_getElem? hq)), if_pos hq]
    · simp only [gone]
      rw [if_neg hq, if_neg hm]
  · exact fun q hq => h.listed.next q ((hmem q).mpr (.inr hq))
  · have hcons : (r :: s.nodesById.erase r).Perm s.nodesById :=
      (List.perm_cons_erase (h.listed.byId.mem_iff.mpr hr)).symm
    exact (hcons.trans (h.listed.byId.trans hperm.symm)).cons_inv
  · exact fun q hq q' hq' he => h.listed.identities q ((hmem q).mpr (.inr hq)) q' ((hmem q').mpr (.inr hq')) he
  · intro q
    show q ∈ s.nodesByEdId ↔ q ∈ swapRemove s.nodes i ∧ (s.node q).ed25519Id ≠ zeroEd25519Id
    rw [h.ed.mem q, hmem q]
    refine and_congr_left fun hq => or_iff_right fun he => hq (he ▸ hz)
  · intro addr
    have hcount := hperm.countP_eq (holds s addr)
    have hhold : holds s addr r = true ↔ (s.node r).md.map (·.addr) = some addr := decide_eq_true_iff
    have hrel := releaseMd_toNat (h.held.one_le hr addr)
    rw [List.countP_cons] at hcount
    simp only [hhold] at hcount
    rw [h.held addr, ← hcount] at hrel
    show (releaseMd s.heldByNodes (s.node r).md addr).toNat = (swapRemove s.nodes i).countP (holds s addr)
    rw [one] at hrel
    omega

/-- `nodelist_drop_node` and `node_free` on a node that has left `nodes_by_id`: no assertion fails. -/
theorem dropFromList_nodeFree (h : Consistent s) (hi : s.nodes[i]? = some r) :
    (dropFromList { s with nodesById := s.nodesById.erase r } r).bind (nodeFree · r) =
      some (gone (nodeRemoveFromEd25519Map s r) r i) := by
  have hr : r ∈ s.nodes := List.mem_of_getElem? hi
  have hremove : nodeRemoveFromEd25519Map { s with nodesById := s.nodesById.erase r } r =
      { nodeRemoveFromEd25519Map s r with nodesById := s.nodesById.erase r } := by
    have hed : EdOk { s with nodesById := s.nodesById.erase r } := h.ed.of_same ⟨rfl, rfl, fun _ => rfl⟩
    rw [nodeRemoveFromEd25519Map_eq hed hr, nodeRemoveFromEd25519Map_eq h.ed hr]
    rfl
  have hlist := (nodeRemoveFromEd25519Map_same h.ed hr).1
  rw [dropFromList, hremove]
  generalize nodeRemoveFromEd25519Map s r = u at hlist
  have hidx : (u.node r).nodelistIdx = i := (hlist.node r).1.trans (h.listed.idx i r hi)
  have hui : u.nodes[i]? = some r := hlist.nodes ▸ hi
  simp only
  rw [hidx, if_neg (by omega), Int.toNat_natCast, if_neg (not_not.mpr hui), Option.bind_some, nodeFree, set_node_self,
    if_neg (by simp)]
  refine congrArg some ?_
  rw [gone, hlist.nodesById]
  rcases hm : (swapRemove u.nodes i)[i]? with _ | tmp
  · simp only [NodelistT.set]
    congr 1
    funext q
    by_cases hq : q = r
    · subst hq
      simp
    · simp [hq]
  · have hnd := (swapRemove_perm hui).nodup_iff.mpr (hlist.nodes ▸ h.listed.idx.nodup)
    have hne : r ≠ tmp := fun he => (List.nodup_cons.mp hnd).1 (he ▸ List.mem_of_getElem? hm)
    simp only [NodelistT.set]
    rw [Function.update_of_ne hne]
    congr 1
    funext q
    by_cases hq : q = r
    · subst hq
      simp
    by_cases hqt : q = tmp
    · subst hqt
      simp [hq]
    · simp [hq, hqt, Ne.symm hqt]

end

/-- A node of the list is dropped and freed, whether or not it has been taken out of `nodes_by_id` before. -/
theorem nodelistDropNode_nodeFree (h : Consistent s) (hr : r ∈ s.nodes) :
    ∃ t, (nodelistDropNode s r true).bind (nodeFree · r) = some t ∧
      (nodelistDropNode { s with nodesById := s.nodesById.erase r } r false).bind (nodeFree · r) = some t ∧
      Consistent t ∧ (r :: t.nodes).Perm s.nodes ∧ SameInfo s t ∧ ∃ i, t = gone (nodeRemoveFromEd25519Map s r) r i := by
  obtain ⟨i, hi⟩ := List.mem_iff_getElem?.mp hr
  have hfound : removeById s r = some { s with nodesById := s.nodesById.erase r } := by
    rw [removeById, if_pos ((nodeGetMutableById_iff h.listed).mpr ⟨hr, rfl⟩)]
  have hdrop := dropFromList_nodeFree h hi
  obtain ⟨hlist, hinfo⟩ := nodeRemoveFromEd25519Map_same h.ed hr
  have hui : (nodeRemoveFromEd25519Map s r).nodes[i]? = some r := hlist.nodes ▸ hi
  have hz : ((nodeRemoveFromEd25519Map s r).node r).ed25519Id = zeroEd25519Id := by
    rw [nodeRemoveFromEd25519Map_eq h.ed hr, putEd_key]
  refine ⟨gone (nodeRemoveFromEd25519Map s r) r i, ?_, ?_, ?_, ?_, hinfo, i, rfl⟩
  · rw [nodelistDropNode, if_pos rfl, hfound, Option.bind_some, hdrop]
  · rw [nodelistDropNode, if_neg Bool.false_ne_true, hdrop]
  · exact gone_consistent (nodeRemoveFromEd25519Map_consistent h hr) hui hz
  · exact hlist.nodes ▸ swapRemove_perm hui

end Badnet.Nodelist
