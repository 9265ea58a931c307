/-
  Badnet.Nodelist.Nodelist — the nodelist (`feature/nodelist/nodelist.c`): a `node_t` for every relay of the routerlist
  or of the consensus, in a list and in two hash tables.

  Nodes, routerinfos and microdescriptors are objects in memory: they are compared by their address. A hash table is the
  list of the nodes in it. A search looks at the keys that the nodes have now, and a walk goes through the table in some
  order. `none` is an assertion that fails. What a node records of a relay's flags, country, address and place among the
  hidden service directories is left out.
-/

import Mathlib.Logic.Function.Basic
import Badnet.Dirparse.Sri
import Badnet.Lib.Intrusive
import Badnet.Lib.Run

namespace Badnet.Nodelist

open Lib Encoding Dirparse

/-! ## Objects -/

abbrev Ed25519Id := BytesN DIGEST256_LEN

/-- What `memset` leaves of a key. -/
def zeroEd25519Id : Ed25519Id := ⟨List.replicate 32 0, rfl⟩

/-- A `microdesc_t`, with its address. -/
structure MicrodescT where
  addr : Nat
  digest : BytesN DIGEST256_LEN
  ed25519IdentityPkey : Option Ed25519Id
  deriving DecidableEq

/-- A `routerinfo_t`, with its address. -/
structure RouterinfoT where
  addr : Nat
  identityDigest : BytesN DIGEST_LEN
  /-- `cache_info.signing_key_cert->signing_key` -/
  signingKey : Option Ed25519Id
  deriving DecidableEq

/-- A `routerstatus_t`. Its microdescriptor is allocated where the entry is read. -/
structure RouterstatusT where
  identityDigest : BytesN DIGEST_LEN
  descriptorDigest : BytesN DIGEST256_LEN
  md : MicrodescT
  deriving DecidableEq

/-- A `networkstatus_t` that was accepted: entries in any order, with repetitions. -/
structure NetworkstatusT where
  flavor : Flavor
  routerstatusList : List RouterstatusT
  deriving DecidableEq

structure NodeT where
  identity : BytesN DIGEST_LEN
  nodelistIdx : Int
  rs : Option RouterstatusT
  ri : Option RouterinfoT
  md : Option MicrodescT
  ed25519Id : Ed25519Id
  deriving DecidableEq

/-- The address of a node. -/
abbrev NodeRef := Nat

structure NodelistT where
  /-- the nodes in memory -/
  node : NodeRef → NodeT
  /-- where `tor_malloc_zero` puts the next node -/
  next : NodeRef
  nodes : List NodeRef
  nodesById : List NodeRef
  nodesByEdId : List NodeRef
  /-- `held_by_nodes` of the microdescriptor at an address -/
  heldByNodes : Nat → UInt32

namespace NodelistT

/-- Before the first operation; `init_nodelist` makes an empty one of NULL. -/
def empty : NodelistT where
  node _ := ⟨⟨List.replicate 20 0, rfl⟩, 0, none, none, none, zeroEd25519Id⟩
  next := 0
  nodes := []
  nodesById := []
  nodesByEdId := []
  heldByNodes _ := 0

/-- An assignment to fields of one node. -/
def set (s : NodelistT) (r : NodeRef) (f : NodeT → NodeT) : NodelistT :=
  { s with node := Function.update s.node r (f (s.node r)) }

end NodelistT

/-! ## The tables -/

variable (s : NodelistT) (identity : BytesN DIGEST_LEN)

def nodeGetMutableById : Option NodeRef :=
  s.nodesById.find? fun r => (s.node r).identity = identity

/-- `HT_FIND` in `nodes_by_ed_id`. -/
def findByEdId (key : Ed25519Id) : Option NodeRef :=
  s.nodesByEdId.find? fun r => (s.node r).ed25519Id = key

def nodeGetMutableByEd25519Id (key : Ed25519Id) : Option NodeRef :=
  if key = zeroEd25519Id then none else findByEdId s key

/-- The most members of a smartlist. -/
def maxCapacity : Nat := 2147483647

/-- A new node goes to the end of the list, which asserts that it has room. -/
def nodeGetOrCreate : Option (NodelistT × NodeRef) :=
  match nodeGetMutableById s identity with
  | some r => some (s, r)
  | none =>
    if maxCapacity < s.nodes.length + 1 then none
    else
      let node : NodeT := ⟨identity, s.nodes.length, none, none, none, zeroEd25519Id⟩
      some ({ s with
        node := Function.update s.node s.next node
        next := s.next + 1
        nodes := s.nodes ++ [s.next]
        nodesById := s.next :: s.nodesById }, s.next)

/-- The key of the routerinfo or of the microdescriptor, unless they differ. -/
def nodeGetEd25519Id (node : NodeT) : Option Ed25519Id :=
  let riPk := node.ri.bind fun ri => ri.signingKey.filter (· ≠ zeroEd25519Id)
  let mdPk := node.md.bind fun md => md.ed25519IdentityPkey.filter (· ≠ zeroEd25519Id)
  match riPk, mdPk with
  | some riPk, some mdPk => if riPk = mdPk then some riPk else none
  | some riPk, none => some riPk
  | none, mdPk => mdPk

variable (r : NodeRef)

def clearEd25519Id : NodelistT :=
  s.set r fun node => { node with ed25519Id := zeroEd25519Id }

def nodeRemoveFromEd25519Map : NodelistT :=
  if (s.node r).ed25519Id = zeroEd25519Id then s
  -- a node that is not the one found is left in the table
  else if findByEdId s (s.node r).ed25519Id ≠ some r then clearEd25519Id s r
  else clearEd25519Id { s with nodesByEdId := s.nodesByEdId.erase r } r

def nodeAddToEd25519Map : NodelistT :=
  if (s.node r).ed25519Id ≠ zeroEd25519Id then s
  else match nodeGetEd25519Id (s.node r) with
    | none => s
    | some key =>
      let s := s.set r fun node => { node with ed25519Id := key }
      match findByEdId s key with
      -- distinct nodes that share a key: the first one stays
      | some old => if old = r then s else clearEd25519Id s r
      | none => { s with nodesByEdId := r :: s.nodesByEdId }

/-! ## Microdescriptors -/

/-- `if (md) md->held_by_nodes--` -/
def releaseMd (held : Nat → UInt32) : Option MicrodescT → Nat → UInt32
  | none => held
  | some md => Function.update held md.addr (held md.addr - 1)

/-- `if (md) md->held_by_nodes++` -/
def holdMd (held : Nat → UInt32) : Option MicrodescT → Nat → UInt32
  | none => held
  | some md => Function.update held md.addr (held md.addr + 1)

/-- Another microdescriptor, or none, in the place of the one that the node has. -/
def setMd (md : Option MicrodescT) : NodelistT :=
  { s.set r fun node => { node with md } with heldByNodes := holdMd (releaseMd s.heldByNodes (s.node r).md) md }

/-- How `nodelist_add_microdesc` and `nodelist_set_consensus` give a node a microdescriptor, which may change its
    ed25519 identity. -/
def takeMd (md : MicrodescT) : NodelistT :=
  nodeAddToEd25519Map (setMd (nodeRemoveFromEd25519Map s r) r (some md)) r

/-- `digestmap_set` of all entries, then `digestmap_get`: the last entry with the digest, of which the map reads
    `DIGEST_LEN` bytes. -/
def routerGetConsensusStatusByDescriptorDigest (ns : NetworkstatusT) (digest : BytesN DIGEST256_LEN) :
    Option RouterstatusT :=
  ns.routerstatusList.reverse.find? fun rs => rs.descriptorDigest.1.take DIGEST_LEN = digest.1.take DIGEST_LEN

/-- `ns` is the latest consensus with microdescriptors. -/
def nodelistAddMicrodesc (ns : Option NetworkstatusT) (md : MicrodescT) : NodelistT × Option NodeRef :=
  match ns.bind fun ns => routerGetConsensusStatusByDescriptorDigest ns md.digest with
  | none => (s, none)
  | some rs =>
    match nodeGetMutableById s rs.identityDigest with
    | none => (s, none)
    | some r => (takeMd s r md, some r)

def nodelistRemoveMicrodesc (identity : BytesN DIGEST_LEN) (md : MicrodescT) : NodelistT :=
  match nodeGetMutableById s identity with
  | none => s
  | some r =>
    if (s.node r).md.map (·.addr) = some md.addr then
      let s := setMd s r none
      if nodeGetEd25519Id (s.node r) = none then nodeRemoveFromEd25519Map s r else s
    else s

/-! ## Routerinfos -/

def setRi (ri : Option RouterinfoT) : NodelistT := s.set r fun node => { node with ri }

/-- The node, and the routerinfo it had. -/
def nodelistSetRouterinfo (ri : RouterinfoT) : Option (NodelistT × NodeRef × Option RouterinfoT) :=
  (nodeGetOrCreate s ri.identityDigest).map fun p =>
    let s := nodeRemoveFromEd25519Map p.1 p.2
    (nodeAddToEd25519Map (setRi s p.2 (some ri)) p.2, p.2, (s.node p.2).ri)

def nodeIsUsable (node : NodeT) : Bool := node.rs.isSome || node.ri.isSome

/-- `HT_REMOVE` from `nodes_by_id`, which asserts that it found the node. -/
def removeById : Option NodelistT :=
  if nodeGetMutableById s (s.node r).identity = some r then some { s with nodesById := s.nodesById.erase r } else none

/-- `nodelist_drop_node` after the removal from `nodes_by_id`. -/
def dropFromList : Option NodelistT :=
  let s := nodeRemoveFromEd25519Map s r
  let idx := (s.node r).nodelistIdx
  if idx < 0 then none
  else if s.nodes[idx.toNat]? ≠ some r then none
  else
    let nodes := swapRemove s.nodes idx.toNat
    let s := { s with nodes }
    let s := match nodes[idx.toNat]? with
      | none => s
      | some tmp => s.set tmp fun node => { node with nodelistIdx := idx }
    some (s.set r fun node => { node with nodelistIdx := -1 })

def nodelistDropNode (removeFromHt : Bool) : Option NodelistT :=
  if removeFromHt then (removeById s r).bind (dropFromList · r) else dropFromList s r

def nodeFree : Option NodelistT :=
  if (s.node r).nodelistIdx ≠ -1 then none
  else some { s with heldByNodes := releaseMd s.heldByNodes (s.node r).md }

def nodelistRemoveRouterinfo (ri : RouterinfoT) : Option NodelistT :=
  match nodeGetMutableById s ri.identityDigest with
  | none => some s
  | some r =>
    if (s.node r).ri.map (·.addr) = some ri.addr then
      let s := setRi s r none
      if nodeIsUsable (s.node r) then some s else (nodelistDropNode s r true).bind (nodeFree · r)
    else some s

/-! ## The consensus -/

/-- An order in which a walk goes through a hash table. -/
abbrev HtOrder := { order : List NodeRef → List NodeRef // ∀ l, (order l).Perm l }

/-- One node of the walk. `HT_NEXT_RMV` takes it out of the table before it is dropped. -/
def purgeNode : Option NodelistT :=
  -- an md is only useful if there is an rs
  let s := if (s.node r).md.isSome ∧ (s.node r).rs = none then setMd s r none else s
  if nodeIsUsable (s.node r) then some s
  else (nodelistDropNode { s with nodesById := s.nodesById.erase r } r false).bind (nodeFree · r)

def nodelistPurge (order : HtOrder) (s : NodelistT) : Option NodelistT := (order.1 s.nodesById).foldlM purgeNode s

def setRs (rs : Option RouterstatusT) : NodelistT := s.set r fun node => { node with rs }

/-- One entry of the consensus. -/
def useRouterstatus (flavor : Flavor) (s : NodelistT) (rs : RouterstatusT) : Option NodelistT :=
  (nodeGetOrCreate s rs.identityDigest).map fun p =>
    let s := setRs p.1 p.2 (some rs)
    if flavor = .MICRODESC then takeMd s p.2 rs.md else s

/-- `authdir`: whether this is a directory authority, which does not look at the nodes once more. -/
def nodelistSetConsensus (order : HtOrder) (authdir : Bool) (s : NodelistT) (ns : NetworkstatusT) : Option NodelistT := do
  let s := s.nodes.foldl (fun s r => setRs s r none) s
  let s ← ns.routerstatusList.foldlM (useRouterstatus ns.flavor) s
  let s ← nodelistPurge order s
  if !authdir ∧ ¬ s.nodes.all (fun r => (s.node r).rs.isSome || (s.node r).ri.isSome) then none else some s

/-! ## The operations -/

inductive Op where
  | setConsensus (order : HtOrder) (authdir : Bool) (ns : NetworkstatusT)
  | setRouterinfo (ri : RouterinfoT)
  | removeRouterinfo (ri : RouterinfoT)
  | addMicrodesc (ns : Option NetworkstatusT) (md : MicrodescT)
  | removeMicrodesc (identity : BytesN DIGEST_LEN) (md : MicrodescT)
  | purge (order : HtOrder)

def step : Op → Option NodelistT
  | .setConsensus order authdir ns => nodelistSetConsensus order authdir s ns
  | .setRouterinfo ri => (nodelistSetRouterinfo s ri).map (·.1)
  | .removeRouterinfo ri => nodelistRemoveRouterinfo s ri
  | .addMicrodesc ns md => some (nodelistAddMicrodesc s ns md).1
  | .removeMicrodesc identity md => some (nodelistRemoveMicrodesc s identity md)
  | .purge order => nodelistPurge order s

end Badnet.Nodelist
