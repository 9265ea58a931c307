/-
  Badnet.Nodelist.RoutersetListing — the nodes of a set (`routerset_get_all_nodes` of `feature/nodelist/routerset.c`,
  with the lookups of `feature/nodelist/nodelist.c`).

  A set of nicknames and fingerprints is listed by looking each entry up, any other set by asking every node. The lookup
  knows one node for an entry: the first one with the nickname, and none for `Unnamed` or a fingerprint with `=`.
  `listing_iff` says when the list has each member once.
-/

import Mathlib.Data.List.Count
import Badnet.Nodelist.Routerset

namespace Badnet.Nodelist.Routersets

open Lib Encoding Dirparse Net Policies Container

/-! ## Lookups -/

/-- The nodes in the order of the list, which the table by identity shares. -/
structure NodelistT where
  nodes : List Node
  distinct : (nodes.map Node.identity).Nodup

section
variable (nl : NodelistT)

def nodeGetById (identityDigest : Bytes) : Option Node := nl.nodes.find? fun node => node.identity.1 = identityDigest

def nodeGetByHexId (hexId : Text) : Option Node :=
  match hexDigestNicknameDecode hexId with
  | none => none
  | some (digest, nnChar) =>
    match nodeGetById nl digest with
    | none => none
    | some node => if nnChar = some '=' then none else some node

/-- The nickname of a node is this one. -/
def bears (nickname : Text) (node : Node) : Bool := (nodeGetNickname node).any (sameCase · nickname)

def nodeGetByNickname (nickname : Text) : Option Node :=
  match nodeGetByHexId nl nickname with
  | some node => some node
  | none =>
    if sameCase nickname unnamedRouterNickname then none
    else (nl.nodes.filter (bears nickname)).head?

end

/-! ## Listing -/

section
variable (g : Geoip) (nl : NodelistT)

/-- The node is not excluded, and it is running where that is asked for. -/
def eligible (excludeset : Option Routerset) (runningOnly : Bool) (node : Node) : Bool :=
  (!runningOnly || node.isRunning) && routersetContainsNode g excludeset node == 0

/-- What is added to `out`. -/
def routersetGetAllNodes (routerset : Option Routerset) (excludeset : Option Routerset) (runningOnly : Bool) : List Node :=
  match routerset with
  | none => []
  | some set =>
    if routersetIsList set then (set.list.filterMap (nodeGetByNickname nl)).filter (eligible g excludeset runningOnly)
    else nl.nodes.filter fun node =>
      routersetContainsNode g (some set) node != 0 && eligible g excludeset runningOnly node

/-- The nodes listed are the members that are not excluded and run as asked, each once. -/
structure ListsMembers (set : Routerset) (excludeset : Option Routerset) (runningOnly : Bool) : Prop where
  once : (routersetGetAllNodes g nl (some set) excludeset runningOnly).Nodup
  members : ∀ node, node ∈ routersetGetAllNodes g nl (some set) excludeset runningOnly ↔
    node ∈ nl.nodes ∧ routersetContainsNode g (some set) node ≠ 0 ∧ eligible g excludeset runningOnly node = true

/-- The entry stands for the node: a fingerprint of it without `=`, or a nickname other than `Unnamed` that the node
is the first one to bear. -/
def StandsFor (nick : Text) (node : Node) : Prop :=
  match entryOf nick with
  | .digest d => d = node.identity.1 ∧ (skipDollar nick)[HEX_DIGEST_LEN]? ≠ some '='
  | .name => sameCase nick unnamedRouterNickname = false ∧ nl.nodes.find? (bears nick) = some node
  | _ => False

instance (nick : Text) (node : Node) : Decidable (StandsFor nl nick node) := by
  unfold StandsFor
  exact Entry.casesOn (entryOf nick) (fun _ => instDecidableAnd) instDecidableAnd (fun _ => instDecidableFalse)
    (fun _ => instDecidableFalse) instDecidableFalse instDecidableFalse

end

/-! ## What a lookup finds -/

variable {nick : Text}

theorem entryOf_name (h : entryOf nick = .name) : isLegalNickname nick = true := by
  unfold entryOf at h
  split at h
  · cases h
  · split at h
    next hlegal => exact hlegal
    next =>
      split at h
      · cases h
      · split at h
        · split at h <;> cases h
        · cases h

theorem entryOf_digest {d : Bytes} (h : entryOf nick = .digest d) :
    isLegalHexdigest nick = true ∧ base16Decode DIGEST_LEN ((skipDollar nick).take HEX_DIGEST_LEN) = some d := by
  unfold entryOf at h
  split at h
  next hlegal =>
    cases h
    exact ⟨hlegal, (Option.some_get _).symm⟩
  next =>
    split at h
    · cases h
    · split at h
      · cases h
      · split at h
        · split at h <;> cases h
        · cases h

theorem skipDollar_length (s : Text) : (skipDollar s).length ≤ s.length := by
  unfold skipDollar
  split
  · exact Nat.le_succ _
  · exact Nat.le_refl _

theorem decode_of_digest {d : Bytes} (h : entryOf nick = .digest d) :
    hexDigestNicknameDecode nick = some (d, (skipDollar nick)[HEX_DIGEST_LEN]?) := by
  obtain ⟨hlegal, hdecode⟩ := entryOf_digest h
  simp only [isLegalHexdigest, Bool.and_eq_true, decide_eq_true_eq] at hlegal
  obtain ⟨hlong, hlen, -⟩ := hlegal
  unfold hexDigestNicknameDecode
  dsimp only
  rw [if_neg (Nat.not_lt.mpr hlen)]
  by_cases hgt : (skipDollar nick).length > HEX_DIGEST_LEN
  · rw [if_pos hgt, Bool.and_eq_true] at hlong
    have hnick := (nickname_length hlong.2).2
    rw [List.length_drop] at hnick
    rw [if_pos ⟨hgt, hlong.1, by unfold MAX_NICKNAME_LEN; omega⟩, hdecode]
    rfl
  · have heq : (skipDollar nick).length = HEX_DIGEST_LEN := Nat.le_antisymm (Nat.not_lt.mp hgt) hlen
    rw [if_neg (fun hc => hgt hc.1), if_pos heq, hdecode, List.getElem?_eq_none (Nat.le_of_eq heq)]
    rfl

theorem decode_of_name (h : entryOf nick = .name) : hexDigestNicknameDecode nick = none := by
  have hlen := (nickname_length (entryOf_name h)).2
  have hskip := skipDollar_length nick
  unfold hexDigestNicknameDecode
  dsimp only
  rw [if_pos (by unfold HEX_DIGEST_LEN; omega)]

theorem sameCase_length {a b : Text} (h : sameCase a b = true) : a.length = b.length := by
  have hlower : torStrlower a = torStrlower b := of_decide_eq_true h
  have := congrArg List.length hlower
  simpa [torStrlower] using this

/-- The nickname of a node is a legal one, so no fingerprint is a nickname. -/
theorem bears_length {node : Node} (h : bears nick node = true) : nick.length ≤ 19 := by
  obtain ⟨name, hname, hsame⟩ := (Option.any_eq_true _ _).mp h
  have hlegal : isLegalNickname name = true := by
    unfold nodeGetNickname at hname
    cases hrs : node.rs with
    | some rs =>
      simp only [hrs] at hname
      exact Option.some.inj hname ▸ rs.legal
    | none =>
      cases hri : node.ri with
      | some ri =>
        simp only [hrs, hri] at hname
        exact Option.some.inj hname ▸ ri.legal
      | none =>
        simp only [hrs, hri] at hname
        cases hname
  exact sameCase_length hsame ▸ (nickname_length hlegal).2

section
variable {nl : NodelistT} {node : Node} {nick : Text}

theorem nodeGetById_iff {d : Bytes} : nodeGetById nl d = some node ↔ node ∈ nl.nodes ∧ node.identity.1 = d := by
  refine find?_key_iff fun a ha b hb hab => ?_
  exact List.inj_on_of_nodup_map nl.distinct ha hb (Subtype.ext hab)

theorem nodeGetByHexId_name (h : entryOf nick = .name) : nodeGetByHexId nl nick = none := by
  rw [nodeGetByHexId, decode_of_name h]

theorem nodeGetByHexId_digest {d : Bytes} (h : entryOf nick = .digest d) : nodeGetByHexId nl nick = some node ↔
      node ∈ nl.nodes ∧ d = node.identity.1 ∧ (skipDollar nick)[HEX_DIGEST_LEN]? ≠ some '=' := by
  rw [nodeGetByHexId, decode_of_digest h]
  dsimp only
  cases hid : nodeGetById nl d with
  | none =>
    refine iff_of_false nofun fun hc => ?_
    rw [nodeGetById_iff.mpr ⟨hc.1, hc.2.1.symm⟩] at hid
    cases hid
  | some m =>
    obtain ⟨hm, hd⟩ := nodeGetById_iff.mp hid
    dsimp only
    by_cases hq : (skipDollar nick)[HEX_DIGEST_LEN]? = some '='
    · rw [if_pos hq]
      exact iff_of_false nofun fun hc => hc.2.2 hq
    · rw [if_neg hq]
      constructor
      · intro hc
        obtain rfl := Option.some.inj hc
        exact ⟨hm, hd.symm, hq⟩
      · rintro ⟨hn, hdn, -⟩
        have hsame := nodeGetById_iff.mpr ⟨hn, hdn.symm⟩
        rw [hid] at hsame
        exact hsame

/-- The lookup of an entry finds the node that it stands for. -/
theorem nodeGetByNickname_iff (h : entryOf nick = .name ∨ ∃ d, entryOf nick = .digest d) :
    nodeGetByNickname nl nick = some node ↔ node ∈ nl.nodes ∧ StandsFor nl nick node := by
  unfold nodeGetByNickname StandsFor
  rcases h with h | ⟨d, h⟩ <;> rw [h] <;> dsimp only
  · rw [nodeGetByHexId_name h]
    dsimp only
    rw [List.head?_filter]
    by_cases hunnamed : sameCase nick unnamedRouterNickname = true
    · rw [if_pos hunnamed]
      exact iff_of_false nofun fun hc => (by rw [hunnamed] at hc; cases hc.2.1)
    · rw [if_neg hunnamed]
      exact ⟨fun hc => ⟨List.mem_of_find?_eq_some hc, Bool.eq_false_iff.mpr hunnamed, hc⟩, fun hc => hc.2.2⟩
  · rw [← nodeGetByHexId_digest h]
    cases hhex : nodeGetByHexId nl nick with
    | some m => exact Iff.rfl
    | none =>
      have hlen : 40 ≤ nick.length := by
        have hlegal := (entryOf_digest h).1
        simp only [isLegalHexdigest, Bool.and_eq_true, decide_eq_true_eq] at hlegal
        exact Nat.le_trans hlegal.2.1 (skipDollar_length nick)
      have hnobody : nl.nodes.filter (bears nick) = [] := by
        rw [List.filter_eq_nil_iff]
        intro m _ hm
        have := bears_length hm
        omega
      dsimp only
      rw [hnobody]
      refine iff_of_false (fun hc => ?_) nofun
      split at hc <;> cases hc

/-- An entry of the set stands for members only. -/
theorem containsNode_of_standsFor {g : Geoip} {list : List Text} (hmem : nick ∈ list)
    (h : StandsFor nl nick node) : routersetContainsNode g (some (setOf g list)) node ≠ 0 := by
  unfold StandsFor at h
  split at h
  next d he =>
    refine containsNode_of_identity (List.mem_filterMap.mpr ⟨nick, hmem, ?_⟩)
    rw [he, ← h.1]
    rfl
  next he =>
    have hbears : bears nick node = true := List.find?_some h.2
    obtain ⟨name, hname, hsame⟩ := (Option.any_eq_true _ _).mp hbears
    refine containsNode_of_name hname (List.mem_filterMap.mpr ⟨nick, hmem, ?_⟩)
    rw [nameKey, he, ← (of_decide_eq_true hsame : torStrlower name = torStrlower nick)]
  next => cases h

end

/-! ## The list -/

section
variable {g : Geoip} {nl : NodelistT} {excludeset : Option Routerset} {runningOnly : Bool}

/-- Without countries and policies, what is kept are nicknames and fingerprints. -/
theorem entries_of_isList {list : List Text} (hkept : ∀ nick ∈ list, Kept nick) (h : routersetIsList (setOf g list) = true) :
    ∀ nick ∈ list, entryOf nick = .name ∨ ∃ d, entryOf nick = .digest d := by
  intro nick hnick
  simp only [routersetIsList, setOf, Bool.and_eq_true, List.isEmpty_iff] at h
  have hcountry := List.filterMap_eq_nil_iff.mp h.1 nick hnick
  have hpolicy : list.filterMap (fun nick => (entryOf nick).policy?) = [] := by
    by_contra hne
    obtain ⟨p, ps, hps⟩ := List.exists_cons_of_ne_nil hne
    have hexpanded := h.2
    rw [hps, policyExpandUnspec, List.flatMap_cons, List.append_eq_nil_iff] at hexpanded
    have hfirst := hexpanded.1
    split at hfirst <;> cases hfirst
  have hpolicy := List.filterMap_eq_nil_iff.mp hpolicy nick hnick
  obtain ⟨hmal, hign⟩ := kept_iff.mp (hkept nick hnick)
  cases he : entryOf nick with
  | digest d => exact .inr ⟨d, rfl⟩
  | name => exact .inl rfl
  | country cc =>
    rw [he] at hcountry
    cases hcountry
  | address p =>
    rw [he] at hpolicy
    cases hpolicy
  | malformed => exact absurd he hmal
  | ignored => exact absurd he hign

theorem nodes_nodup (nl : NodelistT) : nl.nodes.Nodup := List.Nodup.of_map _ nl.distinct

/-- How often a node is listed that is to be listed: once for each entry that stands for it. -/
theorem count_listed {list : List Text} (hentries : ∀ nick ∈ list, entryOf nick = .name ∨ ∃ d, entryOf nick = .digest d)
    {node : Node} (hnode : node ∈ nl.nodes) (he : eligible g excludeset runningOnly node = true) :
    ((list.filterMap (nodeGetByNickname nl)).filter (eligible g excludeset runningOnly)).count node =
      list.countP fun nick => StandsFor nl nick node := by
  rw [List.count_filter he, List.count_filterMap]
  refine List.countP_congr fun nick hnick => ?_
  rw [beq_iff_eq, nodeGetByNickname_iff (hentries nick hnick), decide_eq_true_eq]
  exact and_iff_right hnode

theorem listsMembers_iff {list : List Text} (hkept : ∀ nick ∈ list, Kept nick) :
    ListsMembers g nl (setOf g list) excludeset runningOnly ↔ routersetIsList (setOf g list) = false ∨
      ∀ node ∈ nl.nodes, eligible g excludeset runningOnly node = true →
        routersetContainsNode g (some (setOf g list)) node ≠ 0 → (list.countP fun nick => StandsFor nl nick node) = 1 := by
  cases hlist : routersetIsList (setOf g list) with
  | false =>
    have hout : routersetGetAllNodes g nl (some (setOf g list)) excludeset runningOnly =
        nl.nodes.filter fun node =>
          routersetContainsNode g (some (setOf g list)) node != 0 && eligible g excludeset runningOnly node := by
      simp only [routersetGetAllNodes, hlist, Bool.false_eq_true, if_false]
    refine iff_of_true ⟨?_, fun node => ?_⟩ (.inl rfl) <;> rw [hout]
    · exact (nodes_nodup nl).filter _
    · simp
  | true =>
    have hentries := entries_of_isList hkept hlist
    have hout : routersetGetAllNodes g nl (some (setOf g list)) excludeset runningOnly =
        (list.filterMap (nodeGetByNickname nl)).filter (eligible g excludeset runningOnly) := by
      simp only [routersetGetAllNodes, hlist, if_true]
      rfl
    have hmem : ∀ node, node ∈ routersetGetAllNodes g nl (some (setOf g list)) excludeset runningOnly →
        node ∈ nl.nodes ∧ routersetContainsNode g (some (setOf g list)) node ≠ 0 ∧
          eligible g excludeset runningOnly node = true := by
      intro node hnode
      rw [hout] at hnode
      obtain ⟨hnode, he⟩ := List.mem_filter.mp hnode
      obtain ⟨nick, hnick, hfound⟩ := List.mem_filterMap.mp hnode
      obtain ⟨hin, hstands⟩ := (nodeGetByNickname_iff (hentries nick hnick)).mp hfound
      exact ⟨hin, containsNode_of_standsFor hnick hstands, he⟩
    simp only [Bool.true_eq_false, false_or]
    constructor
    · intro h node hnode he hcontains
      have hpos := List.count_pos_iff.mpr ((h.members node).mpr ⟨hnode, hcontains, he⟩)
      have hle := List.nodup_iff_count_le_one.mp h.once node
      rw [hout, count_listed hentries hnode he] at hpos hle
      omega
    · intro h
      have hcount : ∀ node ∈ nl.nodes, eligible g excludeset runningOnly node = true →
          routersetContainsNode g (some (setOf g list)) node ≠ 0 →
            (routersetGetAllNodes g nl (some (setOf g list)) excludeset runningOnly).count node = 1 := by
        intro node hnode he hcontains
        rw [hout, count_listed hentries hnode he]
        exact h node hnode he hcontains
      constructor
      · rw [List.nodup_iff_count_le_one]
        intro node
        by_cases hnode : node ∈ routersetGetAllNodes g nl (some (setOf g list)) excludeset runningOnly
        · obtain ⟨hin, hcontains, he⟩ := hmem node hnode
          exact Nat.le_of_eq (hcount node hin he hcontains)
        · rw [List.count_eq_zero.mpr hnode]
          exact Nat.zero_le _
      · intro node
        refine ⟨hmem node, fun hc => ?_⟩
        have hone := hcount node hc.1 hc.2.2 hc.2.1
        exact List.count_pos_iff.mp (by omega)

/-- The list of a parsed set is the set of its members exactly if it asks every node, or each member that is to be
listed is what exactly one entry stands for. -/
theorem listing_iff (g : Geoip) (nl : NodelistT) (s : Text) (excludeset : Option Routerset) (runningOnly : Bool) :
    ListsMembers g nl (routersetParse g routersetNew s).1 excludeset runningOnly ↔
      routersetIsList (routersetParse g routersetNew s).1 = false ∨
        ∀ node ∈ nl.nodes, eligible g excludeset runningOnly node = true →
          routersetContainsNode g (some (routersetParse g routersetNew s).1) node ≠ 0 →
            ((routersetParse g routersetNew s).1.list.countP fun nick => StandsFor nl nick node) = 1 := by
  obtain ⟨kept, hset, hkept, -⟩ := routersetParse_spec g [] s
  rw [setOf_nil, List.nil_append] at hset
  rw [hset]
  exact listsMembers_iff fun nick hnick => (hkept nick hnick).1

end

/-! ## Two relays with one nickname -/

def alice : Text := ['a', 'l', 'i', 'c', 'e']

theorem length_aliceDigest (b : UInt8) : (List.replicate 20 b).length = DIGEST_LEN := rfl

/-- A relay of that nickname in the consensus. -/
def relayAlice (b : UInt8) : Node where
  identity := ⟨List.replicate 20 b, length_aliceDigest b⟩
  rs := some ⟨alice, ⟨List.replicate 20 b, length_aliceDigest b⟩, .inet 0x01020304, 9001, by decide⟩
  ri := none
  country := -1
  isRunning := true
  usable := Or.inl rfl
  rsIdentity := fun _ h => Option.some.inj h ▸ rfl
  riIdentity := nofun

def twoAlices : NodelistT where
  nodes := [relayAlice 1, relayAlice 2]
  distinct := by decide

/-- The set of a nickname that two relays bear is accepted; both are members, and the first one is listed. -/
theorem the_second_of_a_name_is_not_listed : (routersetParse noGeoip routersetNew alice).2 = true ∧
    routersetContainsNode noGeoip (some (routersetParse noGeoip routersetNew alice).1) (relayAlice 2) ≠ 0 ∧
      routersetGetAllNodes noGeoip twoAlices (some (routersetParse noGeoip routersetNew alice).1) none false = [relayAlice 1] ∧
        ¬ListsMembers noGeoip twoAlices (routersetParse noGeoip routersetNew alice).1 none false := by
  have hpiece : Piece ',' alice := Piece.of_ends rfl rfl (by decide) (by decide) (by decide)
  have hout : routersetGetAllNodes noGeoip twoAlices (some (setOf noGeoip [alice])) none false = [relayAlice 1] := by decide
  have hmember : routersetContainsNode noGeoip (some (setOf noGeoip [alice])) (relayAlice 2) ≠ 0 := by decide
  rw [routersetParse_piece noGeoip hpiece (by decide)]
  refine ⟨rfl, hmember, hout, fun h => ?_⟩
  have hlisted := (h.members (relayAlice 2)).mpr ⟨by decide, hmember, by decide⟩
  rw [hout] at hlisted
  revert hlisted
  decide

end Badnet.Nodelist.Routersets
