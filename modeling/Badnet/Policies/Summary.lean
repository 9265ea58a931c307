/-
  Badnet.Policies.Summary — the summary of an exit policy as a partition of the ports (`policy_summary_create` to
  `policy_summary_add_item` of `core/or/policies.c`).

  An entry of the policy splits the items at the ends of its range and changes those within. `none` is an assertion that
  fails or an index out of range; one that is not fatal sets `bug`. Each item says for its ports what the entries so far
  say (`policySummaryAddItem_spec`).
-/

import Badnet.Lib.Tiling
import Badnet.Net.AddrPattern
import Badnet.Policies.AddrPolicy

namespace Badnet.Policies

open Lib Net Encoding

structure PolicySummaryItem where
  prtMin : UInt16
  prtMax : UInt16
  rejectCount : UInt64
  accepted : Bool
  deriving DecidableEq, Repr

structure Summary where
  items : List PolicySummaryItem
  /-- an assertion that is not fatal has failed -/
  bug : Bool
  deriving DecidableEq, Repr

def policySummaryCreate : Summary := ⟨[⟨1, 65535, 0, false⟩], false⟩

/-! ## Splitting -/

/-- The old item and the new one. -/
def policySummaryItemSplit (old : PolicySummaryItem) (newStarts : UInt16) :
    Option (PolicySummaryItem × PolicySummaryItem) :=
  let new := { old with prtMin := newStarts }
  let old := { old with prtMax := newStarts - 1 }
  if old.prtMin ≤ old.prtMax ∧ new.prtMin ≤ new.prtMax then some (old, new) else none

def smartlistInsert {α : Type} (sl : List α) (idx : Nat) (val : α) : Option (List α) :=
  if idx ≤ sl.length then some (sl.take idx ++ val :: sl.drop idx) else none

/-- `while (AT(i)->prt_max < port) i++` -/
def skipBelow (summary : List PolicySummaryItem) (port : UInt16) (i : Nat) : Option Nat :=
  match _h : summary[i]? with
  | none => none
  | some item => if item.prtMax < port then skipBelow summary port (i + 1) else some i
termination_by summary.length - i
decreasing_by
  have hi := (List.getElem?_eq_some_iff.mp _h).1
  omega

section

variable (summary : List PolicySummaryItem)

/-- Item `i` is split, and the new one comes after it. -/
def splitItem (i : Nat) (newStarts : UInt16) : Option (List PolicySummaryItem) := do
  let item ← summary[i]?
  let (old, new) ← policySummaryItemSplit item newStarts
  smartlistInsert (summary.set i old) (i + 1) new

/-- The first loop of `policy_summary_split`, and its split. -/
def startAt (prtMin : UInt16) : Option (List PolicySummaryItem × Nat) :=
  (skipBelow summary prtMin 0).bind fun i =>
    summary[i]?.bind fun item =>
      if item.prtMin ≠ prtMin then (splitItem summary i prtMin).map (·, i + 1) else some (summary, i)

/-- The second one. -/
def endAt (prtMax : UInt16) (i : Nat) : Option (List PolicySummaryItem) :=
  (skipBelow summary prtMax i).bind fun i =>
    summary[i]?.bind fun item => if item.prtMax ≠ prtMax then splitItem summary i (prtMax + 1) else some summary

/-- The items, and the index of the one that starts at `prtMin`. -/
def policySummarySplit (prtMin prtMax : UInt16) : Option (List PolicySummaryItem × Nat) :=
  (startAt summary prtMin).bind fun (summary, startAtIndex) =>
    (endAt summary prtMax startAtIndex).map (·, startAtIndex)

end

/-! ## Accepting and rejecting -/

/-- The loop over the items from index `i` that end by `prtMax`; `f` also says whether an assertion that is not fatal
    fails. -/
def updateRange (f : PolicySummaryItem → PolicySummaryItem × Bool) (prtMax : UInt16) (summary : Summary) (i : Nat) :
    Summary × Nat :=
  match _h : summary.items[i]? with
  | none => (summary, i)
  | some item =>
    if item.prtMax ≤ prtMax then
      updateRange f prtMax ⟨summary.items.set i (f item).1, summary.bug || (f item).2⟩ (i + 1)
    else (summary, i)
termination_by summary.items.length - i
decreasing_by
  have hi := (List.getElem?_eq_some_iff.mp _h).1
  rw [List.length_set]
  omega

def REJECT_CUTOFF_COUNT_IPV4 : UInt64 := 1 <<< (32 - 0 - 7 : UInt64)

def REJECT_CUTOFF_COUNT_IPV6 : UInt64 := 1 <<< (128 - 64 - 16 : UInt64)

def UINT64_MAX : UInt64 := 0xffffffffffffffff

variable (family : SaFamily)

def familyRejectCount : UInt64 :=
  if family = .AF_INET then REJECT_CUTOFF_COUNT_IPV4 else REJECT_CUTOFF_COUNT_IPV6

def acceptItem (item : PolicySummaryItem) : PolicySummaryItem :=
  if !item.accepted ∧ item.rejectCount ≤ familyRejectCount family then { item with accepted := true } else item

/-- The assertion after the loop. -/
def checkEnd (prtMax : UInt16) (r : Summary × Nat) : Option Summary :=
  if r.2 < r.1.items.length ∨ prtMax = 65535 then some r.1 else none

def policySummaryAccept (summary : Summary) (prtMin prtMax : UInt16) (family : SaFamily) : Option Summary :=
  (policySummarySplit summary.items prtMin prtMax).bind fun (items, i) =>
    let bug := family ≠ .AF_INET ∧ family ≠ .AF_INET6
    checkEnd prtMax (updateRange (fun item => (acceptItem family item, false)) prtMax ⟨items, summary.bug || bug⟩ i)

def addrbits : Nat := if family = .AF_INET then 32 else 128

/-- `REJECT_CUTOFF_SCALE_IPV4` and `REJECT_CUTOFF_SCALE_IPV6` -/
def scale : Nat := if family = .AF_INET then 0 else 64

def rejectItem (count : UInt64) (item : PolicySummaryItem) : PolicySummaryItem × Bool :=
  if item.rejectCount ≤ UINT64_MAX - count then ({ item with rejectCount := item.rejectCount + count }, false)
  else ({ item with rejectCount := UINT64_MAX }, family = .AF_INET)

variable (maskbits : UInt8)

/-- The count for a network; a large one is an automatic rejection. -/
def networkCount : UInt64 :=
  if addrbits family - scale family - maskbits.toNat ≥ 64 then UINT64_MAX
  else 1 <<< UInt64.ofNat (addrbits family - scale family - maskbits.toNat)

/-- The assertions of `policy_summary_reject` that are not fatal, but for the one in its loop. -/
def rejectBug : Bool :=
  (family ≠ .AF_INET ∧ family ≠ .AF_INET6) ∨ addrbits family < maskbits.toNat ∨ addrbits family < scale family ∨
    if maskbits.toNat > addrbits family - scale family then family ≠ .AF_INET6
    else (addrbits family - scale family - maskbits.toNat ≥ 64 ∧ family ≠ .AF_INET6) ∨ ¬ networkCount family maskbits > 0

def policySummaryReject (summary : Summary) (maskbits : UInt8) (prtMin prtMax : UInt16) (family : SaFamily) :
    Option Summary :=
  (policySummarySplit summary.items prtMin prtMax).bind fun (items, i) =>
    let bug := summary.bug || rejectBug family maskbits
    if maskbits.toNat > addrbits family - scale family then some ⟨items, bug⟩
    else checkEnd prtMax (updateRange (rejectItem family (networkCount family maskbits)) prtMax ⟨items, bug⟩ i)

/-! ## Entries -/

def privateNets : List String :=
  ["0.0.0.0/8", "169.254.0.0/16", "127.0.0.0/8", "192.168.0.0/16", "10.0.0.0/8", "172.16.0.0/12", "[::]/8", "[fc00::]/7",
    "[fe80::]/10", "[fec0::]/10", "[ff00::]/8", "[::]/127"]

/-- The loop over the private networks. -/
def isPrivateNet (p : AddrPolicy) : List String → Option Bool
  | [] => some false
  | net :: nets =>
    match torAddrParseMaskPorts net.toList ⟨false, false, false⟩ true .none with
    | some (some ⟨addr, some maskbits, _⟩) =>
      if torAddrCompare p.addr addr .CMP_EXACT = 0 ∧ p.maskbits = maskbits then some true else isPrivateNet p nets
    | _ => none

def policySummaryAddItem (summary : Summary) (p : AddrPolicy) : Option Summary :=
  match p.policyType with
  | .ADDR_POLICY_ACCEPT =>
    if p.maskbits = 0 then policySummaryAccept summary p.prtMin p.prtMax (torAddrFamily p.addr) else some summary
  | .ADDR_POLICY_REJECT =>
    match isPrivateNet p privateNets with
    | none => none
    | some true => some summary
    | some false => policySummaryReject summary p.maskbits p.prtMin p.prtMax (torAddrFamily p.addr)

variable (policy : List AddrPolicy)

/-- The loop of `policy_summarize` over the entries of one family. -/
def summarizeEntries (family : SaFamily) : Option Summary :=
  policy.foldlM (fun summary p => if torAddrFamily p.addr ≠ family then some summary else policySummaryAddItem summary p)
    policySummaryCreate

/-! ## Items as a tiling of the ports -/

def firstPort (item : PolicySummaryItem) : Nat := item.prtMin.toNat

def lastPort (item : PolicySummaryItem) : Nat := item.prtMax.toNat

/-- The items from one port up to another one. -/
abbrev Items := Tiles firstPort lastPort

/-- Each item says for its ports what `f` says. -/
def Describes (items : List PolicySummaryItem) (f : Nat → UInt64 × Bool) : Prop :=
  ∀ item ∈ items, ∀ p, firstPort item ≤ p → p ≤ lastPort item → (item.rejectCount, item.accepted) = f p

variable {f : Nat → UInt64 × Bool} {pre post items : List PolicySummaryItem} {item : PolicySummaryItem}
  {port lo hi : UInt16} {summary : Summary} {e : AddrPolicy}

theorem Describes.append {xs ys : List PolicySummaryItem} :
    Describes (xs ++ ys) f ↔ Describes xs f ∧ Describes ys f := by
  simp only [Describes, List.mem_append]
  exact ⟨fun h => ⟨fun x hx => h x (.inl hx), fun x hx => h x (.inr hx)⟩, fun h x hx => hx.elim (h.1 x) (h.2 x)⟩

theorem skipBelow_eq {i : Nat}
    (hi : i ≤ pre.length) (hpre : ∀ x ∈ pre, lastPort x < port.toNat) (hitem : port.toNat ≤ lastPort item) :
    skipBelow (pre ++ item :: post) port i = some pre.length := by
  fun_induction skipBelow (pre ++ item :: post) port i with
  | case1 i hnone =>
    rw [List.getElem?_eq_none_iff, List.length_append, List.length_cons] at hnone
    omega
  | case2 i x hx hlt ih =>
    refine ih ?_
    by_cases he : i = pre.length
    · rw [he, List.getElem?_append_right (Nat.le_refl _), Nat.sub_self] at hx
      cases hx
      have hlt := UInt16.lt_iff_toNat_lt.mp hlt
      unfold lastPort at hitem
      omega
    · omega
  | case3 i x hx hlt =>
    by_cases he : i = pre.length
    · rw [he]
    · rw [List.getElem?_append_left (by omega)] at hx
      exact absurd (UInt16.lt_iff_toNat_lt.mpr (hpre x (List.mem_of_getElem? hx))) hlt

theorem toNat_pred (h : 0 < port.toNat) : (port - 1).toNat = port.toNat - 1 :=
  UInt16.toNat_sub_of_le port 1 (UInt16.le_iff_toNat_le.mpr h)

theorem splitItem_eq (hlo : firstPort item < port.toNat) (hhi : port.toNat ≤ lastPort item) :
    splitItem (pre ++ item :: post) pre.length port =
      some (pre ++ { item with prtMax := port - 1 } :: { item with prtMin := port } :: post) := by
  have hsplit : policySummaryItemSplit item port = some ({ item with prtMax := port - 1 }, { item with prtMin := port }) := by
    unfold policySummaryItemSplit
    rw [if_pos]
    refine ⟨UInt16.le_iff_toNat_le.mpr ?_, UInt16.le_iff_toNat_le.mpr hhi⟩
    change firstPort item ≤ (port - 1).toNat
    rw [toNat_pred (by omega)]
    omega
  have hget : (pre ++ item :: post)[pre.length]? = some item := by simp
  unfold splitItem
  rw [hget, Option.bind_eq_bind, Option.bind_some, hsplit, Option.bind_eq_bind, Option.bind_some]
  have hset : (pre ++ item :: post).set pre.length { item with prtMax := port - 1 } =
      (pre ++ [{ item with prtMax := port - 1 }]) ++ post := by simp
  have hlen : (pre ++ [{ item with prtMax := port - 1 }]).length = pre.length + 1 := by simp
  simp only [hset, smartlistInsert]
  rw [if_pos (by rw [List.length_append, hlen]; omega), ← hlen, List.take_left, List.drop_left, List.append_assoc]
  rfl

/-- Both parts of an item say what it said. -/
theorem Describes.split (h : Describes (pre ++ item :: post) f) (hlo : firstPort item < port.toNat)
    (hhi : port.toNat ≤ lastPort item) :
    Describes (pre ++ { item with prtMax := port - 1 } :: { item with prtMin := port } :: post) f := by
  have hpred := toNat_pred (show 0 < port.toNat by omega)
  intro x hx p hp hp'
  rcases List.mem_append.mp hx with hx | hx
  · exact h x (List.mem_append_left _ hx) p hp hp'
  rcases List.mem_cons.mp hx with rfl | hx
  · refine h item (by simp) p hp (Nat.le_trans hp' ?_)
    change (port - 1).toNat ≤ _
    omega
  rcases List.mem_cons.mp hx with rfl | hx
  · exact h item (by simp) p (Nat.le_trans (Nat.le_of_lt hlo) hp) hp'
  · exact h x (by simp [hx]) p hp hp'

/-- The item of a port is made to start there. -/
theorem startAt_spec {a : Nat} (hitems : Items a items 65536) (hf : Describes items f) (ha : a ≤ port.toNat) :
    ∃ pre rest, startAt items port = some (pre ++ rest, pre.length) ∧ Items a pre port.toNat ∧
      Items port.toNat rest 65536 ∧ Describes (pre ++ rest) f := by
  obtain ⟨pre, item, post, rfl, hlo, hhi, hpre, hpost⟩ := hitems.at ha port.toNat_lt
  have hskip : skipBelow (pre ++ item :: post) port 0 = some pre.length := by
    refine skipBelow_eq (Nat.zero_le _) (fun x hx => ?_) hhi
    have := (hpre.mem hx).2.2
    omega
  have hget : (pre ++ item :: post)[pre.length]? = some item := by simp
  unfold startAt
  rw [hskip, Option.bind_some, hget, Option.bind_some]
  by_cases heq : item.prtMin = port
  · refine ⟨pre, item :: post, by rw [if_neg (not_not_intro heq)], ?_, ?_, hf⟩
    · rw [← heq]; exact hpre
    · rw [← heq]; exact ⟨rfl, Nat.le_trans hlo hhi, hpost⟩
  · have hlt : firstPort item < port.toNat := by
      refine Nat.lt_of_le_of_ne hlo fun e => heq (UInt16.toNat_inj.mp e)
    refine ⟨pre ++ [{ item with prtMax := port - 1 }], { item with prtMin := port } :: post, ?_, ?_, ?_, ?_⟩
    · rw [if_pos heq, splitItem_eq hlt hhi]
      simp
    · refine tiles_append.mpr ⟨firstPort item, hpre, rfl, ?_, ?_⟩
      · change firstPort item ≤ (port - 1).toNat
        rw [toNat_pred (by omega)]
        omega
      · change (port - 1).toNat + 1 = port.toNat
        rw [toNat_pred (by omega)]
        omega
    · exact ⟨rfl, hhi, hpost⟩
    · rw [List.append_assoc]
      exact hf.split hlt hhi

/-- The item of a port is made to end there. -/
theorem endAt_spec {rest : List PolicySummaryItem}
    (hpre : Items 1 pre lo.toNat) (hrest : Items lo.toNat rest 65536) (hf : Describes (pre ++ rest) f)
    (hle : lo.toNat ≤ hi.toNat) :
    ∃ mid post, endAt (pre ++ rest) hi pre.length = some (pre ++ (mid ++ post)) ∧ Items lo.toNat mid (hi.toNat + 1) ∧ Items (hi.toNat + 1) post 65536 ∧ Describes (pre ++ (mid ++ post)) f := by
  obtain ⟨mid, item, post, rfl, hlo, hhi, hmid, hpost⟩ := hrest.at hle hi.toNat_lt
  have hskip : skipBelow (pre ++ (mid ++ item :: post)) hi pre.length = some (pre ++ mid).length := by
    rw [← List.append_assoc]
    refine skipBelow_eq (by simp) (fun x hx => ?_) hhi
    rcases List.mem_append.mp hx with hx | hx
    · have := (hpre.mem hx).2.2
      omega
    · have := (hmid.mem hx).2.2
      omega
  have hget : (pre ++ (mid ++ item :: post))[(pre ++ mid).length]? = some item := by
    rw [← List.append_assoc]
    simp
  unfold endAt
  rw [hskip, Option.bind_some, hget, Option.bind_some]
  by_cases heq : item.prtMax = hi
  · refine ⟨mid ++ [item], post, by rw [if_neg (not_not_intro heq)]; simp, ?_, ?_, by simpa using hf⟩
    · refine tiles_append.mpr ⟨firstPort item, hmid, rfl, Nat.le_trans hlo hhi, ?_⟩
      rw [← heq]
      rfl
    · rw [← heq]; exact hpost
  · have hlt : hi.toNat < lastPort item := Nat.lt_of_le_of_ne hhi fun e => heq (UInt16.toNat_inj.mp e.symm)
    have hsucc : (hi + 1).toNat = hi.toNat + 1 := by
      have hlast : lastPort item < 65536 := item.prtMax.toNat_lt
      rw [UInt16.toNat_add, UInt16.toNat_one]
      omega
    have hpred : (hi + 1 - 1).toNat = hi.toNat := by
      rw [toNat_pred (by omega), hsucc]
      rfl
    refine ⟨mid ++ [{ item with prtMax := hi + 1 - 1 }], { item with prtMin := hi + 1 } :: post, ?_, ?_, ?_, ?_⟩
    · rw [if_pos heq, ← List.append_assoc, splitItem_eq (by omega) (by omega)]
      simp
    · refine tiles_append.mpr ⟨firstPort item, hmid, rfl, ?_, ?_⟩
      · change firstPort item ≤ (hi + 1 - 1).toNat
        omega
      · change (hi + 1 - 1).toNat + 1 = hi.toNat + 1
        omega
    · refine ⟨hsucc, ?_, hpost⟩
      change hi.toNat + 1 ≤ lastPort item
      omega
    · have hsplit : Describes ((pre ++ mid) ++ { item with prtMax := hi + 1 - 1 } :: { item with prtMin := hi + 1 } :: post) f :=
        Describes.split (by simpa using hf) (by omega) (by omega)
      simpa using hsplit

theorem policySummarySplit_spec (hitems : Items 1 items 65536) (hf : Describes items f) (hports : PortsOk lo hi) :
    ∃ pre mid post, policySummarySplit items lo hi = some (pre ++ (mid ++ post), pre.length) ∧ Items 1 pre lo.toNat ∧
      Items lo.toNat mid (hi.toNat + 1) ∧ Items (hi.toNat + 1) post 65536 ∧ Describes (pre ++ (mid ++ post)) f := by
  obtain ⟨hpos, hle, -⟩ := hports
  obtain ⟨pre, rest, hstart, hpre, hrest, hf'⟩ := startAt_spec hitems hf hpos
  obtain ⟨mid, post, hend, hmid, hpost, hf''⟩ := endAt_spec hpre hrest hf' hle
  refine ⟨pre, mid, post, ?_, hpre, hmid, hpost, hf''⟩
  rw [policySummarySplit, hstart]
  simp only [Option.bind_some, hend, Option.map_some]

/-! ## Changing the items of a range -/

theorem updateRange_eq {g : PolicySummaryItem → PolicySummaryItem × Bool}
    {mid : List PolicySummaryItem} {bug : Bool} (hmid : ∀ x ∈ mid, lastPort x ≤ hi.toNat)
    (hpost : ∀ x ∈ post.head?, hi.toNat < lastPort x) :
    updateRange g hi ⟨pre ++ (mid ++ post), bug⟩ pre.length =
      (⟨pre ++ (mid.map (fun x => (g x).1) ++ post), bug || mid.any fun x => (g x).2⟩, pre.length + mid.length) := by
  induction mid generalizing pre bug with
  | nil =>
    have hget : (pre ++ ([] ++ post))[pre.length]? = post.head? := by
      rw [List.nil_append, List.getElem?_append_right (Nat.le_refl _), Nat.sub_self, List.head?_eq_getElem?]
    unfold updateRange
    split
    · simp
    next x hx =>
      rw [hget] at hx
      have hlt : ¬ x.prtMax ≤ hi := fun hle => Nat.not_le.mpr (hpost x hx) (UInt16.le_iff_toNat_le.mp hle)
      simp [hlt]
  | cons x mid ih =>
    have hle : x.prtMax ≤ hi := UInt16.le_iff_toNat_le.mpr (hmid x List.mem_cons_self)
    have hget : (pre ++ ((x :: mid) ++ post))[pre.length]? = some x := by simp
    have hset : (pre ++ ((x :: mid) ++ post)).set pre.length (g x).1 = (pre ++ [(g x).1]) ++ (mid ++ post) := by simp
    have hlen : (pre ++ [(g x).1]).length = pre.length + 1 := by simp
    unfold updateRange
    split
    next hnone => rw [hget] at hnone; cases hnone
    next y hy =>
      rw [hget] at hy
      cases hy
      rw [if_pos hle, hset, ← hlen, ih fun y hy => hmid y (List.mem_cons_of_mem x hy)]
      simp only [List.map_cons, List.any_cons, List.length_cons, hlen, List.append_assoc, List.cons_append,
        Bool.or_assoc]
      congr 1
      omega

/-- What `f` says after the ports from `lo` to `hi` have changed. -/
def changeRange (lo hi : Nat) (g : UInt64 × Bool → UInt64 × Bool) (f : Nat → UInt64 × Bool) (p : Nat) : UInt64 × Bool :=
  if lo ≤ p ∧ p ≤ hi then g (f p) else f p

/-- The partition is one of all ports, and says what `f` says. -/
def Partition (items : List PolicySummaryItem) (f : Nat → UInt64 × Bool) : Prop := Items 1 items 65536 ∧ Describes items f

/-- Splitting and then changing the items of the range changes its ports. -/
theorem change_spec (bug : Bool)
    {g : PolicySummaryItem → PolicySummaryItem × Bool} {h : UInt64 × Bool → UInt64 × Bool}
    (hends : ∀ x, (g x).1.prtMin = x.prtMin ∧ (g x).1.prtMax = x.prtMax)
    (hg : ∀ x, ((g x).1.rejectCount, (g x).1.accepted) = h (x.rejectCount, x.accepted))
    (hpart : Partition items f) (hports : PortsOk lo hi) :
    ∃ items' i summary, policySummarySplit items lo hi = some (items', i) ∧ Partition items' f ∧
      checkEnd hi (updateRange g hi ⟨items', bug⟩ i) = some summary ∧
      Partition summary.items (changeRange lo.toNat hi.toNat h f) ∧
      (summary.bug = true → bug = true ∨ ∃ x p, (x.rejectCount, x.accepted) = f p ∧ (g x).2 = true) := by
  obtain ⟨pre, mid, post, hsplit, hpre, hmid, hpost, hf⟩ := policySummarySplit_spec hpart.1 hpart.2 hports
  obtain ⟨hf1, hf2, hf3⟩ : Describes pre f ∧ Describes mid f ∧ Describes post f := by
    simpa only [Describes.append] using hf
  have hhead : ∀ x ∈ post.head?, hi.toNat < lastPort x := by
    intro x hx
    have := hpost.mem (List.mem_of_mem_head? hx)
    omega
  have hlast : ∀ x ∈ mid, lastPort x ≤ hi.toNat := fun x hx => Nat.le_of_lt_succ (hmid.mem hx).2.2
  refine ⟨pre ++ (mid ++ post), pre.length, ⟨pre ++ (mid.map (fun x => (g x).1) ++ post), bug || mid.any fun x => (g x).2⟩,
    hsplit, ⟨?_, hf⟩, ?_, ⟨?_, ?_⟩, ?_⟩
  · exact tiles_append.mpr ⟨_, hpre, tiles_append.mpr ⟨_, hmid, hpost⟩⟩
  · rw [updateRange_eq hlast hhead, checkEnd, if_pos]
    cases post with
    | nil =>
      refine .inr (UInt16.toNat_inj.mp ?_)
      have hend : hi.toNat + 1 = 65536 := hpost
      change hi.toNat = 65535
      omega
    | cons x post =>
      refine .inl ?_
      simp only [List.length_append, List.length_map, List.length_cons]
      omega
  · refine tiles_append.mpr ⟨_, hpre, tiles_append.mpr ⟨_, ?_, hpost⟩⟩
    refine (tiles_map (fun x => ?_) (fun x => ?_)).mpr hmid
    · exact congrArg UInt16.toNat (hends x).1
    · exact congrArg UInt16.toNat (hends x).2
  · have hout : ∀ l : List PolicySummaryItem, Describes l f → (∀ x ∈ l, lastPort x < lo.toNat ∨ hi.toNat < firstPort x) →
        Describes l (changeRange lo.toNat hi.toNat h f) := by
      intro l hl hx x hmem p hp hp'
      rw [changeRange, if_neg]
      · exact hl x hmem p hp hp'
      · rcases hx x hmem with hlt | hlt <;> omega
    have hin : Describes (mid.map fun x => (g x).1) (changeRange lo.toNat hi.toNat h f) := by
      intro y hy p hp hp'
      obtain ⟨x, hx, rfl⟩ := List.mem_map.mp hy
      have hp : firstPort x ≤ p := by rwa [firstPort, (hends x).1] at hp
      have hp' : p ≤ lastPort x := by rwa [lastPort, (hends x).2] at hp'
      have hx' := hmid.mem hx
      rw [hg, changeRange, if_pos (by omega), hf2 x hx p hp hp']
    refine Describes.append.mpr ⟨hout pre hf1 fun x hx => .inl (hpre.mem hx).2.2, Describes.append.mpr ⟨hin, ?_⟩⟩
    exact hout post hf3 fun x hx => .inr (hpost.mem hx).1
  · intro hbug
    rcases Bool.or_eq_true _ _ ▸ hbug with hbug | hbug
    · exact .inl hbug
    · obtain ⟨x, hx, hgx⟩ := List.any_eq_true.mp hbug
      exact .inr ⟨x, firstPort x, hf2 x hx _ (Nat.le_refl _) (hmid.mem hx).2.1, hgx⟩

/-! ## Private networks -/

def privateTable : List (TorAddr × UInt8) :=
  [(.inet 0, 8), (.inet 0xa9fe0000, 16), (.inet 0x7f000000, 8), (.inet 0xc0a80000, 16), (.inet 0x0a000000, 8),
    (.inet 0xac100000, 12), (.inet6 nilBytes, 8), (.inet6 (wordsToBytes [0xfc00]), 7), (.inet6 (wordsToBytes [0xfe80]), 10),
    (.inet6 (wordsToBytes [0xfec0]), 10), (.inet6 (wordsToBytes [0xff00]), 8), (.inet6 nilBytes, 127)]

theorem privateNets_parsed :
    privateNets.map (fun net => torAddrParseMaskPorts net.toList ⟨false, false, false⟩ true .none) =
      privateTable.map fun t => some (some ⟨t.1, some t.2, none⟩) := by
  decide +kernel

/-- The entry is about one of the private networks. -/
def isPrivateEntry (p : AddrPolicy) : Bool :=
  privateTable.any fun t => torAddrCompare p.addr t.1 .CMP_EXACT = 0 ∧ p.maskbits = t.2

theorem isPrivateNet_eq (p : AddrPolicy) : isPrivateNet p privateNets = some (isPrivateEntry p) := by
  unfold isPrivateEntry
  have hparsed := privateNets_parsed
  generalize privateNets = nets at hparsed ⊢
  generalize privateTable = table at hparsed ⊢
  induction nets generalizing table with
  | nil =>
    rw [List.map_nil, eq_comm, List.map_eq_nil_iff] at hparsed
    rw [hparsed]
    rfl
  | cons net nets ih =>
    cases table with
    | nil => cases hparsed
    | cons t table =>
      rw [List.map_cons, List.map_cons, List.cons.injEq] at hparsed
      rw [isPrivateNet, hparsed.1, List.any_cons]
      dsimp only
      split
      next h => simp [h]
      next h => rw [ih table hparsed.2, decide_eq_false h, Bool.false_or]

/-! ## What the entries say about a port -/

/-- Saturating addition. -/
def satAdd (a b : UInt64) : UInt64 := if a ≤ UINT64_MAX - b then a + b else UINT64_MAX

def covers (e : AddrPolicy) (p : Nat) : Bool := e.prtMin.toNat ≤ p ∧ p ≤ e.prtMax.toNat

/-- The count of an entry that rejects a network; small IPv6 networks count nothing. -/
def rejectedCount (e : AddrPolicy) : UInt64 :=
  let family := torAddrFamily e.addr
  if e.maskbits.toNat > addrbits family - scale family then 0 else networkCount family e.maskbits

/-- The count and the acceptance of a port after one more entry. -/
def portStep (p : Nat) (st : UInt64 × Bool) (e : AddrPolicy) : UInt64 × Bool :=
  if torAddrFamily e.addr ≠ family ∨ ¬ covers e p then st
  else match e.policyType with
    | .ADDR_POLICY_ACCEPT =>
      if e.maskbits = 0 then (st.1, st.2 || st.1 ≤ familyRejectCount family) else st
    | .ADDR_POLICY_REJECT => if isPrivateEntry e then st else (satAdd st.1 (rejectedCount e), st.2)

def portState (p : Nat) : UInt64 × Bool :=
  policy.foldl (portStep family p) (0, false)

theorem satAdd_zero (a : UInt64) : satAdd a 0 = a := by
  have hle : a ≤ UINT64_MAX - 0 := UInt64.le_iff_toNat_le.mpr (Nat.le_of_lt_succ a.toNat_lt)
  rw [satAdd, if_pos hle, UInt64.add_zero]

theorem acceptItem_spec (x : PolicySummaryItem) :
    ((acceptItem family x).rejectCount, (acceptItem family x).accepted) =
      (x.rejectCount, x.accepted || decide (x.rejectCount ≤ familyRejectCount family)) := by
  unfold acceptItem
  split
  next h => simp [h.2]
  next h => cases hacc : x.accepted <;> simp_all

theorem policySummaryAccept_spec (hpart : Partition summary.items f) (hports : PortsOk e.prtMin e.prtMax) :
    ∃ summary', policySummaryAccept summary e.prtMin e.prtMax (torAddrFamily e.addr) = some summary' ∧
      Partition summary'.items (changeRange e.prtMin.toNat e.prtMax.toNat
        (fun st => (st.1, st.2 || st.1 ≤ familyRejectCount (torAddrFamily e.addr))) f) ∧
      (summary'.bug = true → summary.bug = true ∨ torAddrFamily e.addr = .AF_UNSPEC) := by
  obtain ⟨items, i, summary', hsplit, -, hcheck, hpart', hbug⟩ := change_spec
    (summary.bug || decide (torAddrFamily e.addr ≠ .AF_INET ∧ torAddrFamily e.addr ≠ .AF_INET6))
    (g := fun item => (acceptItem (torAddrFamily e.addr) item, false))
    (h := fun st => (st.1, st.2 || st.1 ≤ familyRejectCount (torAddrFamily e.addr)))
    (fun x => by unfold acceptItem; split <;> exact ⟨rfl, rfl⟩) (acceptItem_spec _) hpart hports
  refine ⟨summary', ?_, hpart', fun hb => ?_⟩
  · rw [policySummaryAccept, hsplit]
    exact hcheck
  · rcases hbug hb with hb | ⟨x, p, -, hx⟩
    · rcases Bool.or_eq_true _ _ ▸ hb with hb | hb
      · exact .inl hb
      · refine .inr ?_
        cases hf : torAddrFamily e.addr <;> simp_all
    · cases hx

theorem networkCount_toNat {family : SaFamily} {maskbits : UInt8}
    (h : ¬ addrbits family - scale family - maskbits.toNat ≥ 64) :
    (networkCount family maskbits).toNat = 2 ^ (addrbits family - scale family - maskbits.toNat) := by
  unfold networkCount
  rw [if_neg h]
  generalize addrbits family - scale family - maskbits.toNat = k at h
  have hk : k < 64 := by omega
  have hlt : 2 ^ k < 2 ^ 64 := Nat.pow_lt_pow_right (by decide) hk
  rw [UInt64.toNat_shiftLeft, UInt64.toNat_ofNat_of_lt' (by change k < 2 ^ 64; omega)]
  simp only [UInt64.toNat_one, Nat.mod_eq_of_lt hk, Nat.shiftLeft_eq, Nat.one_mul]
  exact Nat.mod_eq_of_lt hlt

theorem networkCount_pos : networkCount family maskbits > 0 := by
  by_cases h : addrbits family - scale family - maskbits.toNat ≥ 64
  · rw [networkCount, if_pos h]
    decide
  · refine UInt64.lt_iff_toNat_lt.mpr ?_
    rw [networkCount_toNat h]
    exact Nat.two_pow_pos _

/-- What makes an assertion fail that is not fatal: a family that is none, a prefix that does not fit, or a count of
    IPv4 addresses that overflows. -/
def BugSource (f : Nat → UInt64 × Bool) (e : AddrPolicy) : Prop :=
  torAddrFamily e.addr = .AF_UNSPEC ∨ addrbits (torAddrFamily e.addr) < e.maskbits.toNat ∨
    (torAddrFamily e.addr = .AF_INET ∧ ∃ p, ¬ (f p).1 ≤ UINT64_MAX - rejectedCount e)

theorem rejectBug_source (h : rejectBug (torAddrFamily e.addr) e.maskbits = true) : BugSource f e := by
  have hpos := networkCount_pos (torAddrFamily e.addr) e.maskbits
  rw [rejectBug, decide_eq_true_eq] at h
  unfold BugSource
  cases hf : torAddrFamily e.addr with
  | AF_UNSPEC => exact .inl rfl
  | AF_INET =>
    rw [hf] at h hpos
    refine .inr (.inl ?_)
    simp only [hpos, not_true_eq_false, or_false, addrbits, scale, if_true] at h ⊢
    split at h <;> simp at h <;> omega
  | AF_INET6 =>
    rw [hf] at h hpos
    refine .inr (.inl ?_)
    simpa [hpos, addrbits, scale] using h

theorem policySummaryReject_spec (hpart : Partition summary.items f) (hports : PortsOk e.prtMin e.prtMax) :
    ∃ summary', policySummaryReject summary e.maskbits e.prtMin e.prtMax (torAddrFamily e.addr) = some summary' ∧
      Partition summary'.items (changeRange e.prtMin.toNat e.prtMax.toNat
        (fun st => (satAdd st.1 (rejectedCount e), st.2)) f) ∧
      (summary'.bug = true → summary.bug = true ∨ BugSource f e) := by
  have hbefore : (summary.bug || rejectBug (torAddrFamily e.addr) e.maskbits) = true → summary.bug = true ∨ BugSource f e := by
    intro hb
    rcases Bool.or_eq_true _ _ ▸ hb with hb | hb
    · exact .inl hb
    · exact .inr (rejectBug_source hb)
  by_cases hsmall : e.maskbits.toNat > addrbits (torAddrFamily e.addr) - scale (torAddrFamily e.addr)
  · have hzero : rejectedCount e = 0 := by rw [rejectedCount, if_pos hsmall]
    have hsame : changeRange e.prtMin.toNat e.prtMax.toNat (fun st => (satAdd st.1 (rejectedCount e), st.2)) f = f := by
      funext p
      simp only [changeRange, hzero, satAdd_zero, ite_self]
    obtain ⟨items, i, -, hsplit, hpart', -⟩ := change_spec false (g := fun item => (item, false)) (h := id)
      (fun x => ⟨rfl, rfl⟩) (fun x => rfl) hpart hports
    rw [policySummaryReject, hsplit, hsame]
    simp only [Option.bind_some, if_pos hsmall]
    exact ⟨_, rfl, hpart', hbefore⟩
  · have hcount : rejectedCount e = networkCount (torAddrFamily e.addr) e.maskbits := by rw [rejectedCount, if_neg hsmall]
    obtain ⟨items, i, summary', hsplit, -, hcheck, hpart', hbug⟩ := change_spec
      (summary.bug || rejectBug (torAddrFamily e.addr) e.maskbits)
      (g := rejectItem (torAddrFamily e.addr) (networkCount (torAddrFamily e.addr) e.maskbits))
      (h := fun st => (satAdd st.1 (rejectedCount e), st.2))
      (fun x => by unfold rejectItem; split <;> exact ⟨rfl, rfl⟩)
      (fun x => by rw [hcount, satAdd, rejectItem]; split <;> rfl) hpart hports
    refine ⟨summary', ?_, hpart', fun hb => ?_⟩
    · rw [policySummaryReject, hsplit]
      simp only [Option.bind_some, if_neg hsmall]
      exact hcheck
    · rcases hbug hb with hb | ⟨x, p, hx, hsat⟩
      · exact hbefore hb
      · unfold rejectItem at hsat
        split at hsat
        · cases hsat
        next hover =>
          refine .inr (.inr (.inr ⟨of_decide_eq_true hsat, p, ?_⟩))
          rw [← hx, hcount]
          exact hover

theorem changeRange_id (lo hi : Nat) (f : Nat → UInt64 × Bool) : changeRange lo hi id f = f := by
  funext p
  simp only [changeRange, id, ite_self]

/-- An entry says something about the ports of its range only. -/
theorem portStep_range (g : UInt64 × Bool → UInt64 × Bool)
    (hg : ∀ p, covers e p = true → portStep (torAddrFamily e.addr) p (f p) e = g (f p)) :
    (fun p => portStep (torAddrFamily e.addr) p (f p) e) = changeRange e.prtMin.toNat e.prtMax.toNat g f := by
  funext p
  by_cases hc : covers e p = true
  · rw [changeRange, if_pos (of_decide_eq_true hc), hg p hc]
  · rw [changeRange, if_neg (fun h => hc (decide_eq_true h)), portStep, if_pos (.inr hc)]

theorem policySummaryAddItem_spec (hpart : Partition summary.items f) (hports : PortsOk e.prtMin e.prtMax) :
    ∃ summary', policySummaryAddItem summary e = some summary' ∧
      Partition summary'.items (fun p => portStep (torAddrFamily e.addr) p (f p) e) ∧
      (summary'.bug = true → summary.bug = true ∨ BugSource f e) := by
  unfold policySummaryAddItem
  cases htype : e.policyType with
  | ADDR_POLICY_ACCEPT =>
    dsimp only
    by_cases hbits : e.maskbits = 0
    · rw [if_pos hbits, portStep_range (fun st => (st.1, st.2 || st.1 ≤ familyRejectCount (torAddrFamily e.addr)))
        fun p hc => by simp [portStep, hc, htype, hbits]]
      obtain ⟨summary', hs, hp, hb⟩ := policySummaryAccept_spec hpart hports
      exact ⟨summary', hs, hp, fun h => (hb h).imp_right .inl⟩
    · rw [if_neg hbits, portStep_range id fun p hc => by simp [portStep, hc, htype, hbits], changeRange_id]
      exact ⟨summary, rfl, hpart, .inl⟩
  | ADDR_POLICY_REJECT =>
    dsimp only
    rw [isPrivateNet_eq]
    by_cases hpriv : isPrivateEntry e = true
    · rw [hpriv, portStep_range id fun p hc => by simp [portStep, hc, htype, hpriv], changeRange_id]
      exact ⟨summary, rfl, hpart, .inl⟩
    · rw [Bool.not_eq_true] at hpriv
      rw [hpriv, portStep_range (fun st => (satAdd st.1 (rejectedCount e), st.2))
        fun p hc => by simp [portStep, hc, htype, hpriv]]
      exact policySummaryReject_spec hpart hports

theorem policySummaryCreate_spec : Partition policySummaryCreate.items fun _ => (0, false) := by
  refine ⟨⟨rfl, by decide, rfl⟩, fun item hitem p _ _ => ?_⟩
  rw [List.mem_singleton.mp hitem]

/-- No entry fails an assertion, and the items say what the entries say. -/
theorem summarizeEntries_spec (policy : List AddrPolicy) (family : SaFamily)
    (hports : ∀ e ∈ policy, PortsOk e.prtMin e.prtMax) :
    ∃ summary, summarizeEntries policy family = some summary ∧ Partition summary.items (portState family policy) ∧
      (summary.bug = true → ∃ pre e post, policy = pre ++ e :: post ∧ torAddrFamily e.addr = family ∧
        BugSource (portState family pre) e) := by
  induction policy using List.reverseRecOn with
  | nil => exact ⟨policySummaryCreate, rfl, policySummaryCreate_spec, nofun⟩
  | append_singleton policy e ih =>
    obtain ⟨summary, hs, hpart, hbug⟩ := ih fun e' he' => hports e' (List.mem_append_left _ he')
    have hfold : summarizeEntries (policy ++ [e]) family =
        if torAddrFamily e.addr ≠ family then some summary else policySummaryAddItem summary e := by
      rw [summarizeEntries, List.foldlM_append]
      rw [summarizeEntries] at hs
      rw [hs]
      simp
    have hstate : portState family (policy ++ [e]) = fun p => portStep family p (portState family policy p) e := by
      funext p
      rw [portState, List.foldl_append]
      rfl
    have hbug' : summary.bug = true → ∃ pre e' post, policy ++ [e] = pre ++ e' :: post ∧ torAddrFamily e'.addr = family ∧
        BugSource (portState family pre) e' := by
      intro hb
      obtain ⟨pre, e', post, rfl, hf, hsrc⟩ := hbug hb
      exact ⟨pre, e', post ++ [e], by simp, hf, hsrc⟩
    rw [hfold, hstate]
    by_cases hf : torAddrFamily e.addr = family
    · subst hf
      rw [if_neg (not_not_intro rfl)]
      obtain ⟨summary', hs', hpart', hb'⟩ := policySummaryAddItem_spec hpart (hports e (by simp))
      refine ⟨summary', hs', hpart', fun hb => ?_⟩
      rcases hb' hb with hb | hsrc
      · exact hbug' hb
      · exact ⟨policy, e, [], rfl, rfl, hsrc⟩
    · rw [if_pos hf]
      have hsame : (fun p => portStep family p (portState family policy p) e) = portState family policy := by
        funext p
        rw [portStep, if_pos (.inl hf)]
      rw [hsame]
      exact ⟨summary, rfl, hpart, hbug'⟩

end Badnet.Policies
