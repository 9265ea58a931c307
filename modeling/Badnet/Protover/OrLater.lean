/-
  Badnet.Protover.OrLater — "this version or later" against exact support (`core/or/protover.c`).

  `protocol_list_supports_protocol` looks at the first entry with exactly the name of the protocol,
  `protocol_list_supports_protocol_or_later` at every entry with that name in any case. `supports_or_later_iff` says
  where the second says more than that some later version is supported.
-/

import Badnet.Protover.VoteMeaning

namespace Badnet.Protover.C

open Lib Encoding

/-- In the C locale. -/
def strcasecmp (a b : Text) : Int := strcmp (a.map Char.toLower) (b.map Char.toLower)

def protocolListSupportsProtocolOrLater (list : Text) (tp : Protocol) (version : Nat) : Bool :=
  match parseProtocolList list with
  | none => false
  | some protocols =>
    let mask := bitmaskForRange version 63
    protocols.any fun proto => strcasecmp proto.name (protocolTypeToStr tp) = 0 ∧ proto.bitmask &&& mask ≠ 0

theorem strcasecmp_self (a : Text) : strcasecmp a a = 0 := by
  unfold strcasecmp
  generalize a.map Char.toLower = b
  induction b with
  | nil => rfl
  | cons c b ih => rw [strcmp_cons, if_pos rfl, ih]

/-- The entry has a version from `v` on. -/
def reaches (ent : ProtoEntry) (v : Nat) : Prop := ∃ w, v ≤ w ∧ w ≤ MAX_PROTOCOL_VERSION ∧ ent.bitmask.getLsbD w = true

theorem and_bitmaskForRange {ent : ProtoEntry} {v : Nat} (hv : v ≤ 63) :
    ent.bitmask &&& bitmaskForRange v 63 ≠ 0 ↔ reaches ent v := by
  have hbit : ∀ w, w < 64 → (ent.bitmask &&& bitmaskForRange v 63).getLsbD w =
      (ent.bitmask.getLsbD w && decide (v ≤ w ∧ w ≤ 63)) := by
    intro w hw
    rw [BitVec.getLsbD_and, getLsbD_bitmaskForRange hv (Nat.le_refl _) hw]
  constructor
  · intro hne
    by_contra hno
    refine hne (BitVec.eq_of_getLsbD_eq fun w hw => ?_)
    rw [hbit w hw, show (0 : BitVec 64).getLsbD w = false from BitVec.getLsbD_zero, Bool.eq_false_iff]
    intro hboth
    rw [Bool.and_eq_true, decide_eq_true_eq] at hboth
    exact hno ⟨w, hboth.2.1, hboth.2.2, hboth.1⟩
  · rintro ⟨w, hle, hmax, hw⟩ hzero
    have hset := hbit w (Nat.lt_succ_of_le hmax)
    rw [hzero, hw, show (0 : BitVec 64).getLsbD w = false from BitVec.getLsbD_zero] at hset
    exact of_decide_eq_false hset.symm ⟨hle, hmax⟩

section

variable {list : Text} {es : List ProtoEntry} {tp : Protocol} {v : Nat}

/-- Some entry with the name, in any case. -/
theorem orLater_iff (h : parseProtocolList list = some es) (hv : v ≤ 63) :
    protocolListSupportsProtocolOrLater list tp v = true ↔
      ∃ e ∈ es, strcasecmp e.name (protocolTypeToStr tp) = 0 ∧ reaches e v := by
  rw [protocolListSupportsProtocolOrLater, h]
  simp only [List.any_eq_true, decide_eq_true_eq, and_bitmaskForRange hv]

/-- The first entry with the very name. -/
theorem exact_iff (h : parseProtocolList list = some es) {w : Nat} (hw : w ≤ MAX_PROTOCOL_VERSION) :
    protocolListSupportsProtocol list tp w = true ↔
      ∃ e, findEntryByName es (protocolTypeToStr tp) = some e ∧ e.bitmask.getLsbD w = true := by
  rw [protocolListSupportsProtocol, h]
  simp only [protocolListContains, if_neg (Nat.not_lt.mpr hw)]
  cases findEntryByName es (protocolTypeToStr tp) with
  | none => simp
  | some e => simp

/-- Another entry of the protocol has such a version, the first one with the very name has none. -/
def ElsewhereOnly (es : List ProtoEntry) (tp : Protocol) (v : Nat) : Prop :=
  (∃ e ∈ es, strcasecmp e.name (protocolTypeToStr tp) = 0 ∧ reaches e v) ∧
    ∀ e, findEntryByName es (protocolTypeToStr tp) = some e → ¬reaches e v

theorem supports_or_later_iff (h : parseProtocolList list = some es) (hv : v ≤ 63) :
    (protocolListSupportsProtocolOrLater list tp v = true ↔
      ∃ w, v ≤ w ∧ w ≤ 63 ∧ protocolListSupportsProtocol list tp w = true) ↔ ¬ElsewhereOnly es tp v := by
  have hexact : (∃ w, v ≤ w ∧ w ≤ 63 ∧ protocolListSupportsProtocol list tp w = true) ↔
      ∃ e, findEntryByName es (protocolTypeToStr tp) = some e ∧ reaches e v := by
    constructor
    · rintro ⟨w, hle, hmax, hw⟩
      obtain ⟨e, he, hbit⟩ := (exact_iff h hmax).mp hw
      exact ⟨e, he, w, hle, hmax, hbit⟩
    · rintro ⟨e, he, w, hle, hmax, hbit⟩
      exact ⟨w, hle, hmax, (exact_iff h hmax).mpr ⟨e, he, hbit⟩⟩
  rw [orLater_iff h hv, hexact, ElsewhereOnly, not_and]
  constructor
  · intro hiff hother hnone
    obtain ⟨e, he, hreach⟩ := hiff.mp hother
    exact hnone e he hreach
  · intro hcond
    constructor
    · intro hother
      have hfirst := hcond hother
      by_contra hno
      exact hfirst fun e he hreach => hno ⟨e, he, hreach⟩
    · rintro ⟨e, he, hreach⟩
      have hname : e.name = protocolTypeToStr tp := by simpa using List.find?_some he
      exact ⟨e, List.mem_of_find?_eq_some he, hname ▸ strcasecmp_self _, hreach⟩

end

/-- `Link=1 Link=2`. -/
def repeatedName : Text := ['L', 'i', 'n', 'k', '=', '1', ' ', 'L', 'i', 'n', 'k', '=', '2']

theorem a_repeated_name_is_seen_by_one_query_only :
    ¬∀ (list : Text) (es : List ProtoEntry) (tp : Protocol) (v : Nat), parseProtocolList list = some es → v ≤ 63 →
      (protocolListSupportsProtocolOrLater list tp v = true ↔
        ∃ w, v ≤ w ∧ w ≤ 63 ∧ protocolListSupportsProtocol list tp w = true) := by
  intro hclaim
  have hparse : parseProtocolList repeatedName =
      some [⟨protocolTypeToStr .Link, 2#64⟩, ⟨protocolTypeToStr .Link, 4#64⟩] := by decide +kernel
  obtain ⟨w, hle, hmax, hw⟩ := (hclaim _ _ .Link 2 hparse (by decide)).mp (by decide +kernel)
  have hnone : ∀ w ∈ List.range' 2 62, protocolListSupportsProtocol repeatedName .Link w = false := by decide +kernel
  rw [hnone w (List.mem_range'_1.mpr ⟨hle, by omega⟩)] at hw
  cases hw

/-- `Link=1-5`. -/
def singleName : Text := ['L', 'i', 'n', 'k', '=', '1', '-', '5']

theorem a_single_name_is_seen_by_both :
    protocolListSupportsProtocolOrLater singleName .Link 3 = true ↔
      ∃ w, 3 ≤ w ∧ w ≤ 63 ∧ protocolListSupportsProtocol singleName .Link w = true := by
  have hparse : parseProtocolList singleName = some [⟨protocolTypeToStr .Link, 62#64⟩] := by decide +kernel
  refine (supports_or_later_iff hparse (by decide)).mpr ?_
  rintro ⟨-, hnone⟩
  exact hnone ⟨protocolTypeToStr .Link, 62#64⟩ (by decide +kernel) ⟨3, by decide, by decide, by decide⟩

end Badnet.Protover.C
