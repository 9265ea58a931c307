/-
  Badnet.Protover.VoteMeaning — what the vote in C says.

  An encoded list of entries is read back as it was (`C.parse_encodeProtocolList`), unless an entry has all 64 versions:
  there the encoder asks for the trailing zeros of 0, which are undefined. So the vote lists a version of a name exactly
  if enough of the strings do, as long as no name gets enough votes for every version from 0 to 63 (`C.vote_right_iff`).
-/

import Badnet.Protover.Compute

namespace Badnet.Protover

open Lib Encoding

/-! ## Reading what was printed -/

theorem number_decimal {v : Nat} (h : v ≤ MAX_PROTOCOL_VERSION) : number (decimal v) = some v := by
  rw [number_digits (decimal_ne_nil v) (List.all_eq_true.mpr isDigit_decimal), ofDigitChars_decimal, if_pos h]

theorem dash_notMem_decimal (v : Nat) : '-' ∉ decimal v := fun h => absurd (isDigit_decimal _ h) (by decide)

theorem range_pairToString {r : Nat × Nat} (hle : r.1 ≤ r.2) (hmax : r.2 ≤ MAX_PROTOCOL_VERSION) :
    range (Rust.ProtoSet.pairToString r) = some r := by
  have hbounds : bounds (Rust.ProtoSet.pairToString r) = some r := by
    unfold Rust.ProtoSet.pairToString bounds
    by_cases h : r.1 = r.2
    · rw [if_neg (not_not.mpr h), if_neg (dash_notMem_decimal _), number_decimal (hle.trans hmax)]
      exact congrArg some (Prod.ext rfl h)
    · rw [if_pos h, if_pos (by simp), takeWhile_sep (dash_notMem_decimal _), dropWhile_sep (dash_notMem_decimal _),
        List.tail_cons, number_decimal (hle.trans hmax), number_decimal hmax]
      rfl
  rw [range, hbounds, Option.filter_some_pos (by simpa using hle)]

theorem ranges_rangesText {rs : List (Nat × Nat)} (h : rs ≠ [])
    (hrs : ∀ r ∈ rs, r.1 ≤ r.2 ∧ r.2 ≤ MAX_PROTOCOL_VERSION) : ranges (rangesText true rs) = some rs := by
  have hsplit := splitOn_rangesText h
  have hne : rangesText true rs ≠ [] := by
    intro hnil
    rw [hnil] at hsplit
    obtain ⟨r, rs, rfl⟩ := List.exists_cons_of_ne_nil h
    have hhead : [] = Rust.ProtoSet.pairToString r := (List.cons.inj hsplit).1
    have hrange := range_pairToString (hrs r List.mem_cons_self).1 (hrs r List.mem_cons_self).2
    rw [← hhead, C.range_nil] at hrange
    cases hrange
  rw [ranges, if_neg hne, hsplit, List.mapM_map]
  have hmap := @mapM_some _ _ (range ∘ Rust.ProtoSet.pairToString) id rs fun r hr =>
    range_pairToString (hrs r hr).1 (hrs r hr).2
  rwa [List.map_id] at hmap

/-- A printed entry is read as its name and the runs of its versions. -/
theorem entry_part {n : Text} {versions : List Nat} (hn : isName n = true) (hne : versions ≠ [])
    (hlt : ∀ v ∈ versions, v < 64) : entry (part versions n) = some ⟨n, runs versions⟩ := by
  have hruns : runs versions ≠ [] := by
    obtain ⟨a, l, rfl⟩ := List.exists_cons_of_ne_nil hne
    obtain ⟨hi, rs, hr⟩ := runs_cons a l
    rw [hr]
    exact List.cons_ne_nil _ _
  have hbounds : ∀ r ∈ runs versions, r.1 ≤ r.2 ∧ r.2 ≤ MAX_PROTOCOL_VERSION :=
    fun r hr => ⟨runs_le r hr, Nat.le_of_lt_succ (hlt _ (mem_runs r hr).2)⟩
  have htake := takeWhile_sep (t := rangesText true (runs versions)) (equals_notMem_name hn)
  have hdrop := dropWhile_sep (t := rangesText true (runs versions)) (equals_notMem_name hn)
  rw [entry, part, htake, hdrop, if_pos ⟨by simp, hn⟩, List.tail_cons, ranges_rangesText hruns hbounds]
  rfl

theorem lists_runs {n : Text} {versions : List Nat} (v : Nat) :
    (Entry.mk n (runs versions)).lists v = true ↔ v ∈ versions := by
  have hmem : v ∈ versions ↔ v ∈ (runs versions).flatMap fun r => List.range' r.1 (r.2 + 1 - r.1) := by
    rw [flatMap_runs]
  rw [hmem, Entry.lists, List.any_eq_true, List.mem_flatMap]
  refine exists_congr fun r => and_congr_right fun _ => ?_
  rw [List.mem_range'_1, decide_eq_true_eq]
  omega

theorem mem_intercalate_blank {l : List Text} {c : Char} (hc : c ≠ ' ') (h : c ∈ [' '].intercalate l) : ∃ t ∈ l, c ∈ t := by
  induction l with
  | nil => cases h
  | cons t l ih =>
    cases l with
    | nil =>
      rw [List.intercalate_singleton] at h
      exact ⟨t, List.mem_cons_self, h⟩
    | cons u l =>
      rw [List.intercalate_cons_cons] at h
      simp only [List.append_assoc, List.mem_append, List.mem_singleton, hc, false_or] at h
      rcases h with h | h
      · exact ⟨t, List.mem_cons_self, h⟩
      · obtain ⟨w, hw, hcw⟩ := ih h
        exact ⟨w, List.mem_cons_of_mem _ hw, hcw⟩

theorem head_intercalate_blank {l : List Text} (hl : ∀ t ∈ l, ' ' ∉ t ∧ t ≠ []) :
    ∀ c ∈ ([' '].intercalate l).head?, c ≠ ' ' := by
  intro c hc
  cases l with
  | nil => cases hc
  | cons t l =>
    obtain ⟨hblank, hne⟩ := hl t List.mem_cons_self
    obtain ⟨d, u, rfl⟩ := List.exists_cons_of_ne_nil hne
    have hd : d ≠ ' ' := fun h => hblank (h ▸ List.mem_cons_self)
    cases l with
    | nil =>
      rw [List.intercalate_singleton] at hc
      cases hc
      exact hd
    | cons w l =>
      rw [List.intercalate_cons_cons] at hc
      cases hc
      exact hd

namespace C

/-! ## The encoder and the reader -/

theorem mem_versionsFrom_zero {mask : BitVec 64} {v : Nat} : v ∈ versionsFrom mask 0 ↔ mask.getLsbD v = true := by
  rw [mem_versionsFrom]
  constructor
  · intro h
    exact h.2.2
  · intro h
    exact ⟨Nat.zero_le v, BitVec.lt_of_getLsbD h, h⟩

theorem versionsFrom_ne_nil {mask : BitVec 64} (h : mask ≠ 0) : versionsFrom mask 0 ≠ [] := by
  intro hnil
  refine h (BitVec.eq_of_getLsbD_eq fun i hi => ?_)
  rw [show (0 : BitVec 64).getLsbD i = false from BitVec.getLsbD_zero, Bool.eq_false_iff]
  intro hbit
  have hmem := mem_versionsFrom_zero.mpr hbit
  rw [hnil] at hmem
  cases hmem

/-- An entry that the vote may make: a name that can be parsed, and some versions. -/
structure Printable (e : ProtoEntry) : Prop where
  name : isName e.name = true
  some_version : e.bitmask ≠ 0

theorem protoEntryEncodeInto_part {e : ProtoEntry} (h : e.bitmask ≠ BitVec.allOnes 64) :
    protoEntryEncodeInto e = some (part (versionsFrom e.bitmask 0) e.name) := by
  have henc := @encodeMask_runs e.bitmask 0 (.inr h) true
  rw [BitVec.ushiftRight_zero] at henc
  rw [protoEntryEncodeInto, henc]
  rfl

/-- With all versions there are, the complement of the mask has no trailing zeros. -/
theorem protoEntryEncodeInto_full {e : ProtoEntry} (h : e.bitmask = BitVec.allOnes 64) : protoEntryEncodeInto e = none := by
  have henc : encodeMask (BitVec.allOnes 64) 0 true = none := by
    have hz : trailingZeros (BitVec.allOnes 64) = some 0 := by decide +kernel
    have ho : trailingOnes (BitVec.allOnes 64 >>> 0) = none := by decide +kernel
    rw [encodeMask, dif_neg (by decide)]
    split
    · rfl
    rename_i zeros hzeros
    cases hz.symm.trans hzeros
    split
    · rfl
    rename_i ones hones
    rw [ho] at hones
    cases hones
  rw [protoEntryEncodeInto, h, henc]
  rfl

theorem ofEntry_runs {e : ProtoEntry} : ofEntry ⟨e.name, runs (versionsFrom e.bitmask 0)⟩ = e := by
  have hbounds : ∀ r ∈ (Entry.mk e.name (runs (versionsFrom e.bitmask 0))).ranges,
      r.1 ≤ r.2 ∧ r.2 ≤ MAX_PROTOCOL_VERSION :=
    fun r hr => ⟨runs_le r hr, Nat.le_of_lt_succ (mem_versionsFrom.mp (mem_runs r hr).2).2.1⟩
  have hmask : (ofEntry ⟨e.name, runs (versionsFrom e.bitmask 0)⟩).bitmask = e.bitmask := by
    refine BitVec.eq_of_getLsbD_eq fun v hv => ?_
    rw [Bool.eq_iff_iff, getLsbD_ofEntry hbounds hv, lists_runs, mem_versionsFrom_zero]
  show ProtoEntry.mk e.name _ = e
  exact congrArg (ProtoEntry.mk e.name) hmask

/-- What is encoded is read back. -/
theorem parse_encodeProtocolList {sl : List ProtoEntry} (hsl : ∀ e ∈ sl, Printable e)
    (hfull : ∀ e ∈ sl, e.bitmask ≠ BitVec.allOnes 64) :
    ∃ text, encodeProtocolList sl = some text ∧ parseProtocolList text = some sl := by
  let parts := sl.map fun e => part (versionsFrom e.bitmask 0) e.name
  have hencode : encodeProtocolList sl = some ([' '].intercalate parts) := by
    rw [encodeProtocolList, mapM_some fun e he => protoEntryEncodeInto_part (hfull e he)]
    rfl
  have hparts : ∀ t ∈ parts, ' ' ∉ t ∧ t ≠ [] := by
    intro t ht
    obtain ⟨e, he, rfl⟩ := List.mem_map.mp ht
    exact ⟨blank_notMem_part (hsl e he).name _, by simp [part]⟩
  have hplus : '+' ∉ [' '].intercalate parts := by
    intro hmem
    obtain ⟨t, ht, hc⟩ := mem_intercalate_blank (by decide) hmem
    obtain ⟨e, he, rfl⟩ := List.mem_map.mp ht
    rcases mem_part (hsl e he).name hc with h | h | h | h
    all_goals exact absurd h (by decide)
  have hhead := head_intercalate_blank hparts
  have hentry : ∀ e ∈ sl, (entry ∘ fun e => part (versionsFrom e.bitmask 0) e.name) e =
      some ⟨e.name, runs (versionsFrom e.bitmask 0)⟩ := by
    intro e he
    exact entry_part (hsl e he).name (versionsFrom_ne_nil (hsl e he).some_version) fun v hv => (mem_versionsFrom.mp hv).2.1
  refine ⟨_, hencode, ?_⟩
  rw [parseProtocolList_eq, if_neg hplus, entries_eq hhead, nonblank_intercalate hparts, List.mapM_map, mapM_some hentry,
    Option.map_some, List.map_map]
  exact congrArg some (List.map_id'' (fun e => ofEntry_runs) sl)

theorem encodeProtocolList_full {sl : List ProtoEntry} {e : ProtoEntry} (he : e ∈ sl)
    (h : e.bitmask = BitVec.allOnes 64) : encodeProtocolList sl = none := by
  rw [encodeProtocolList, mapM_eq_none he (protoEntryEncodeInto_full h)]
  rfl

/-! ## The vote -/

/-- The first entry of the name has the version. -/
def supports (protos : List ProtoEntry) (name : Text) (v : Nat) : Bool :=
  (findEntryByName protos name).any fun ent => ent.bitmask.getLsbD v

theorem supports_iff {protos : List ProtoEntry} {name : Text} {v : Nat} :
    supports protos name v = true ↔ ∃ e ∈ protos, findEntryByName protos name = some e ∧ e.name = name ∧
      e.bitmask.getLsbD v = true := by
  unfold supports
  cases hfind : findEntryByName protos name with
  | none => simp
  | some e =>
    have hmem := List.mem_of_find?_eq_some hfind
    have hname : e.name = name := by simpa using List.find?_some hfind
    rw [Option.any_some]
    constructor
    · intro hbit
      exact ⟨e, hmem, rfl, hname, hbit⟩
    · rintro ⟨e', -, he, -, hbit⟩
      cases he
      exact hbit

/-- How many of the strings that can be parsed have the version in their first entry of the name. -/
def supporters (lists : List Text) (name : Text) (v : Nat) : Nat :=
  (lists.filterMap parseProtocolList).countP fun es => supports es name v

/-- The string of the vote can be parsed and says what the threshold says, and no counter wraps. -/
def VoteRight (lists : List Text) (threshold : Int) : Prop :=
  (∃ text es, protoverComputeVote lists threshold = some text ∧ parseProtocolList text = some es ∧
    (es.map ProtoEntry.name).Nodup ∧
    ∀ name, ∀ v < 64, supports es name v = true ↔ threshold ≤ supporters lists name v) ∧
  ∀ name v, supporters lists name v < 256

section

variable {lists : List Text} {threshold : Int}

theorem supporters_lt (hlen : lists.length < 256) (name : Text) (v : Nat) : supporters lists name v < 256 := by
  have hle : supporters lists name v ≤ lists.length := List.countP_le_length.trans (List.length_filterMap_le _ _)
  omega

theorem countVotes_supporters (hlen : lists.length < 256) (name : Text) (v : Nat) :
    countVotes (lists.filterMap parseProtocolList) name v = supporters lists name v := by
  have hlt := supporters_lt hlen name v
  unfold supporters supports at *
  rw [countVotes, Nat.mod_eq_of_lt hlt]

/-- The bits of the result are the versions with enough supporters. -/
theorem getLsbD_result (hlen : lists.length < 256) {name : Text} {v : Nat} (hv : v < 64) :
    (resultBitmask (lists.filterMap parseProtocolList) threshold name).getLsbD v =
      decide (threshold ≤ supporters lists name v) := by
  unfold resultBitmask
  rw [getLsbD_foldl_or (fun i => (countVotes (lists.filterMap parseProtocolList) name i : Int) ≥ threshold) _ _ hv,
    show (0 : BitVec 64).getLsbD v = false from BitVec.getLsbD_zero, Bool.false_or, countVotes_supporters hlen,
    Bool.eq_iff_iff]
  simp [hv]

theorem parsed_names {s : Text} {es : List ProtoEntry} (h : parseProtocolList s = some es) :
    ∀ e ∈ es, isName e.name = true := by
  rw [parseProtocolList_eq] at h
  split at h
  · cases h
  obtain ⟨ents, hents, rfl⟩ := Option.map_eq_some_iff.mp h
  intro e he
  obtain ⟨ent, hent, rfl⟩ := List.mem_map.mp he
  exact entries_names hents ent hent

/-- The entries that the vote encodes. -/
def resultEntries (lists : List Text) (threshold : Int) : List ProtoEntry :=
  ((protoNames (lists.filterMap parseProtocolList)).insertionSort StrLe).filterMap fun name =>
    if resultBitmask (lists.filterMap parseProtocolList) threshold name ≠ 0 then
      some { name, bitmask := resultBitmask (lists.filterMap parseProtocolList) threshold name }
    else none

theorem mem_resultEntries {e : ProtoEntry} :
    e ∈ resultEntries lists threshold ↔
      e.name ∈ protoNames (lists.filterMap parseProtocolList) ∧
        e.bitmask = resultBitmask (lists.filterMap parseProtocolList) threshold e.name ∧ e.bitmask ≠ 0 := by
  rw [resultEntries, List.mem_filterMap]
  constructor
  · rintro ⟨name, hname, he⟩
    rw [List.mem_insertionSort] at hname
    split at he
    · rename_i hne
      cases he
      exact ⟨hname, by dsimp only, hne⟩
    · cases he
  · rintro ⟨hname, hmask, hne⟩
    refine ⟨e.name, (List.mem_insertionSort _).mpr hname, ?_⟩
    rw [← hmask, if_pos hne]

theorem mem_protoNames {name : Text} :
    name ∈ protoNames (lists.filterMap parseProtocolList) ↔
      ∃ es ∈ lists.filterMap parseProtocolList, ∃ e ∈ es, e.name = name := by
  rw [protoNames, (protoNames_spec _ [] List.nodup_nil).2]
  simp only [List.not_mem_nil, false_or, List.mem_map, List.mem_flatten]
  constructor
  · rintro ⟨e, ⟨es, hes, he⟩, rfl⟩
    exact ⟨es, hes, e, he, rfl⟩
  · rintro ⟨es, hes, e, he, rfl⟩
    exact ⟨e, ⟨es, hes, he⟩, rfl⟩

theorem nodup_resultEntries : ((resultEntries lists threshold).map ProtoEntry.name).Nodup := by
  have hnames : ((protoNames (lists.filterMap parseProtocolList)).insertionSort StrLe).Nodup :=
    (List.perm_insertionSort StrLe _).nodup_iff.mpr (protoNames_spec _ [] List.nodup_nil).1
  have hmap : ∀ names : List Text, ((names.filterMap fun name =>
      if resultBitmask (lists.filterMap parseProtocolList) threshold name ≠ 0 then
        some (ProtoEntry.mk name (resultBitmask (lists.filterMap parseProtocolList) threshold name))
      else none).map ProtoEntry.name) =
      names.filter fun name => resultBitmask (lists.filterMap parseProtocolList) threshold name ≠ 0 := by
    intro names
    induction names with
    | nil => rfl
    | cons name names ih =>
      by_cases h : resultBitmask (lists.filterMap parseProtocolList) threshold name ≠ 0
      · rw [List.filterMap_cons_some (by rw [if_pos h]), List.map_cons, ih, List.filter_cons_of_pos (by simpa using h)]
      · rw [List.filterMap_cons_none (by rw [if_neg h]), ih, List.filter_cons_of_neg (by simpa using h)]
  rw [resultEntries, hmap]
  exact hnames.filter _

theorem printable_resultEntries : ∀ e ∈ resultEntries lists threshold, Printable e := by
  intro e he
  obtain ⟨hname, -, hne⟩ := mem_resultEntries.mp he
  obtain ⟨es, hes, ent, hent, heq⟩ := mem_protoNames.mp hname
  obtain ⟨s, -, hs⟩ := List.mem_filterMap.mp hes
  exact ⟨heq ▸ parsed_names hs ent hent, hne⟩

/-- A name with a supporter is among the names that are collected. -/
theorem mem_protoNames_of_supporters {name : Text} {v : Nat} (h : 0 < supporters lists name v) :
    name ∈ protoNames (lists.filterMap parseProtocolList) := by
  obtain ⟨es, hes, hsup⟩ := List.countP_pos_iff.mp h
  obtain ⟨e, he, -, hname, -⟩ := supports_iff.mp hsup
  exact mem_protoNames.mpr ⟨es, hes, e, he, hname⟩

/-- The entries of the result list a version exactly if it has enough supporters. -/
theorem supports_resultEntries (hlen : lists.length < 256) (ht : 1 ≤ threshold) {name : Text} {v : Nat} (hv : v < 64) :
    supports (resultEntries lists threshold) name v = true ↔ threshold ≤ supporters lists name v := by
  constructor
  · intro h
    obtain ⟨e, he, -, rfl, hbit⟩ := supports_iff.mp h
    obtain ⟨-, hmask, -⟩ := mem_resultEntries.mp he
    rw [hmask, getLsbD_result hlen hv] at hbit
    exact of_decide_eq_true hbit
  · intro h
    have hpos : 0 < supporters lists name v := by omega
    have hbit : (resultBitmask (lists.filterMap parseProtocolList) threshold name).getLsbD v = true := by
      rw [getLsbD_result hlen hv]
      exact decide_eq_true h
    have hne : resultBitmask (lists.filterMap parseProtocolList) threshold name ≠ 0 := by
      intro hzero
      rw [hzero] at hbit
      simp at hbit
    have hmem : ProtoEntry.mk name (resultBitmask (lists.filterMap parseProtocolList) threshold name) ∈
        resultEntries lists threshold :=
      mem_resultEntries.mpr ⟨mem_protoNames_of_supporters hpos, by dsimp only, hne⟩
    obtain ⟨e, he⟩ : ∃ e, findEntryByName (resultEntries lists threshold) name = some e := by
      rw [← Option.isSome_iff_exists, findEntryByName, List.find?_isSome]
      exact ⟨_, hmem, decide_eq_true rfl⟩
    have hname : e.name = name := by simpa using List.find?_some he
    obtain ⟨-, hmask, -⟩ := mem_resultEntries.mp (List.mem_of_find?_eq_some he)
    refine supports_iff.mpr ⟨e, List.mem_of_find?_eq_some he, he, hname, ?_⟩
    rw [hmask, hname]
    exact hbit

theorem protoverComputeVote_result (hlen : lists.length < 256) :
    protoverComputeVote lists threshold = encodeProtocolList (resultEntries lists threshold) := by
  unfold protoverComputeVote
  rw [if_neg (not_not.mpr hlen)]
  by_cases hnil : lists.length = 0
  · rw [if_pos hnil, List.length_eq_zero_iff.mp hnil]
    rfl
  · rw [if_neg hnil]
    rfl

/-- The vote is right exactly if no name gets enough votes for every version there is. -/
theorem vote_right_iff (hlen : lists.length < 256) (ht : 1 ≤ threshold) :
    VoteRight lists threshold ↔ ∀ name, ∃ v < 64, supporters lists name v < threshold := by
  constructor
  · rintro ⟨⟨text, es, hvote, -⟩, -⟩ name
    by_contra hno
    have hall : ∀ v < 64, threshold ≤ supporters lists name v := by
      intro v hv
      by_contra hlt
      exact hno ⟨v, hv, by omega⟩
    have hmask : resultBitmask (lists.filterMap parseProtocolList) threshold name = BitVec.allOnes 64 := by
      refine BitVec.eq_of_getLsbD_eq fun v hv => ?_
      rw [getLsbD_result hlen hv, BitVec.getLsbD_allOnes, decide_eq_true (hall v hv), decide_eq_true hv]
    have hzero := hall 0 (by decide)
    have hpos : 0 < supporters lists name 0 := by omega
    have hones : BitVec.allOnes 64 ≠ 0 := by decide
    have hmem : ProtoEntry.mk name (BitVec.allOnes 64) ∈ resultEntries lists threshold :=
      mem_resultEntries.mpr ⟨mem_protoNames_of_supporters hpos, hmask.symm, hones⟩
    rw [protoverComputeVote_result hlen, encodeProtocolList_full hmem rfl] at hvote
    cases hvote
  · intro h
    have hfull : ∀ e ∈ resultEntries lists threshold, e.bitmask ≠ BitVec.allOnes 64 := by
      intro e he hones
      obtain ⟨-, hmask, -⟩ := mem_resultEntries.mp he
      obtain ⟨v, hv, hlt⟩ := h e.name
      have hbit := @getLsbD_result lists threshold hlen e.name v hv
      rw [← hmask, hones, BitVec.getLsbD_allOnes, decide_eq_true hv] at hbit
      have hle := of_decide_eq_true hbit.symm
      omega
    obtain ⟨text, htext, hparse⟩ := parse_encodeProtocolList printable_resultEntries hfull
    refine ⟨⟨text, resultEntries lists threshold, ?_, hparse, nodup_resultEntries, fun name v hv => ?_⟩,
      supporters_lt hlen⟩
    · rw [protoverComputeVote_result hlen, htext]
    · exact supports_resultEntries hlen ht hv

end

/-- `Link=1-63`. -/
def nearlyFullRange : Text := ['L', 'i', 'n', 'k', '=', '1', '-', '6', '3']

theorem vote_right_from_version_one : VoteRight [nearlyFullRange] 1 := by
  refine (vote_right_iff (by decide) (by decide)).mpr fun name => ⟨0, by decide, ?_⟩
  have hparse : [nearlyFullRange].filterMap parseProtocolList =
      [[⟨protocolTypeToStr .Link, 18446744073709551614#64⟩]] := by decide +kernel
  have hnone : ¬0 < supporters [nearlyFullRange] name 0 := by
    intro hpos
    obtain ⟨es, hes, hsup⟩ := List.countP_pos_iff.mp hpos
    rw [hparse, List.mem_singleton] at hes
    subst hes
    obtain ⟨e, he, -, -, hbit⟩ := supports_iff.mp hsup
    rw [List.mem_singleton.mp he] at hbit
    revert hbit
    decide
  omega

/-- `Link=0-63`. -/
def fullRange : Text := ['L', 'i', 'n', 'k', '=', '0', '-', '6', '3']

theorem a_full_range_has_no_encoding :
    ¬∀ (lists : List Text) (threshold : Int), lists.length < 256 → 1 ≤ threshold → VoteRight lists threshold := by
  intro hclaim
  obtain ⟨⟨text, es, hvote, -⟩, -⟩ := hclaim [fullRange] 1 (by decide) (by decide)
  have hnone : protoverComputeVote [fullRange] 1 = none := by decide +kernel
  rw [hnone] at hvote
  cases hvote

end C

end Badnet.Protover
