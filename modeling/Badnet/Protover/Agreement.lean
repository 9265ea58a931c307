/-
  Badnet.Protover.Agreement — when the readers in C and in Rust agree on a list.

  The reader in Rust takes the lists of the grammar with single blanks whose entries list their versions once and not
  version 0 (`Rust.fromStr_eq`). With what the reader in C takes, this gives the texts on which they agree
  (`readers_agree_iff`).
-/

import Mathlib.Data.List.Pairwise
import Badnet.Protover.Grammar

namespace Badnet.Protover

open Lib Encoding

/-- The ranges have no version in common. -/
def Apart (r r' : Nat × Nat) : Prop := r.2 < r'.1 ∨ r'.2 < r.1

instance : DecidableRel Apart := fun r r' => inferInstanceAs (Decidable (r.2 < r'.1 ∨ r'.2 < r.1))

instance : Std.Symm Apart where
  symm _ _ := Or.symm

variable (rs : List (Nat × Nat))

/-- No version 0, and two ranges are the same or apart. -/
def RangesOk : Prop := (∀ r ∈ rs, 0 < r.1) ∧ ∀ r ∈ rs, ∀ r' ∈ rs, r = r' ∨ Apart r r'

instance (rs : List (Nat × Nat)) : Decidable (RangesOk rs) := inferInstanceAs (Decidable (_ ∧ _))

/-- One blank between entries and none at the end. -/
def SingleSpaced (s : Text) : Prop := s = [] ∨ [] ∉ s.splitOn ' '

instance (s : Text) : Decidable (SingleSpaced s) := inferInstanceAs (Decidable (_ ∨ _))

namespace Rust

/-! ## `Except` and `Option` -/

@[simp] theorem toOption_ok {ε α : Type} (a : α) : (Except.ok a : Except ε α).toOption = some a := rfl

@[simp] theorem toOption_pure {ε α : Type} (a : α) : (pure a : Except ε α).toOption = some a := rfl

@[simp] theorem toOption_error {ε α : Type} (e : ε) : (Except.error e : Except ε α).toOption = none := rfl

theorem toOption_bind {ε α β : Type} (x : Except ε α) (f : α → Except ε β) :
    (x >>= f).toOption = x.toOption.bind fun a => (f a).toOption := by
  cases x with
  | error e => rfl
  | ok a => rfl

theorem toOption_map {ε α β : Type} (x : Except ε α) (f : α → β) : (x.map f).toOption = x.toOption.map f := by
  cases x with
  | error e => rfl
  | ok a => rfl

theorem toOption_mapM {ε α β : Type} (f : α → Except ε β) (l : List α) :
    (l.mapM f).toOption = l.mapM fun a => (f a).toOption := by
  induction l with
  | nil => rfl
  | cons a l ih =>
    rw [List.mapM_cons, mapM_cons_eq, toOption_bind]
    congr 1
    funext b
    rw [toOption_bind, ih]
    cases l.mapM fun a => (f a).toOption with
    | none => rfl
    | some bs => rfl

/-! ## A set of versions -/

theorem number_eq (q : Text) : number q = (parseU32 q).toOption.filter fun v => v ≤ MAX_PROTOCOL_VERSION := by
  unfold number parseU32
  simp only
  generalize (if q.head? = some '+' then q.tail else q) = digits
  by_cases h : digits ≠ [] ∧ digits.all Char.isDigit = true ∧ Nat.ofDigitChars 10 digits 0 ≤ U32_MAX
  · rw [if_pos h]
    by_cases hv : Nat.ofDigitChars 10 digits 0 ≤ MAX_PROTOCOL_VERSION
    · rw [if_pos ⟨h.1, h.2.1, hv⟩]
      simp [Except.toOption, Option.filter, hv]
    · rw [if_neg fun h' => hv h'.2.2]
      simp [Except.toOption, Option.filter, hv]
  · rw [if_neg h, if_neg]
    · rfl
    · rintro ⟨h1, h2, h3⟩
      exact h ⟨h1, h2, Nat.le_trans h3 (by decide)⟩

theorem parsePiece_eq (p : Text) : (ProtoSet.parsePiece p).toOption = bounds p := by
  have hcheck : ∀ lo hi : Nat, (if lo > MAX_PROTOCOL_VERSION ∨ hi > MAX_PROTOCOL_VERSION then
      Except.error ProtoverError.ExceedsMax else Except.ok (lo, hi)).toOption =
        if lo ≤ MAX_PROTOCOL_VERSION ∧ hi ≤ MAX_PROTOCOL_VERSION then some (lo, hi) else none := by
    intro lo hi
    by_cases h : lo ≤ MAX_PROTOCOL_VERSION ∧ hi ≤ MAX_PROTOCOL_VERSION
    · rw [if_pos h, if_neg (by omega), toOption_ok]
    · rw [if_neg h, if_pos (by omega), toOption_error]
  unfold ProtoSet.parsePiece bounds
  by_cases hdash : '-' ∈ p
  · simp only [hdash, if_true, splitn2, Option.elim_some, number_eq, toOption_bind, toOption_ok, toOption_pure,
      Option.bind_some, hcheck]
    cases (parseU32 (p.takeWhile (· ≠ '-'))).toOption with
    | none => rfl
    | some lo =>
      cases (parseU32 (p.dropWhile (· ≠ '-')).tail).toOption with
      | none => by_cases hlo : lo ≤ MAX_PROTOCOL_VERSION <;> simp [Option.filter, hlo]
      | some hi =>
        by_cases hlo : lo ≤ MAX_PROTOCOL_VERSION
        · by_cases hhi : hi ≤ MAX_PROTOCOL_VERSION <;> simp [Option.filter, hlo, hhi]
        · simp [Option.filter, hlo]
  · simp only [hdash, if_false, number_eq, toOption_bind, toOption_pure, Option.bind_some, hcheck, and_self]
    cases (parseU32 p).toOption with
    | none => rfl
    | some v => by_cases hv : v ≤ MAX_PROTOCOL_VERSION <;> simp [Option.filter, hv]

namespace ProtoSet

section

variable {α : Type} [DecidableEq α]

theorem mem_dedup {l : List α} {x : α} : x ∈ dedup l ↔ x ∈ l := by
  induction l with
  | nil => rfl
  | cons a l ih =>
    rw [dedup, List.mem_cons, ← ih]
    cases dedup l with
    | nil => simp
    | cons b l' =>
      by_cases hab : a = b
      · subst hab
        simp
      · simp [hab]

/-- Of a sorted list, no element stays twice. -/
theorem pairwise_dedup {R : α → α → Prop} (hanti : ∀ a b, R a b → R b a → a = b) {l : List α} (h : l.Pairwise R) :
    (dedup l).Pairwise fun a b => R a b ∧ a ≠ b := by
  induction h with
  | nil => exact List.Pairwise.nil
  | @cons a l ha _ ih =>
    rw [dedup]
    have hmem : ∀ x ∈ dedup l, R a x := fun x hx => ha x (mem_dedup.mp hx)
    cases hd : dedup l with
    | nil => exact List.pairwise_singleton _ _
    | cons b l' =>
      rw [hd] at ih hmem
      simp only
      by_cases hab : a = b
      · rw [if_pos hab]
        exact ih
      · rw [if_neg hab]
        refine List.pairwise_cons.mpr ⟨fun x hx => ⟨hmem x hx, fun e => hab ?_⟩, ih⟩
        subst e
        rcases List.mem_cons.mp hx with rfl | hx
        · rfl
        · have hba := (List.pairwise_cons.mp ih).1 a hx
          exact hanti a b (hmem b List.mem_cons_self) hba.1

end

theorem isOkLoop_iff {lastHigh : Nat} {l : List (Nat × Nat)} (hmax : ∀ r ∈ l, r.1 < U32_MAX ∧ r.2 < U32_MAX) :
    isOkLoop lastHigh l = .ok () ↔ (∀ r ∈ l, lastHigh < r.1 ∧ r.1 ≤ r.2) ∧ l.Pairwise fun r r' => r.2 < r'.1 := by
  induction l generalizing lastHigh with
  | nil => simp [isOkLoop]
  | cons r l ih =>
    obtain ⟨hr, hl⟩ := List.forall_mem_cons.mp hmax
    rw [isOkLoop, if_neg (by omega), List.forall_mem_cons, List.pairwise_cons]
    by_cases h1 : r.1 ≤ lastHigh
    · rw [if_pos h1]
      exact ⟨nofun, fun h => absurd h.1.1.1 (by omega)⟩
    · rw [if_neg h1]
      by_cases h2 : r.1 > r.2
      · rw [if_pos h2]
        exact ⟨nofun, fun h => absurd h.1.1.2 (by omega)⟩
      · rw [if_neg h2, ih hl]
        constructor
        · rintro ⟨h, hp⟩
          exact ⟨⟨⟨by omega, by omega⟩, fun x hx => ⟨by have := h x hx; omega, (h x hx).2⟩⟩, fun x hx => (h x hx).1, hp⟩
        · rintro ⟨⟨-, h⟩, hlt, hp⟩
          exact ⟨fun x hx => ⟨hlt x hx, (h x hx).2⟩, hp⟩

/-- The pairs of a set. -/
def sorted : List (Nat × Nat) := dedup (rs.insertionSort PairLe)

theorem mem_sorted {rs : List (Nat × Nat)} {r : Nat × Nat} : r ∈ sorted rs ↔ r ∈ rs := by
  rw [sorted, mem_dedup, (List.perm_insertionSort PairLe rs).mem_iff]

instance : Std.Total PairLe where
  total a b := by
    unfold PairLe
    omega

instance : IsTrans (Nat × Nat) PairLe where
  trans a b c := by
    unfold PairLe
    omega

theorem pairwise_sorted : (sorted rs).Pairwise fun a b => PairLe a b ∧ a ≠ b := by
  refine pairwise_dedup (fun a b hab hba => ?_) (List.pairwise_insertionSort PairLe rs)
  unfold PairLe at hab hba
  exact Prod.ext (by omega) (by omega)

/-- Ranges are taken as a set exactly if they are apart and without version 0. -/
theorem fromSlice_eq {rs : List (Nat × Nat)} (hmax : ∀ r ∈ rs, r.1 ≤ MAX_PROTOCOL_VERSION ∧ r.2 ≤ MAX_PROTOCOL_VERSION) :
    (fromSlice rs).toOption = if (∀ r ∈ rs, r.1 ≤ r.2) ∧ RangesOk rs then some ⟨sorted rs⟩ else none := by
  have hmax' : ∀ r ∈ sorted rs, r.1 < U32_MAX ∧ r.2 < U32_MAX := by
    intro r hr
    obtain ⟨h1, h2⟩ := hmax r (mem_sorted.mp hr)
    exact ⟨Nat.lt_of_le_of_lt h1 (by decide), Nat.lt_of_le_of_lt h2 (by decide)⟩
  have hiff : isOkLoop 0 (sorted rs) = .ok () ↔ (∀ r ∈ rs, r.1 ≤ r.2) ∧ RangesOk rs := by
    rw [isOkLoop_iff hmax']
    constructor
    · rintro ⟨hall, hpair⟩
      refine ⟨fun r hr => (hall r (mem_sorted.mpr hr)).2, fun r hr => (hall r (mem_sorted.mpr hr)).1, ?_⟩
      intro r hr r' hr'
      by_cases he : r = r'
      · exact .inl he
      · -- one of the two stands before the other
        have hap : (sorted rs).Pairwise Apart := hpair.imp fun h => .inl h
        exact .inr (hap.forall (mem_sorted.mpr hr) (mem_sorted.mpr hr') he)
    · rintro ⟨hle, hpos, hapart⟩
      refine ⟨fun r hr => ⟨hpos r (mem_sorted.mp hr), hle r (mem_sorted.mp hr)⟩, ?_⟩
      refine (pairwise_sorted rs).imp_of_mem fun {a b} ha hb hab => ?_
      rcases hapart a (mem_sorted.mp ha) b (mem_sorted.mp hb) with he | h | h
      · exact absurd he hab.2
      · exact h
      · have h1 := hle b (mem_sorted.mp hb)
        have h2 := hab.1
        unfold PairLe at h2
        omega
  show ((isOkLoop 0 (sorted rs)).map fun _ => (⟨sorted rs⟩ : ProtoSet)).toOption = _
  rw [toOption_map]
  by_cases h : (∀ r ∈ rs, r.1 ≤ r.2) ∧ RangesOk rs
  · rw [if_pos h, hiff.mpr h]
    rfl
  · rw [if_neg h]
    cases ho : isOkLoop 0 (sorted rs) with
    | error e => rfl
    | ok u => exact absurd (hiff.mp ho) h

theorem contains_sorted (v : Nat) : contains ⟨sorted rs⟩ v = rs.any fun r => r.1 ≤ v ∧ v ≤ r.2 := by
  rw [Bool.eq_iff_iff, contains, List.any_eq_true, List.any_eq_true]
  simp only [mem_sorted]

theorem fromStr_eq (v : Text) :
    (ProtoSet.fromStr v).toOption = (ranges v).bind fun rs => if RangesOk rs then some ⟨sorted rs⟩ else none := by
  unfold ProtoSet.fromStr ranges
  by_cases hv : v = []
  · rw [if_pos hv, if_pos hv]
    rfl
  · rw [if_neg hv, if_neg hv, toOption_bind, toOption_mapM]
    simp only [parsePiece_eq]
    cases hb : (v.splitOn ',').mapM bounds with
    | none =>
      have hnone : (v.splitOn ',').mapM range = none := by
        rw [Option.eq_none_iff_forall_ne_some]
        intro rs hrs
        rw [(mapM_range.mp hrs).1] at hb
        cases hb
      rw [hnone]
      rfl
    | some rs =>
      have hmax : ∀ r ∈ rs, r.1 ≤ MAX_PROTOCOL_VERSION ∧ r.2 ≤ MAX_PROTOCOL_VERSION := by
        intro r hr
        obtain ⟨p, -, hp⟩ := mem_mapM hb r hr
        exact bounds_le hp
      rw [Option.bind_some, fromSlice_eq hmax]
      by_cases hle : ∀ r ∈ rs, r.1 ≤ r.2
      · rw [mapM_range.mpr ⟨hb, hle⟩, Option.bind_some]
        by_cases hok : RangesOk rs
        · rw [if_pos hok, if_pos ⟨hle, hok⟩]
        · rw [if_neg hok, if_neg fun h => hok h.2]
      · have hnone : (v.splitOn ',').mapM range = none := by
          rw [Option.eq_none_iff_forall_ne_some]
          intro rs' hrs
          obtain ⟨hb', hle'⟩ := mapM_range.mp hrs
          rw [hb] at hb'
          cases hb'
          exact hle hle'
        rw [hnone, if_neg fun h => hle h.1]
        rfl

end ProtoSet

/-! ## A list of entries -/

/-- A name and its set. -/
def ofEntry (e : Entry) : Text × ProtoSet := (e.name, ⟨ProtoSet.sorted e.ranges⟩)

/-- A piece between blanks, as `parse_protocol_and_version_str` and the loop of `from_str`
    read it. -/
def parsePart (subproto : Text) : Option (Text × ProtoSet) :=
  (entry subproto).bind fun e => if RangesOk e.ranges then some (ofEntry e) else none

theorem unknownProtocolFromStr_eq {n : Text} (hn : n ≠ []) :
    (unknownProtocolFromStr n).toOption = if isName n = true then some n else none := by
  unfold unknownProtocolFromStr
  by_cases hall : n.all (fun c => c.isAlphanum ∨ c = '-') = true
  · rw [if_neg (not_not.mpr hall)]
    by_cases hlen : n.length ≤ MAX_PROTOCOL_NAME_LENGTH
    · rw [if_pos hlen, if_pos (show isName n = true from decide_eq_true ⟨hn, hlen, hall⟩), toOption_ok]
    · rw [if_neg hlen, if_neg fun h => hlen (of_decide_eq_true h).2.1, toOption_error]
  · rw [if_pos hall, if_neg fun h => hall (of_decide_eq_true h).2.2, toOption_error]

theorem splitn2_sep {sep : Char} {p t : Text} (h : sep ∉ p) : splitn2 sep (p ++ sep :: t) = (p, some t) := by
  unfold splitn2
  rw [takeWhile_sep h, dropWhile_sep h, if_pos (by simp)]
  rfl

theorem splitn2_none {sep : Char} {p : Text} (h : sep ∉ p) : (splitn2 sep p).2 = none := if_neg h

/-- The parts of a piece, then its versions and its name. -/
theorem part_eq (subproto : Text) :
    ((nameAndVersions subproto).toOption.bind fun part =>
      (ProtoSet.fromStr part.2).toOption.bind fun versions =>
        (unknownProtocolFromStr part.1).toOption.map fun protocol => (protocol, versions)) = parsePart subproto := by
  unfold nameAndVersions
  unfold parsePart entry
  by_cases heq : '=' ∈ subproto
  · obtain ⟨n, v, rfl, hn⟩ := List.eq_append_cons_of_mem heq
    rw [splitn2_sep hn, takeWhile_sep hn, dropWhile_sep hn, List.tail_cons]
    cases n with
    | nil => simp [isName]
    | cons c n =>
      simp only [toOption_ok, Option.bind_some, ProtoSet.fromStr_eq,
        unknownProtocolFromStr_eq (List.cons_ne_nil c n)]
      by_cases hname : isName (c :: n) = true
      · rw [if_pos hname, if_pos ⟨heq, hname⟩]
        cases ranges v with
        | none => rfl
        | some rs =>
          by_cases hok : RangesOk rs <;> simp [hok, ofEntry]
      · rw [if_neg hname, if_neg fun h => hname h.2]
        cases ranges v with
        | none => rfl
        | some rs => by_cases hok : RangesOk rs <;> simp [hok]
  · rw [if_neg fun h => heq h.1]
    have hnone := splitn2_none heq
    generalize splitn2 '=' subproto = q at hnone
    rcases q with ⟨_ | ⟨c, n⟩, o⟩
    · rfl
    · cases hnone
      rfl

theorem bind_map_eq {α β γ : Type} (x : Option α) (f : α → Option β) (g : β → γ) :
    (x.bind fun a => (f a).map g) = (x.bind f).map g := by
  cases x with
  | none => rfl
  | some a => rfl

theorem mapM_parsePart (l : List Text) :
    l.mapM parsePart = (l.mapM entry).bind fun es =>
      if ∀ e ∈ es, RangesOk e.ranges then some (es.map ofEntry) else none := by
  induction l with
  | nil => rfl
  | cons p l ih =>
    rw [mapM_cons_eq, mapM_cons_eq, ih, parsePart]
    cases entry p with
    | none => rfl
    | some e =>
      cases l.mapM entry with
      | none => by_cases he : RangesOk e.ranges <;> simp [he]
      | some es =>
        by_cases he : RangesOk e.ranges
        · by_cases hes : ∀ x ∈ es, RangesOk x.ranges
          · have hall : ∀ x ∈ e :: es, RangesOk x.ranges := List.forall_mem_cons.mpr ⟨he, hes⟩
            simp only [Option.bind_some, Option.map_some, if_pos he, if_pos hes, if_pos hall, List.map_cons]
          · have hall : ¬ ∀ x ∈ e :: es, RangesOk x.ranges := fun h => hes (List.forall_mem_cons.mp h).2
            simp only [Option.bind_some, Option.map_some, if_pos he, if_neg hes, if_neg hall, Option.map_none]
        · have hall : ¬ ∀ x ∈ e :: es, RangesOk x.ranges := fun h => he (List.forall_mem_cons.mp h).1
          simp only [Option.bind_some, Option.map_some, if_neg he, if_neg hall, Option.bind_none]

variable (m : UnvalidatedProtoEntry) (es : List (Text × ProtoSet))

/-- The map of a list of entries: each in turn. -/
def insertAll : UnvalidatedProtoEntry :=
  es.foldl (fun m e => HashMap.insert m e.1 e.2) m

theorem foldlM_insert (parts : List (Text × Text)) (m : UnvalidatedProtoEntry) :
    (parts.foldlM (fun (parsed : UnvalidatedProtoEntry) (part : Text × Text) => do
      let versions ← ProtoSet.fromStr part.2
      let protocol ← unknownProtocolFromStr part.1
      pure (HashMap.insert parsed protocol versions)) m).toOption =
      (parts.mapM fun part => (ProtoSet.fromStr part.2).toOption.bind fun versions =>
        (unknownProtocolFromStr part.1).toOption.map fun protocol => (protocol, versions)).map (insertAll m) := by
  induction parts generalizing m with
  | nil => rfl
  | cons part parts ih =>
    rw [List.foldlM_cons, toOption_bind, mapM_cons_eq]
    simp only [toOption_bind, toOption_pure, ih]
    cases (ProtoSet.fromStr part.2).toOption with
    | none => rfl
    | some versions =>
      cases (unknownProtocolFromStr part.1).toOption with
      | none => rfl
      | some protocol =>
        simp only [Option.bind_some, Option.map_some, Option.map_map]
        rfl

theorem not_mem_nil_words {s : Text} (hs : [] ∉ s.splitOn ' ') : words s = s.splitOn ' ' := by
  obtain ⟨a, l, hl⟩ := List.exists_cons_of_ne_nil (List.splitOn_ne_nil ' ' s)
  rw [hl] at hs
  rw [words, hl]
  have hfilter : l.filter (· ≠ []) = l := by
    rw [List.filter_eq_self]
    intro x hx
    exact decide_eq_true fun e => hs (List.mem_cons_of_mem _ (e ▸ hx))
  rw [List.drop_one, List.tail_cons, hfilter]
  rfl

/-- The reader in Rust takes the single-spaced lists whose entries have their versions once
    and not version 0. -/
theorem fromStr_eq (s : Text) :
    (UnvalidatedProtoEntry.fromStr s).toOption =
      if SingleSpaced s then
        (entries s).bind fun es =>
          if ∀ e ∈ es, RangesOk e.ranges then some (insertAll [] (es.map ofEntry)) else none
      else none := by
  unfold UnvalidatedProtoEntry.fromStr parseProtocolAndVersionStr
  by_cases hs : s = []
  · subst hs
    rfl
  · rw [if_neg hs, toOption_bind, toOption_mapM]
    simp only [foldlM_insert]
    rw [bind_map_eq, mapM_bind_mapM]
    simp only [part_eq]
    by_cases hnil : [] ∈ s.splitOn ' '
    · rw [if_neg (by rintro (h | h); exacts [hs h, h hnil])]
      rw [mapM_eq_none hnil (by simp [parsePart, entry])]
      rfl
    · rw [if_pos (show SingleSpaced s from .inr hnil), entries, if_neg hs, not_mem_nil_words hnil, mapM_parsePart]
      cases (s.splitOn ' ').mapM entry with
      | none => rfl
      | some es => by_cases hes : ∀ e ∈ es, RangesOk e.ranges <;> simp [hes]

/-- The last entry with the name counts. -/
theorem get_insertAll (n : Text) :
    HashMap.get (insertAll m es) n = ((es.reverse.find? fun e => e.1 = n).map (·.2)).or (HashMap.get m n) := by
  induction es generalizing m with
  | nil => rfl
  | cons e es ih =>
    have hfold : insertAll m (e :: es) = insertAll (HashMap.insert m e.1 e.2) es := rfl
    rw [hfold, ih, HashMap.get_insert, List.reverse_cons, List.find?_append]
    cases es.reverse.find? fun e => e.1 = n with
    | some x => rfl
    | none =>
      by_cases he : e.1 = n
      · simp [he]
      · simp [he]

/-- With every name once, the map has the entries, the last one first. -/
theorem insertAll_eq {m : UnvalidatedProtoEntry} {es : List (Text × ProtoSet)} (hes : (es.map Prod.fst).Nodup)
    (hm : ∀ e ∈ es, e.1 ∉ m.map Prod.fst) : insertAll m es = es.reverse ++ m := by
  induction es generalizing m with
  | nil => rfl
  | cons e es ih =>
    obtain ⟨hm, hrest⟩ := List.forall_mem_cons.mp hm
    obtain ⟨he, hes⟩ := List.nodup_cons.mp hes
    have hins : HashMap.insert m e.1 e.2 = e :: m := by
      unfold HashMap.insert
      rw [List.filter_eq_self.mpr]
      intro x hx
      exact decide_eq_true fun hxe => hm (hxe ▸ List.mem_map_of_mem hx)
    have hfold : insertAll m (e :: es) = insertAll (e :: m) es := by
      rw [← hins]
      rfl
    rw [hfold, ih hes, List.reverse_cons, List.append_assoc, List.singleton_append]
    intro x hx hxm
    rcases List.mem_cons.mp hxm with hxe | hxm
    · exact he (hxe ▸ List.mem_map_of_mem hx)
    · exact hrest x hx hxm

end Rust

/-! ## Versions -/

namespace C

theorem getLsbD_bitmaskForRange {lo hi i : Nat} (hlo : lo ≤ hi) (hhi : hi ≤ 63) (hi' : i < 64) :
    (bitmaskForRange lo hi).getLsbD i = decide (lo ≤ i ∧ i ≤ hi) := by
  unfold bitmaskForRange
  simp only [BitVec.getLsbD_shiftLeft, BitVec.getLsbD_ushiftRight, BitVec.getLsbD_allOnes]
  rw [Bool.eq_iff_iff]
  simp only [hi', Bool.and_eq_true, decide_eq_true_eq, Bool.not_eq_true', decide_eq_false_iff_not, true_and]
  omega

theorem getLsbD_orRanges {mask : BitVec 64} {rs : List (Nat × Nat)} (hrs : ∀ r ∈ rs, r.1 ≤ r.2 ∧ r.2 ≤ MAX_PROTOCOL_VERSION)
    {i : Nat} (hi : i < 64) :
    (orRanges mask rs).getLsbD i = (mask.getLsbD i || rs.any fun r => r.1 ≤ i ∧ i ≤ r.2) := by
  induction rs generalizing mask with
  | nil => simp [orRanges]
  | cons r rs ih =>
    obtain ⟨hr, hrs⟩ := List.forall_mem_cons.mp hrs
    have hfold : orRanges mask (r :: rs) = orRanges (mask ||| bitmaskForRange r.1 r.2) rs := rfl
    rw [hfold, ih hrs, BitVec.getLsbD_or, getLsbD_bitmaskForRange hr.1 hr.2 hi, List.any_cons, Bool.or_assoc]

end C

theorem getLsbD_ofEntry {e : Entry} (he : ∀ r ∈ e.ranges, r.1 ≤ r.2 ∧ r.2 ≤ MAX_PROTOCOL_VERSION) {v : Nat} (hv : v < 64) :
    (C.ofEntry e).bitmask.getLsbD v = e.lists v := by
  show (C.orRanges 0 e.ranges).getLsbD v = _
  rw [C.getLsbD_orRanges he hv]
  simp [Entry.lists]

/-! ## When the readers agree -/

/-- The entry with the name that counts in C. -/
def firstLists (es : List Entry) (name : Text) (v : Nat) : Bool := (es.find? fun e => e.name = name).any fun e => e.lists v

/-- The entry with the name that counts in Rust. -/
def lastLists (es : List Entry) (name : Text) (v : Nat) : Bool :=
  (es.reverse.find? fun e => e.name = name).any fun e => e.lists v

theorem c_supports {s : Text} {es : List Entry} (hes : entries s = some es) (hplus : '+' ∉ s) (p : Protocol) {v : Nat}
    (hv : v ≤ MAX_PROTOCOL_VERSION) :
    C.protocolListSupportsProtocol s p v = firstLists es (C.protocolTypeToStr p) v := by
  have hb := entries_bounds hes
  have hv64 : v < 64 := Nat.lt_succ_of_le hv
  unfold C.protocolListSupportsProtocol C.protocolListContains C.findEntryByName firstLists
  rw [C.parseProtocolList_eq, if_neg hplus, hes]
  simp only [Option.map_some, if_neg (Nat.not_lt.mpr hv), List.find?_map]
  have hname : ((fun ent : C.ProtoEntry => decide (ent.name = C.protocolTypeToStr p)) ∘ C.ofEntry) =
      fun e => decide (e.name = C.protocolTypeToStr p) := rfl
  rw [hname]
  cases hf : es.find? fun e => e.name = C.protocolTypeToStr p with
  | none => rfl
  | some e => exact getLsbD_ofEntry (hb e (List.mem_of_find?_eq_some hf)) hv64

theorem protocolToString_eq (p : Protocol) : Rust.protocolToString p = C.protocolTypeToStr p := by
  cases p <;> rfl

theorem rust_supports {s : Text} {es : List Entry} (hes : entries s = some es) (hs : SingleSpaced s)
    (hok : ∀ e ∈ es, RangesOk e.ranges) (p : Protocol) (v : Nat) :
    Rust.protocolListSupportsProtocol s p v = lastLists es (C.protocolTypeToStr p) v := by
  have hparse := Rust.fromStr_eq s
  rw [if_pos hs, hes, Option.bind_some, if_pos hok] at hparse
  unfold Rust.protocolListSupportsProtocol lastLists
  cases hfrom : Rust.UnvalidatedProtoEntry.fromStr s with
  | error e =>
    rw [hfrom] at hparse
    cases hparse
  | ok m =>
    rw [hfrom] at hparse
    cases hparse
    simp only [Rust.UnvalidatedProtoEntry.supportsProtocol, Rust.get_insertAll, ← List.map_reverse, List.find?_map,
      protocolToString_eq]
    have hname : ((fun e : Text × Rust.ProtoSet => decide (e.1 = C.protocolTypeToStr p)) ∘ Rust.ofEntry) =
        fun e => decide (e.name = C.protocolTypeToStr p) := rfl
    rw [hname]
    cases es.reverse.find? fun e => e.name = C.protocolTypeToStr p with
    | none => rfl
    | some e => exact Rust.ProtoSet.contains_sorted e.ranges v

/-- The condition for the readers to agree on a text: it is no list of the grammar, or it
    has a plus sign and something else that Rust refuses, or neither, and then the first
    and the last entry of a known protocol list the same versions. -/
def Agree (s : Text) : Prop :=
  ∀ es, entries s = some es →
    ('+' ∉ s ↔ SingleSpaced s ∧ ∀ e ∈ es, RangesOk e.ranges) ∧
    ('+' ∉ s → ∀ p : Protocol, ∀ v ≤ MAX_PROTOCOL_VERSION,
      firstLists es (C.protocolTypeToStr p) v = lastLists es (C.protocolTypeToStr p) v)

/-- One reader takes a text if and only if the other does, and then finds the same
    versions of the known protocols, exactly under `Agree`. -/
theorem readers_agree_iff (s : Text) :
    (((C.parseProtocolList s).isSome ↔ (Rust.UnvalidatedProtoEntry.fromStr s).toOption.isSome) ∧
      ((C.parseProtocolList s).isSome → (Rust.UnvalidatedProtoEntry.fromStr s).toOption.isSome →
        ∀ p : Protocol, ∀ v ≤ MAX_PROTOCOL_VERSION,
          C.protocolListSupportsProtocol s p v = Rust.protocolListSupportsProtocol s p v)) ↔ Agree s := by
  rw [C.parseProtocolList_eq, Rust.fromStr_eq]
  unfold Agree
  cases hes : entries s with
  | none =>
    simp
  | some es =>
    have hc : (if '+' ∈ s then none else (some es).map (List.map C.ofEntry)).isSome = true ↔ '+' ∉ s := by
      by_cases hplus : '+' ∈ s <;> simp [hplus]
    have hr : (if SingleSpaced s then (some es).bind fun es =>
          if ∀ e ∈ es, RangesOk e.ranges then some (Rust.insertAll [] (es.map Rust.ofEntry)) else none
        else none).isSome = true ↔ SingleSpaced s ∧ ∀ e ∈ es, RangesOk e.ranges := by
      by_cases hs : SingleSpaced s
      · by_cases hok : ∀ e ∈ es, RangesOk e.ranges
        · rw [if_pos hs, Option.bind_some, if_pos hok]
          exact iff_of_true rfl ⟨hs, hok⟩
        · rw [if_pos hs, Option.bind_some, if_neg hok]
          exact iff_of_false (by simp) fun h => hok h.2
      · rw [if_neg hs]
        exact iff_of_false (by simp) fun h => hs h.1
    rw [hc, hr]
    constructor
    · rintro ⟨hiff, hsup⟩ es' he
      cases he
      refine ⟨hiff, fun hplus p v hv => ?_⟩
      obtain ⟨hs, hok⟩ := hiff.mp hplus
      rw [← c_supports hes hplus p hv, ← rust_supports hes hs hok p v]
      exact hsup hplus ⟨hs, hok⟩ p v hv
    · intro h
      obtain ⟨hiff, hsup⟩ := h es rfl
      refine ⟨hiff, fun hplus hsok p v hv => ?_⟩
      rw [c_supports hes hplus p hv, rust_supports hes hsok.1 hsok.2 p v]
      exact hsup hplus p v hv

/-- `Link=+1`. -/
theorem a_plus_sign_is_read_in_rust_only :
    ¬ ((C.parseProtocolList ['L', 'i', 'n', 'k', '=', '+', '1']).isSome ↔
      (Rust.UnvalidatedProtoEntry.fromStr ['L', 'i', 'n', 'k', '=', '+', '1']).toOption.isSome) := by
  have hrust : (Rust.UnvalidatedProtoEntry.fromStr ['L', 'i', 'n', 'k', '=', '+', '1']).toOption.isSome = true := by
    decide
  rw [C.parseProtocolList_eq, if_pos (by decide), hrust]
  simp

end Badnet.Protover
