/-
  Badnet.Protover.Protover — subprotocol versions in C (`core/or/protover.c`).

  A list of versions is `Link=1-5 LinkAuth=1,3`: entries separated by blanks, each with a
  bitmask of the versions 0 to 63. The readers walk the text with pointers; here a pointer
  is the text from it to the end of the string, and an end pointer is a length.
-/

import Mathlib.Data.List.Sort
import Badnet.Encoding.Decimal

namespace Badnet.Protover

open Lib Encoding

/-- `protocol_type_t`, and `Protocol` in Rust. -/
inductive Protocol where
  | Link
  | LinkAuth
  | Relay
  | DirCache
  | HSDir
  | HSIntro
  | HSRend
  | Desc
  | Microdesc
  | Cons
  | Padding
  | FlowCtrl
  deriving DecidableEq, Repr

def MAX_PROTOCOL_NAME_LENGTH : Nat := 100

def MAX_PROTOCOL_VERSION : Nat := 63

/-- `strcmp`, and the order of strings in Rust: by the codes of the characters. -/
def strcmp : Text → Text → Int
  | [], [] => 0
  | [], _ :: _ => -1
  | _ :: _, [] => 1
  | a :: as, b :: bs => if a = b then strcmp as bs else (a.toNat : Int) - b.toNat

def StrLe (a b : Text) : Prop := strcmp a b ≤ 0

instance : DecidableRel StrLe := fun a b => inferInstanceAs (Decidable (strcmp a b ≤ 0))

namespace C

/-- `PROTOCOL_NAMES`. -/
def protocolTypeToStr : Protocol → Text
  | .Link => ['L', 'i', 'n', 'k']
  | .LinkAuth => ['L', 'i', 'n', 'k', 'A', 'u', 't', 'h']
  | .Relay => ['R', 'e', 'l', 'a', 'y']
  | .DirCache => ['D', 'i', 'r', 'C', 'a', 'c', 'h', 'e']
  | .HSDir => ['H', 'S', 'D', 'i', 'r']
  | .HSIntro => ['H', 'S', 'I', 'n', 't', 'r', 'o']
  | .HSRend => ['H', 'S', 'R', 'e', 'n', 'd']
  | .Desc => ['D', 'e', 's', 'c']
  | .Microdesc => ['M', 'i', 'c', 'r', 'o', 'd', 'e', 's', 'c']
  | .Cons => ['C', 'o', 'n', 's']
  | .Padding => ['P', 'a', 'd', 'd', 'i', 'n', 'g']
  | .FlowCtrl => ['F', 'l', 'o', 'w', 'C', 't', 'r', 'l']

structure ProtoEntry where
  name : Text
  bitmask : BitVec 64
  deriving DecidableEq, Repr

/-! ## Reading -/

/-- How far a pointer into the text `s` is from its start. -/
def offset (s next : Text) : Nat := s.length - next.length

def parseVersionRange (s : Text) (endOfRange : Nat) : Option (Nat × Nat) :=
  if ¬ s.head?.any Char.isDigit then none
  else
    match torParseUlongNext s 0 MAX_PROTOCOL_VERSION with
    | none => none
    | some (low, next) =>
      if offset s next > endOfRange then none
      else if offset s next = endOfRange then some (low, low)
      else if next.head? ≠ some '-' then none
      else if ¬ next.tail.head?.any Char.isDigit then none
      else
        match torParseUlongNext next.tail 0 MAX_PROTOCOL_VERSION with
        | none => none
        | some (high, next') =>
          if offset s next' ≠ endOfRange then none
          else if low > high then none
          else some (low, high)

def isValidKeyword (s : Text) (n : Nat) : Bool := (s.take n).all fun c => c.isAlphanum ∨ c = '-'

def bitmaskForRange (low high : Nat) : BitVec 64 :=
  let mask := BitVec.allOnes 64
  let mask := mask <<< (63 - high)
  let mask := mask >>> (63 - high + low)
  mask <<< low

/-- A range takes at least one character. -/
theorem parseVersionRange_pos {s : Text} {n : Nat} {r : Nat × Nat} (h : parseVersionRange s n = some r) : 0 < n := by
  unfold parseVersionRange at h
  by_cases hd : s.head?.any Char.isDigit = true
  · rw [if_neg (by simpa using hd), torParseUlongNext_digits hd (by decide)] at h
    have hoff : 0 < offset s (s.dropWhile Char.isDigit) := by
      cases s with
      | nil => cases hd
      | cons c t =>
        have hlen := (List.dropWhile_sublist Char.isDigit (l := t)).length_le
        have hc : c.isDigit = true := hd
        rw [List.dropWhile_cons_of_pos hc, offset, List.length_cons]
        omega
    split at h
    · cases h
    · rename_i heq
      split at heq
      · cases heq
        split at h
        · cases h
        · omega
      · cases heq
  · rw [if_pos (by simpa using hd)] at h
    cases h

/-- The `while` loop of `parse_single_entry`: `s` and how far the end of the entry is. -/
def parseRanges (s : Text) (endOfEntry : Nat) (bitmask : BitVec 64) : Option (BitVec 64) :=
  if endOfEntry = 0 then some bitmask
  else
    let comma := ((s.take endOfEntry).findIdx? (· = ',')).getD endOfEntry
    match _h : parseVersionRange s comma with
    | none => none
    | some (low, high) =>
      let bitmask := bitmask ||| bitmaskForRange low high
      if comma < endOfEntry - 1 then parseRanges (s.drop (comma + 1)) (endOfEntry - (comma + 1)) bitmask
      else parseRanges (s.drop comma) (endOfEntry - comma) bitmask
termination_by endOfEntry
decreasing_by
  · omega
  · have := parseVersionRange_pos _h
    omega

def parseSingleEntry (s : Text) (endOfEntry : Nat) : Option ProtoEntry :=
  match (s.take endOfEntry).findIdx? (· = '=') with
  | none => none
  | some equals =>
    if equals = 0 then none
    else if equals > MAX_PROTOCOL_NAME_LENGTH then none
    else if ¬ isValidKeyword s equals then none
    else
      (parseRanges (s.drop (equals + 1)) (endOfEntry - (equals + 1)) 0).map fun bitmask =>
        { name := s.take equals, bitmask }

theorem parseSingleEntry_pos {s : Text} {n : Nat} {e : ProtoEntry} (h : parseSingleEntry s n = some e) : 0 < n := by
  apply Nat.pos_of_ne_zero
  rintro rfl
  simp [parseSingleEntry] at h

def parseProtocolList (s : Text) : Option (List ProtoEntry) :=
  if s = [] then some []
  else
    let endOfEntry := (s.takeWhile (· ≠ ' ')).length
    match _h : parseSingleEntry s endOfEntry with
    | none => none
    | some entry => (parseProtocolList ((s.drop endOfEntry).dropWhile (· = ' '))).map (entry :: ·)
termination_by s.length
decreasing_by
  have hpos := parseSingleEntry_pos _h
  have hle := (List.takeWhile_sublist (· ≠ ' ') (l := s)).length_le
  have hdrop := (List.dropWhile_sublist (· = ' ') (l := s.drop (s.takeWhile (· ≠ ' ')).length)).length_le
  rw [List.length_drop] at hdrop
  omega

variable (protos : List ProtoEntry)

def findEntryByName (name : Text) : Option ProtoEntry := protos.find? fun ent => ent.name = name

def protocolListContains (pr : Protocol) (ver : Nat) : Bool :=
  if ver > MAX_PROTOCOL_VERSION then false
  else
    match findEntryByName protos (protocolTypeToStr pr) with
    | some ent => ent.bitmask.getLsbD ver
    | none => false

def protocolListSupportsProtocol (list : Text) (tp : Protocol) (version : Nat) : Bool :=
  match parseProtocolList list with
  | none => false
  | some protocols => protocolListContains protocols tp version

/-! ## Voting -/

/-- `none` where the builtin is undefined. -/
def trailingZeros (x : BitVec 64) : Option Nat := (List.range 64).find? fun i => x.getLsbD i

theorem trailingZeros_eq_some {x : BitVec 64} {i : Nat} (h : trailingZeros x = some i) :
    i < 64 ∧ x.getLsbD i = true ∧ ∀ j < i, x.getLsbD j = false := by
  unfold trailingZeros at h
  rw [List.find?_range_eq_some] at h
  obtain ⟨hx, hi, hlt⟩ := h
  exact ⟨List.mem_range.mp hi, hx, fun j hj => by simpa using hlt j hj⟩

theorem toNat_ushiftRight_lt {x : BitVec 64} {k : Nat} (hx : x ≠ 0) (hk : 0 < k) : (x >>> k).toNat < x.toNat := by
  have hpos : 0 < x.toNat := Nat.pos_of_ne_zero fun h => hx (BitVec.toNat_eq.mpr h)
  rw [BitVec.toNat_ushiftRight, Nat.shiftRight_eq_div_pow]
  exact Nat.div_lt_self hpos (Nat.one_lt_two_pow (by omega))

/-- `!mask ? 64 : trailing_zeros(~mask)`. -/
def trailingOnes (mask : BitVec 64) : Option Nat := if mask = 0 then some 64 else trailingZeros (~~~mask)

theorem trailingOnes_pos {mask : BitVec 64} {zeros ones : Nat} (hz : trailingZeros mask = some zeros)
    (ho : trailingOnes (mask >>> zeros) = some ones) : 0 < ones := by
  unfold trailingOnes at ho
  split at ho
  · cases ho
    decide
  · apply Nat.pos_of_ne_zero
    rintro rfl
    obtain ⟨-, hbit, -⟩ := trailingZeros_eq_some hz
    obtain ⟨-, hone, -⟩ := trailingZeros_eq_some ho
    simp [hbit] at hone

/-- The `while` loop of `proto_entry_encode_into`. -/
def encodeMask (mask : BitVec 64) (shift : Nat) (first : Bool) : Option Text :=
  if _hm : mask = 0 then some []
  else
    match _hz : trailingZeros mask with
    | none => none
    | some zeros =>
      match _ho : trailingOnes (mask >>> zeros) with
      | none => none
      | some ones =>
        let chunk := (if first then [] else [',']) ++
          if ones = 1 then decimal (shift + zeros)
          else decimal (shift + zeros) ++ '-' :: decimal (shift + zeros + ones - 1)
        if ones = 64 then some chunk
        else (encodeMask ((mask >>> zeros) >>> ones) (shift + zeros + ones) false).map (chunk ++ ·)
termination_by mask.toNat
decreasing_by
  have hpos := trailingOnes_pos _hz _ho
  rw [← BitVec.shiftRight_add]
  exact toNat_ushiftRight_lt _hm (by omega)

def protoEntryEncodeInto (entry : ProtoEntry) : Option Text :=
  (encodeMask entry.bitmask 0 true).map fun versions => entry.name ++ '=' :: versions

def encodeProtocolList (sl : List ProtoEntry) : Option Text :=
  (sl.mapM protoEntryEncodeInto).map ([' '].intercalate ·)

variable (parsed : List (List ProtoEntry))

/-- `counts[i]` for the protocol: `uint8_t` counters. -/
def countVotes (name : Text) (i : Nat) : Nat :=
  (parsed.countP fun vote => (findEntryByName vote name).any fun ent => ent.bitmask.getLsbD i) % 256

def resultBitmask (threshold : Int) (name : Text) : BitVec 64 :=
  (List.range 64).foldl (fun mask i => if (countVotes parsed name i : Int) ≥ threshold then mask ||| 1#64 <<< i else mask) 0

/-- The names in the order they are first seen. -/
def protoNames : List Text :=
  parsed.flatten.foldl (fun names ent => if ent.name ∈ names then names else names ++ [ent.name]) []

/-- `none` for a failed assertion or where the encoder is undefined. -/
def protoverComputeVote (listOfProtoStrings : List Text) (threshold : Int) : Option Text :=
  if ¬ listOfProtoStrings.length < 256 then none
  else if listOfProtoStrings.length = 0 then some []
  else
    let parsed := listOfProtoStrings.filterMap parseProtocolList
    let names := (protoNames parsed).insertionSort StrLe
    let result := names.filterMap fun name =>
      if resultBitmask parsed threshold name ≠ 0 then
        some { name, bitmask := resultBitmask parsed threshold name }
      else none
    encodeProtocolList result

end C

end Badnet.Protover
