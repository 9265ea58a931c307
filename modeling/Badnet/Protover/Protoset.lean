/-
  Badnet.Protover.Protoset — subprotocol versions in Rust (`rust/protover/protoset.rs`,
  `protover.rs` and the functions of `ffi.rs` that C calls).

  A hash map is the list of its entries. The order it is iterated in is not specified: it
  is a parameter (`IterOrder`), and what is proved holds for each.
-/

import Badnet.Protover.Protover

namespace Badnet.Protover.Rust

open Lib Encoding

inductive ProtoverError where
  | Overlap
  | LowGreaterThanHigh
  | Unparseable
  | ExceedsMax
  | ExceedsNameLimit
  | InvalidProtocol
  deriving DecidableEq, Repr

/-! ## Hash maps -/

abbrev HashMap (κ ν : Type) := List (κ × ν)

structure IterOrder where
  iter : {α : Type} → List α → List α
  perm : ∀ {α : Type} (m : List α), (iter m).Perm m

namespace HashMap

variable {κ ν : Type} [DecidableEq κ] (m : HashMap κ ν)

def get (k : κ) : Option ν := (m.find? fun e => e.1 = k).map (·.2)

def insert (k : κ) (v : ν) : HashMap κ ν := (k, v) :: m.filter fun e => e.1 ≠ k

theorem get_insert (k k' : κ) (v : ν) : get (insert m k v) k' = if k = k' then some v else get m k' := by
  unfold get insert
  by_cases hk : k = k'
  · rw [if_pos hk, List.find?_cons_of_pos (by simpa using hk)]
    rfl
  · rw [if_neg hk, List.find?_cons_of_neg (by simpa using hk), List.find?_filter]
    congr 2
    funext x
    by_cases hx : x.1 = k'
    · simp [hx, Ne.symm hk]
    · simp [hx]

/-- Every key is there once. -/
def NodupKeys : Prop := (m.map Prod.fst).Nodup

omit [DecidableEq κ] in
theorem nodupKeys_nil : NodupKeys ([] : HashMap κ ν) := List.nodup_nil

theorem nodupKeys_insert {m : HashMap κ ν} (h : NodupKeys m) (k : κ) (v : ν) : NodupKeys (insert m k v) := by
  refine List.nodup_cons.mpr ⟨fun hk => ?_, List.Sublist.nodup (List.filter_sublist.map _) h⟩
  obtain ⟨e, he, hek⟩ := List.mem_map.mp hk
  exact of_decide_eq_true (List.mem_filter.mp he).2 hek

theorem mem_iff_get {m : HashMap κ ν} (h : NodupKeys m) {k : κ} {v : ν} : (k, v) ∈ m ↔ get m k = some v := by
  unfold get
  rw [Option.map_eq_some_iff]
  constructor
  · intro hm
    have hsome : (m.find? fun e => e.1 = k).isSome = true := List.find?_isSome.mpr ⟨(k, v), hm, by simp⟩
    obtain ⟨e, he⟩ := Option.isSome_iff_exists.mp hsome
    have hek : e.1 = k := by simpa using List.find?_some he
    have := List.inj_on_of_nodup_map h (List.mem_of_find?_eq_some he) hm hek
    exact ⟨e, he, by rw [this]⟩
  · rintro ⟨e, he, rfl⟩
    have hek : e.1 = k := by simpa using List.find?_some he
    rw [← hek]
    exact List.mem_of_find?_eq_some he

end HashMap

/-! ## `ProtoSet` -/

def U32_MAX : Nat := 4294967295

/-- `str::parse::<u32>`: digits, perhaps after a plus sign. -/
def parseU32 (s : Text) : Except ProtoverError Nat :=
  let digits := if s.head? = some '+' then s.tail else s
  if digits ≠ [] ∧ digits.all Char.isDigit ∧ Nat.ofDigitChars 10 digits 0 ≤ U32_MAX then
    .ok (Nat.ofDigitChars 10 digits 0)
  else .error .Unparseable

/-- `splitn(2, c)`: what is before the first `c`, and what is after it if there is one. -/
def splitn2 (c : Char) (s : Text) : Text × Option Text :=
  (s.takeWhile (· ≠ c), if c ∈ s then some (s.dropWhile (· ≠ c)).tail else none)

structure ProtoSet where
  pairs : List (Nat × Nat)
  deriving DecidableEq, Repr

namespace ProtoSet

def default : ProtoSet := ⟨[]⟩

/-- The order of pairs. -/
def PairLe (a b : Nat × Nat) : Prop := a.1 < b.1 ∨ a.1 = b.1 ∧ a.2 ≤ b.2

instance : DecidableRel PairLe := fun a b => inferInstanceAs (Decidable (a.1 < b.1 ∨ a.1 = b.1 ∧ a.2 ≤ b.2))

/-- The loop of `is_ok`. -/
def isOkLoop (lastHigh : Nat) : List (Nat × Nat) → Except ProtoverError Unit
  | [] => .ok ()
  | (low, high) :: pairs =>
    if low = U32_MAX ∨ high = U32_MAX then .error .ExceedsMax
    else if low ≤ lastHigh then .error .Overlap
    else if low > high then .error .LowGreaterThanHigh
    else isOkLoop high pairs

variable (self : ProtoSet)

def isOk : Except ProtoverError ProtoSet := (isOkLoop 0 self.pairs).map fun _ => self

/-- `Vec::dedup`: of equal neighbours the first one stays. -/
def dedup {α : Type} [DecidableEq α] : List α → List α
  | [] => []
  | a :: l =>
    match dedup l with
    | [] => [a]
    | b :: l' => if a = b then b :: l' else a :: b :: l'

def fromSlice (lowHighPairs : List (Nat × Nat)) : Except ProtoverError ProtoSet :=
  isOk ⟨dedup (lowHighPairs.insertionSort PairLe)⟩

/-- `Into<Vec<Version>>`. -/
def expand : List Nat := self.pairs.flatMap fun p => List.range' p.1 (p.2 + 1 - p.1)

def len : Nat := (self.pairs.map fun p => p.2 - p.1 + 1).sum

def contains (version : Nat) : Bool := self.pairs.any fun p => p.1 ≤ version ∧ version ≤ p.2

/-- A piece between commas. -/
def parsePiece (p : Text) : Except ProtoverError (Nat × Nat) := do
  let (lo, hi) ←
    if '-' ∈ p then do
      let low := (splitn2 '-' p).1
      let high ← (splitn2 '-' p).2.elim (.error ProtoverError.Unparseable) .ok
      let lo ← parseU32 low
      let hi ← parseU32 high
      pure (lo, hi)
    else do
      let v ← parseU32 p
      pure (v, v)
  if lo > MAX_PROTOCOL_VERSION ∨ hi > MAX_PROTOCOL_VERSION then .error .ExceedsMax else .ok (lo, hi)

def fromStr (versionString : Text) : Except ProtoverError ProtoSet :=
  if versionString = [] then .ok default
  else do
    let pairs ← (versionString.splitOn ',').mapM parsePiece
    fromSlice pairs

def pairToString (p : Nat × Nat) : Text :=
  if p.1 ≠ p.2 then decimal p.1 ++ '-' :: decimal p.2 else decimal p.1

def toString : Text := [','].intercalate (self.pairs.map pairToString)

/-- The `while` loop of `find_range`. -/
def findRangeLoop (hasRange : Bool) (rangeEnd index : Nat) : List Nat → Bool × Nat × Nat
  | [] => (hasRange, rangeEnd, index)
  | n :: rest => if n ≠ rangeEnd + 1 then (hasRange, rangeEnd, index) else findRangeLoop true n (index + 1) rest

def findRange : List Nat → Bool × Nat × Nat
  | [] => (false, 0, 0)
  | n :: rest => findRangeLoop false n 0 rest

/-- The `while` loop of `From<Vec<Version>>`. -/
def versionPairs (v : List Nat) : List (Nat × Nat) :=
  match v with
  | [] => []
  | first :: rest =>
    if (findRange (first :: rest)).1 then
      (first, (first :: rest).getD (findRange (first :: rest)).2.2 0) ::
        versionPairs (rest.drop (findRange (first :: rest)).2.2)
    else (first, first) :: versionPairs rest
termination_by v.length
decreasing_by
  · rw [List.length_drop, List.length_cons]
    omega
  · exact Nat.lt_succ_self _

/-- `From<Vec<Version>>`. -/
def ofVersions (v : List Nat) : ProtoSet :=
  match fromSlice (versionPairs (dedup (v.insertionSort (· ≤ ·)))) with
  | .ok set => set
  | .error _ => default

end ProtoSet

/-! ## `UnvalidatedProtoEntry` -/

abbrev UnvalidatedProtoEntry := HashMap Text ProtoSet

/-- `UnknownProtocol::from_str`. -/
def unknownProtocolFromStr (s : Text) : Except ProtoverError Text :=
  if ¬ s.all (fun c => c.isAlphanum ∨ c = '-') then .error .InvalidProtocol
  else if s.length ≤ MAX_PROTOCOL_NAME_LENGTH then .ok s
  else .error .ExceedsNameLimit

/-- The name and the versions of an entry. -/
def nameAndVersions (subproto : Text) : Except ProtoverError (Text × Text) :=
  match splitn2 '=' subproto with
  | ([], _) => .error .Unparseable
  | (_, none) => .error .Unparseable
  | (name, some vers) => .ok (name, vers)

def parseProtocolAndVersionStr (protocolString : Text) : Except ProtoverError (List (Text × Text)) :=
  if protocolString = [] then .ok [] else (protocolString.splitOn ' ').mapM nameAndVersions

namespace UnvalidatedProtoEntry

def fromStr (protocolString : Text) : Except ProtoverError UnvalidatedProtoEntry := do
  let parts ← parseProtocolAndVersionStr protocolString
  parts.foldlM (fun parsed part => do
    let versions ← ProtoSet.fromStr part.2
    let protocol ← unknownProtocolFromStr part.1
    pure (HashMap.insert parsed protocol versions)) []

def supportsProtocol (self : UnvalidatedProtoEntry) (proto : Text) (vers : Nat) : Bool :=
  match HashMap.get self proto with
  | some supportedVersions => supportedVersions.contains vers
  | none => false

def len (order : IterOrder) (self : UnvalidatedProtoEntry) : Nat := ((order.iter self).map fun e => e.2.len).sum

def toString (order : IterOrder) (self : UnvalidatedProtoEntry) : Text :=
  [' '].intercalate (((order.iter self).map fun e => e.1 ++ '=' :: e.2.toString).insertionSort StrLe)

end UnvalidatedProtoEntry

/-- `Protocol::to_string`, by `Debug`: the name of the variant. -/
def protocolToString : Protocol → Text
  | .Link => ['L', 'i', 'n', 'k']
  | .LinkAuth => ['L', 'i', 'n', 'k', 'A', 'u', 't', 'h']
  | .Relay => ['R', 'e', 'l', 'a', 'y']
  | .DirCache => ['D', 'i', 'r', 'C', 'a', 'c', 'h', 'e']
  | .HSDir => ['H', 'S', 'D', 'i', 'r']
  | .HSIntro => ['H', 'S', 'I', 'n', 't', 'r', 'o']
  | .HSRend => ['H', 'S', 'R', 'e', 'n', 'd']
  | .Desc => ['D', 'e', 's', 'c']
  | .Microdesc => ['M', 'i', 'c', 'r', 'o', 'd', 'e', 's', 'c']
  | .Cons => ['C', 'o', 'n', 's']
  | .Padding => ['P', 'a', 'd', 'd', 'i', 'n', 'g']
  | .FlowCtrl => ['F', 'l', 'o', 'w', 'C', 't', 'r', 'l']

/-- `protocol_list_supports_protocol` of `ffi.rs`. -/
def protocolListSupportsProtocol (list : Text) (protocol : Protocol) (version : Nat) : Bool :=
  match UnvalidatedProtoEntry.fromStr list with
  | .error _ => false
  | .ok protoEntry => UnvalidatedProtoEntry.supportsProtocol protoEntry (protocolToString protocol) version

/-! ## Voting -/

def MAX_PROTOCOLS_TO_EXPAND : Nat := 65536

/-- The counts of one vote's versions of a protocol. -/
def countVersions (supportedVers : HashMap Nat Nat) (versions : List Nat) : HashMap Nat Nat :=
  versions.foldl (fun m version => HashMap.insert m version ((HashMap.get m version).getD 0 + 1)) supportedVers

variable (order : IterOrder)

/-- One turn of the first loop of `compute`. -/
def countVote (allCount : HashMap Text (HashMap Nat Nat)) (vote : UnvalidatedProtoEntry) :
    HashMap Text (HashMap Nat Nat) :=
  if UnvalidatedProtoEntry.len order vote > MAX_PROTOCOLS_TO_EXPAND then allCount
  else
    (order.iter vote).foldl (fun all e =>
      HashMap.insert all e.1 (countVersions ((HashMap.get all e.1).getD []) e.2.expand)) allCount

/-- One turn of its second loop. -/
def keepVoted (threshold : Nat) (finalOutput : UnvalidatedProtoEntry) (e : Text × HashMap Nat Nat) :
    UnvalidatedProtoEntry :=
  let versions := e.2.filter fun c => c.2 ≥ threshold
  if versions.length > 0 then HashMap.insert finalOutput e.1 (ProtoSet.ofVersions ((order.iter versions).map (·.1)))
  else finalOutput

/-- `ProtoverVote::compute`. -/
def compute (protoEntries : List UnvalidatedProtoEntry) (threshold : Nat) : UnvalidatedProtoEntry :=
  if protoEntries = [] then []
  else (order.iter (protoEntries.foldl (countVote order) [])).foldl (keepVoted order threshold) []

/-- `protover_compute_vote` of `ffi.rs`; a threshold of at least 1 is the same as a
    `usize`. -/
def protoverComputeVote (list : List Text) (threshold : Nat) : Text :=
  let protoEntries := list.filterMap fun datum => (UnvalidatedProtoEntry.fromStr datum).toOption
  UnvalidatedProtoEntry.toString order (compute order protoEntries threshold)

end Badnet.Protover.Rust
