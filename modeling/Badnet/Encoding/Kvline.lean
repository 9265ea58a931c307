/-
  Badnet.Encoding.Kvline — lines of keys and values in one string: src/lib/encoding/kvline.c.

  A line with a key is written as `Key=Value`, and one without as `Value`; a value that could be taken for something
  else is put in quotes, if the flags allow that (`needs_escape`, `kvline_can_encode_lines`).
-/

import Badnet.Encoding.Cstring

namespace Badnet.Encoding

/-! ## Lines -/

/-- `config_line_t`, with none for NULL. -/
structure ConfigLine where
  key : Option CString
  value : Option CString
deriving DecidableEq

/-- The flags, without KV_QUOTED_QSTRING. -/
structure KvFlags where
  quoted : Bool
  omitKeys : Bool
  omitVals : Bool
  raw : Bool
deriving DecidableEq, Repr

/-- A `char` is signed, so that those from 128 on are not greater than 127. -/
def unusual (c : UInt8) : Bool := 127 ≤ c.toInt8.toInt ∨ TOR_ISSPACE c ∨ ¬ TOR_ISPRINT c ∨ c = 39 ∨ c = 34

def needsEscape (s : CString) (asKeylessVal : Bool) : Bool :=
  if asKeylessVal ∧ s.bytes = [] then true
  else if asKeylessVal ∧ 61 ∈ s.bytes then true
  else s.bytes.any unusual

/-- NULL, or a string of length 0. -/
def notSet (s : Option CString) : Bool := s.all fun s => s.bytes.isEmpty

def lineHasNoKey (line : ConfigLine) : Bool := notSet line.key

def lineHasNoVal (line : ConfigLine) : Bool := notSet line.value

/-- None where `needs_escape` would read at NULL. -/
def kvlineCanEncodeLines (flags : KvFlags) : List ConfigLine → Option Bool
  | [] => some true
  | line :: rest =>
    let keyless := lineHasNoKey line
    if keyless ∧ ¬ flags.omitKeys then some false
    else do
      let value ← line.value
      if needsEscape value keyless ∧ ¬ (flags.quoted ∨ flags.raw) then some false
      else if ¬ keyless ∧ line.key.any (needsEscape · true) then some false
      else kvlineCanEncodeLines flags rest

/-! ## Encoding -/

def equals : CString := ⟨[61], by decide⟩

def space : CString := ⟨[32], by decide⟩

variable (flags : KvFlags)

/-- One element of the list that is joined: `"%s%s%s", k, eq, v`. -/
def kvlineElement (line : ConfigLine) : Option CString := do
  let keyless := lineHasNoKey line
  let value ← line.value
  let k := if keyless then .empty else line.key.getD .empty
  let eq := if keyless then .empty else equals
  if flags.omitVals ∧ lineHasNoVal line then some ((k.append .empty).append .empty)
  else if ¬ flags.raw ∧ needsEscape value keyless then some ((k.append eq).append (escForLog value))
  else some ((k.append eq).append value)

/-- `smartlist_join_strings(sl, join, 0, NULL)`. -/
def joinStrings (join : CString) : List CString → CString
  | [] => .empty
  | [s] => s
  | s :: t :: sl => (s.append join).append (joinStrings join (t :: sl))

/-- None is a failed assertion or a read at NULL, and an inner none is NULL. -/
def kvlineEncode (line : List ConfigLine) (flags : KvFlags) : Option (Option CString) :=
  if flags.omitKeys ∧ flags.omitVals then none
  else if flags.quoted ∧ flags.raw then none
  else do
    let can ← kvlineCanEncodeLines flags line
    if can then do
      let elements ← line.mapM (kvlineElement flags)
      some (some (joinStrings space elements))
    else some none

/-! ## Parsing -/

/-- Where the parser stops: at an assertion, at `err`, at the `BUG` in its loop, or (in the model) with turns left to do. -/
inductive KvFailure where
  | assertion
  | err
  | bug
  | stuck
deriving DecidableEq, Repr

/-- The characters of `" \t\r\v\n"`. -/
def isBlank (c : UInt8) : Bool := c = 32 ∨ c = 9 ∨ c = 13 ∨ c = 11 ∨ c = 10

/-- The characters of `" \t\r\v\n="`. -/
def endsKey (c : UInt8) : Bool := isBlank c ∨ c = 61

variable (cp : List UInt8)

/-- "Find where the key ends": the key if there is one, the pointer behind it, and whether it goes to `commit`. -/
def kvlineKey : Option (Option CString × List UInt8 × Bool) :=
  if cp.head? = some 34 then some (none, cp, false)
  else
    let idx := (cp.takeWhile fun c => !endsKey c).length
    if (cp.drop idx).head? = some 61 then some (some (.of (cp.take idx)), cp.drop (idx + 1), false)
    else if flags.omitVals then some (some (.of (cp.take idx)), cp.drop idx, true)
    else if ¬ flags.omitKeys then none
    else some (none, cp, false)

/-- The value in quotes or without, and the pointer behind it. -/
def kvlineValue : Option (CString × List UInt8) :=
  if cp.head? = some 34 then
    if ¬ flags.quoted then none
    else do
      let (val, cp) ← unescapeString cp
      if val.length ≠ (CString.of val).bytes.length then none else some (.of val, cp)
  else
    let idx := (cp.takeWhile fun c => !isBlank c).length
    some (.of (cp.take idx), cp.drop idx)

/-- The value, unless the key stands alone. -/
def kvlineRest (commit : Bool) : Option (Option CString × List UInt8) :=
  if commit then some (none, cp) else (kvlineValue flags cp).map fun r => (some r.1, r.2)

/-- One turn of the loop, from a character that is not blank. -/
def kvlineItem : Option (ConfigLine × List UInt8) := do
  let (key, cp, commit) ← kvlineKey flags cp
  let (val, cp) ← kvlineRest flags cp commit
  if key.any fun key => key.bytes.isEmpty then none
  else some ({ key := some (key.getD .empty), value := some (val.getD .empty) }, cp)

/-- The loop; pointers are told apart by how much stands behind them. -/
def kvlineLoop (flags : KvFlags) : Nat → List UInt8 → Option Nat → List ConfigLine → Except KvFailure (List ConfigLine)
  | 0, _, _, _ => .error .stuck
  | turns + 1, cp, cplast, result =>
    if cp = [] then .ok result
    else
      let cp := cp.dropWhile isBlank
      if cplast = some cp.length then .error .bug
      else if cp = [] then .ok result
      else match kvlineItem flags cp with
        | none => .error .err
        | some (line, rest) => kvlineLoop flags turns rest (some cp.length) (result ++ [line])

/-- `kvline_parse`, which gives NULL for an empty list too. -/
def kvlineParse (line : CString) (flags : KvFlags) : Except KvFailure (List ConfigLine) :=
  if flags.omitKeys ∧ flags.omitVals then .error .assertion
  else if flags.raw then .error .assertion
  else match kvlineLoop flags (line.bytes.length + 1) line.bytes none [] with
    | .error e => .error e
    | .ok result => if kvlineCanEncodeLines flags result = some true then .ok result else .error .err

end Badnet.Encoding
