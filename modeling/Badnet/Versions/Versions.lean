/-
  Badnet.Versions.Versions — the versions of src/core/or/versions.c and their order.

  A version is read from a string (`tor_version_parse`): up to four numbers, a status, a tag, and a Subversion revision
  or a Git commit. Two versions are compared field by field, each number by the unsigned difference as a signed number
  (`tor_version_compare`).
-/

import Badnet.Dirparse.Tokens
import Badnet.Encoding.Base16
import Badnet.Encoding.Decimal
import Badnet.Lib.Sorting
import Badnet.Protover.Protover

namespace Badnet.Versions

open Lib Encoding Dirparse Protover

/-! ## Versions -/

inductive VersionStatus where
  | VER_PRE
  | VER_RC
  | VER_RELEASE
deriving DecidableEq, Repr

def VersionStatus.toUInt32 : VersionStatus → UInt32
  | VER_PRE => 0
  | VER_RC => 1
  | VER_RELEASE => 2

/-- `tor_version_t`; `gitTag` has the first `git_tag_len` bytes of the array. -/
structure TorVersion where
  major : Int32
  minor : Int32
  micro : Int32
  status : VersionStatus
  patchlevel : Int32
  statusTag : Text
  svnRevision : Int32
  gitTagLen : Int32
  gitTag : List UInt8
deriving DecidableEq

/-- After `memset`, and with the status of a release. -/
def TorVersion.start : TorVersion :=
  { major := 0, minor := 0, micro := 0, status := .VER_RELEASE, patchlevel := 0, statusTag := [], svnRevision := 0,
    gitTagLen := 0, gitTag := [] }

def MAX_STATUS_TAG_LEN : Nat := 32

def HEX_DIGEST_LEN : Nat := 40

def INT32_MAX : Nat := 2147483647

/-! ## Parsing -/

/-- NUMBER: the value and the text at `eos`. -/
def parseNumber (cp : Text) : Option (Int32 × Text) :=
  if cp.head?.any Char.isDigit then (torParseUlongNext cp 0 INT32_MAX).map fun r => (Int32.ofNat r.1, r.2) else none

/-- The dot, "pre" or "rc" before the patch level. -/
def parseStatus (cp : Text) : Option (VersionStatus × Text) :=
  if cp.head? = some '.' then some (.VER_RELEASE, cp.drop 1)
  else if ['p', 'r', 'e'] <+: cp then some (.VER_PRE, cp.drop 3)
  else if ['r', 'c'] <+: cp then some (.VER_RC, cp.drop 2)
  else none

variable (out : TorVersion)

/-- "(git-" and the hexadecimal digits up to the parenthesis. -/
def parseGitTag (cp : Text) : Option TorVersion :=
  let hex := cp.takeWhile (· ≠ ')')
  if hex.length = cp.length then none
  else if hex.length > HEX_DIGEST_LEN then none
  else if hex.length = 0 ∨ hex.length % 2 = 1 then none
  else match base16Decode (hex.length / 2) hex with
    | none => none
    | some digest =>
      if digest.length ≠ hex.length / 2 then none
      else some { out with gitTagLen := Int32.ofNat (hex.length / 2), gitTag := digest }

/-- From `status_tag` on. -/
def parseStatusTag (cp : Text) : Option TorVersion :=
  let cp := if cp.head? = some '-' ∨ cp.head? = some '.' then cp.drop 1 else cp
  let word := cp.takeWhile isWordChar
  let out := { out with statusTag := word.take (MAX_STATUS_TAG_LEN - 1) }
  let cp := eatWhitespaceEos (cp.drop word.length)
  if ['(', 'r'] <+: cp then some { out with svnRevision := Int32.ofInt (strtol (cp.drop 2)).1 }
  else if ['(', 'g', 'i', 't', '-'] <+: cp then parseGitTag out (cp.drop 5)
  else some out

/-- From the third number on. -/
def parseMicro (cp : Text) : Option TorVersion := do
  let (micro, cp) ← parseNumber cp
  let out := { out with micro := micro }
  if cp = [] then some out
  else if cp.head? = some '-' then parseStatusTag out cp
  else do
    let (status, cp) ← parseStatus cp
    let (patchlevel, cp) ← parseNumber cp
    parseStatusTag { out with status := status, patchlevel := patchlevel } cp

/-- `tor_version_parse`, with none for -1. -/
def torVersionParse (s : Text) : Option TorVersion := do
  let cp := if (s.take 4).map Char.toLower = ['t', 'o', 'r', ' '] then s.drop 4 else s
  let (major, cp) ← parseNumber cp
  let cp ← scanChar '.' cp
  let (minor, cp) ← parseNumber cp
  let out := { TorVersion.start with major := major, minor := minor }
  if cp = [] then some out
  else if cp.head? = some '-' then parseStatusTag out cp
  else do
    let cp ← scanChar '.' cp
    parseMicro out cp

/-! ## Comparing -/

/-- The result of CMP where it returns, and 0 where the next field is looked at. -/
def CMP (aval bval : UInt32) : Int :=
  let result := (aval - bval).toInt32
  if result < 0 then -1 else if result > 0 then 1 else 0

/-- `memcmp` on as many bytes as both have. -/
def memcmp : List UInt8 → List UInt8 → Int
  | x :: a, y :: b => if x = y then memcmp a b else (x.toNat : Int) - y.toNat
  | _, _ => 0

def torVersionCompare (a b : TorVersion) : Int :=
  if CMP a.major.toUInt32 b.major.toUInt32 ≠ 0 then CMP a.major.toUInt32 b.major.toUInt32
  else if CMP a.minor.toUInt32 b.minor.toUInt32 ≠ 0 then CMP a.minor.toUInt32 b.minor.toUInt32
  else if CMP a.micro.toUInt32 b.micro.toUInt32 ≠ 0 then CMP a.micro.toUInt32 b.micro.toUInt32
  else if CMP a.status.toUInt32 b.status.toUInt32 ≠ 0 then CMP a.status.toUInt32 b.status.toUInt32
  else if CMP a.patchlevel.toUInt32 b.patchlevel.toUInt32 ≠ 0 then CMP a.patchlevel.toUInt32 b.patchlevel.toUInt32
  else if strcmp a.statusTag b.statusTag ≠ 0 then strcmp a.statusTag b.statusTag
  else if CMP a.svnRevision.toUInt32 b.svnRevision.toUInt32 ≠ 0 then CMP a.svnRevision.toUInt32 b.svnRevision.toUInt32
  else if CMP a.gitTagLen.toUInt32 b.gitTagLen.toUInt32 ≠ 0 then CMP a.gitTagLen.toUInt32 b.gitTagLen.toUInt32
  else if a.gitTagLen ≠ 0 then memcmp a.gitTag b.gitTag
  else 0

/-- `compare_tor_version_str_ptr_`. -/
def compareTorVersionStrPtr (a b : Text) : Int :=
  match torVersionParse a, torVersionParse b with
  | some va, some vb => torVersionCompare va vb
  | some _, none => -1
  | none, some _ => 1
  | none, none => strcmp a b

/-! ## Lists -/

/-- `smartlist_uniq`. -/
def smartlistUniq {α : Type} (compare : α → α → Int) : List α → List α
  | [] => []
  | [x] => [x]
  | x :: y :: rest =>
    if compare x y = 0 then smartlistUniq compare (x :: rest) else x :: smartlistUniq compare (y :: rest)
termination_by l => l.length

/-- `sort_version_list`: a list that it may leave. `qsort` puts the members in any order in which none comes before one
    that it is greater than. -/
def SortVersionList (removeDuplicates : Bool) (versions result : List Text) : Prop :=
  ∃ sorted, SortedFrom compareTorVersionStrPtr versions sorted ∧
    result = if removeDuplicates then smartlistUniq compareTorVersionStrPtr sorted else sorted

end Badnet.Versions
