/-
  Badnet.Encoding.TimeFmt — times as texts (`lib/encoding/time_fmt.c`, with `lib/wallclock/time_to_tm.c`).

  A time is broken down in UTC and printed, and a text is read into broken-down form, which `tor_timegm` turns into
  a time. `gmtime_r` and `strftime` are those of the C library, for times from 1970 on. `tor_timegm` looks for leap years
  with the full year in one place and with the year since 1900 in another.
-/

import Badnet.Encoding.Scanf
import Badnet.Lib.Gregorian
import Mathlib.Algebra.Ring.Int.Defs

namespace Badnet.Encoding

open Lib

/-! ## Broken-down times -/

/-- Months count from 0, years from 1900. -/
structure Tm where
  tmSec : Int
  tmMin : Int
  tmHour : Int
  tmMday : Int
  tmMon : Int
  tmYear : Int
  tmWday : Int
  deriving DecidableEq

variable (t : Nat)

/-- The year from 1970 on, and the day in it. -/
def gmtimeYear : Nat × Nat := locate (fun i => yearLength (1970 + i)) (t / 86400 + 1) 0 (t / 86400)

/-- The month and the day in it. -/
def gmtimeMonth : Nat × Nat := locate (monthLength (1970 + (gmtimeYear t).1)) 12 0 (gmtimeYear t).2

/-- `gmtime_r`; the first day of 1970 is a Thursday. -/
def gmtimeR : Tm where
  tmSec := (t % 60 : Nat)
  tmMin := (t / 60 % 60 : Nat)
  tmHour := (t / 3600 % 24 : Nat)
  tmMday := ((gmtimeMonth t).2 + 1 : Nat)
  tmMon := ((gmtimeMonth t).1 : Nat)
  tmYear := (70 + (gmtimeYear t).1 : Nat)
  tmWday := ((t / 86400 + 4) % 7 : Nat)

/-- Dates after 9999 and before the year 1 are replaced. -/
def correctTm (r : Tm) : Tm :=
  if r.tmYear > 8099 then
    { tmYear := 8099, tmMon := 11, tmMday := 31, tmWday := 6, tmHour := 23, tmMin := 59, tmSec := 59 }
  else if r.tmYear < 1 - 1900 then
    { tmYear := 1 - 1900, tmMon := 0, tmMday := 1, tmWday := 0, tmHour := 0, tmMin := 0, tmSec := 0 }
  else r

def torGmtimeR : Tm := correctTm (gmtimeR t)

def INT32_MAX : Int := 2147483647

/-- `IS_LEAPYEAR` -/
def isLeapyear (y : Int) : Bool := decide (y % 4 = 0) && (decide (y % 100 ≠ 0) || decide (y % 400 = 0))

/-- For years after 0, so that it does not matter how a negative quotient is rounded. -/
def nLeapdays (year1 year2 : Int) : Int :=
  let year1 := year1 - 1
  let year2 := year2 - 1
  (year2 / 4 - year1 / 4) - (year2 / 100 - year1 / 100) + (year2 / 400 - year1 / 400)

def daysPerMonth : List Int := [31, 28, 31, 30, 31, 30, 31, 31, 30, 31, 30, 31]

variable (tm : Tm)

def timegmYear : Int := if tm.tmYear < INT32_MAX - 1900 then tm.tmYear + 1900 else INT32_MAX

def invalidYear : Bool := decide (timegmYear tm < 1970) || decide (tm.tmYear ≥ INT32_MAX - 1900)

/-- The days of the month; this looks at the year since 1900. -/
def timegmDpm : Int :=
  if tm.tmMon ≥ 0 ∧ tm.tmMon ≤ 11 then
    if tm.tmMon = 1 ∧ !invalidYear tm ∧ isLeapyear tm.tmYear then 29 else daysPerMonth.getD tm.tmMon.toNat 0
  else 0

/-- A time, or -1. -/
def torTimegm : Option Int :=
  let year := timegmYear tm
  let dpm := timegmDpm tm
  if invalidYear tm ∨ tm.tmMon < 0 ∨ tm.tmMon > 11 ∨ tm.tmMday < 1 ∨ tm.tmMday > dpm ∨ tm.tmHour < 0 ∨ tm.tmHour > 23 ∨
      tm.tmMin < 0 ∨ tm.tmMin > 59 ∨ tm.tmSec < 0 ∨ tm.tmSec > 60 then none
  else
    let days := 365 * (year - 1970) + nLeapdays 1970 year
    let days := days + (daysPerMonth.take tm.tmMon.toNat).sum
    let days := if tm.tmMon > 1 ∧ isLeapyear year then days + 1 else days
    let days := days + (tm.tmMday - 1)
    let hours := days * 24 + tm.tmHour
    let minutes := hours * 60 + tm.tmMin
    some (minutes * 60 + tm.tmSec)

/-! ## Formatting -/

/-- The conversions that are used, for years after 999. -/
def strftime : Text → Tm → Text
  | '%' :: 'Y' :: format, tm => decimal (tm.tmYear + 1900).toNat ++ strftime format tm
  | '%' :: 'm' :: format, tm => paddedDecimal 2 (tm.tmMon + 1).toNat ++ strftime format tm
  | '%' :: 'd' :: format, tm => paddedDecimal 2 tm.tmMday.toNat ++ strftime format tm
  | '%' :: 'H' :: format, tm => paddedDecimal 2 tm.tmHour.toNat ++ strftime format tm
  | '%' :: 'M' :: format, tm => paddedDecimal 2 tm.tmMin.toNat ++ strftime format tm
  | '%' :: 'S' :: format, tm => paddedDecimal 2 tm.tmSec.toNat ++ strftime format tm
  | c :: format, tm => c :: strftime format tm
  | [], _ => []

def WEEKDAY_NAMES : List Text :=
  ["Sun".toList, "Mon".toList, "Tue".toList, "Wed".toList, "Thu".toList, "Fri".toList, "Sat".toList]

def MONTH_NAMES : List Text :=
  ["Jan".toList, "Feb".toList, "Mar".toList, "Apr".toList, "May".toList, "Jun".toList,
    "Jul".toList, "Aug".toList, "Sep".toList, "Oct".toList, "Nov".toList, "Dec".toList]

/-- `memcpy` of a text over a part of the buffer. -/
def memcpyTo (buf : Text) (offset : Nat) (src : Text) : Text := buf.take offset ++ (src ++ buf.drop (offset + src.length))

def formatRfc1123Time : Text :=
  let tm := torGmtimeR t
  let buf := strftime "___, %d ___ %Y %H:%M:%S GMT".toList tm
  memcpyTo (memcpyTo buf 0 (WEEKDAY_NAMES.getD tm.tmWday.toNat [])) 8 (MONTH_NAMES.getD tm.tmMon.toNat [])

def formatIsoTime : Text := strftime "%Y-%m-%d %H:%M:%S".toList (torGmtimeR t)

def formatIsoTimeNospace : Text := (formatIsoTime t).set 10 'T'

/-! ## Parsing -/

def RFC1123_TIME_LEN : Nat := 29

/-- "%3s, %2u %3s %u %2u:%2u:%2u GMT" -/
def rfc1123Pattern : List Directive :=
  [.s 3, .lit ',', .lit ' ', .u 2, .lit ' ', .s 3, .lit ' ', .u MAX_SCANF_WIDTH, .lit ' ', .u 2, .lit ':', .u 2, .lit ':', .u 2,
    .lit ' ', .lit 'G', .lit 'M', .lit 'T']

def parseRfc1123Time (buf : Text) : Option Int :=
  if buf.length ≠ RFC1123_TIME_LEN then none
  else
    match torVsscanf rfc1123Pattern buf with
    | [.str _, .num mday, .str month, .num year, .num hour, .num min, .num sec] =>
      match MONTH_NAMES.findIdx? (· == month) with
      | none => none
      | some m =>
        let invalid := (year : Int) ≥ INT32_MAX ∨ year < 1970
        let dpm := if m = 1 ∧ ¬ invalid ∧ isLeapyear year then 29 else daysPerMonth.getD m 0
        if invalid ∨ mday < 1 ∨ (mday : Int) > dpm ∨ hour > 23 ∨ min > 59 ∨ sec > 60 then none
        else torTimegm { tmSec := sec, tmMin := min, tmHour := hour, tmMday := mday, tmMon := m, tmYear := year - 1900, tmWday := 0 }
    | _ => none

/-- "%u-%2u-%2u%c%2u:%2u:%2u%c" -/
def isoPattern : List Directive :=
  [.u MAX_SCANF_WIDTH, .lit '-', .u 2, .lit '-', .u 2, .c, .u 2, .lit ':', .u 2, .lit ':', .u 2, .c]

def parseIsoTime_ (cp : Text) (strict nospace : Bool) : Option Int :=
  match torVsscanf isoPattern cp with
  | .num year :: .num month :: .num day :: .chr separator :: .num hour :: .num minute :: .num second :: extra =>
    if strict ∧ extra ≠ [] then none
    else if separator ≠ if nospace then 'T' else ' ' then none
    else if year < 1970 ∨ month < 1 ∨ month > 12 ∨ day < 1 ∨ day > 31 ∨ hour > 23 ∨ minute > 59 ∨ second > 60 ∨
        (year : Int) ≥ INT32_MAX then none
    else torTimegm
      { tmSec := second, tmMin := minute, tmHour := hour, tmMday := day, tmMon := month - 1, tmYear := year - 1900, tmWday := 0 }
  | _ => none

def parseIsoTime (cp : Text) : Option Int := parseIsoTime_ cp true false

def parseIsoTimeNospace (cp : Text) : Option Int := parseIsoTime_ cp true true

end Badnet.Encoding
