/-
  Badnet.Encoding.Timestamps — times that are formatted and parsed.

  `tor_timegm` counts days as the calendar does (`dayNumber_eq`), but its bound for the day of the month takes a year
  for a leap year when the year since 1900 would be one (`timegmDpm_eq`). Both agree unless the year is divisible by 400
  or leaves 300. A formatted time is parsed into the fields it was made from, so it is read back exactly when
  `tor_timegm` takes it (`timestamps_survive_iff`).
-/

import Mathlib.Tactic.IntervalCases
import Badnet.Encoding.TimeFmt

namespace Badnet.Encoding

open Lib

/-! ## The calendar of `tor_timegm` -/

theorem isLeapyear_iff (y : Nat) : isLeapyear y = true ↔ IsLeap y := by
  simp only [isLeapyear, IsLeap, Bool.and_eq_true, Bool.or_eq_true, decide_eq_true_eq]
  omega

variable {y t : Nat} {tm : Tm}

/-- The days before a year, since 1970. -/
theorem yearDays_eq (hy : 1970 ≤ y) :
    365 * ((y : Int) - 1970) + nLeapdays 1970 y = (total (fun i => yearLength (1970 + i)) (y - 1970) : Nat) := by
  obtain ⟨n, rfl⟩ := Nat.exists_eq_add_of_le hy
  have htotal := @total_yearLength 1970 (by decide) n
  rw [Nat.add_sub_cancel_left]
  simp only [leapsBefore] at htotal
  simp only [nLeapdays]
  omega

/-- The days before a month. -/
theorem monthDays_eq {m : Nat} (hm : m ≤ 11) :
    (daysPerMonth.take m).sum + (if (m : Int) > 1 ∧ isLeapyear y then 1 else 0) = (total (monthLength y) m : Nat) := by
  by_cases hleap : IsLeap y
  · have hcode := (isLeapyear_iff y).mpr hleap
    interval_cases m <;> simp [total, monthLength, hleap, hcode, daysPerMonth]
  · have hcode : isLeapyear y = false := Bool.eq_false_iff.mpr fun h => hleap ((isLeapyear_iff y).mp h)
    interval_cases m <;> simp [total, monthLength, hleap, hcode, daysPerMonth]

/-- The bound that the code takes for the day of the month. -/
def timegmMonthLength (y m : Nat) : Nat :=
  if m = 1 then if y % 4 = 0 ∧ (y % 100 ≠ 0 ∨ y % 400 = 300) then 29 else 28 else monthLength y m

theorem timegmMonthLength_eq {m : Nat} (h : m = 1 → y % 400 ≠ 0 ∧ y % 400 ≠ 300) :
    timegmMonthLength y m = monthLength y m := by
  unfold timegmMonthLength monthLength
  by_cases hm : m = 1
  · obtain ⟨hzero, hthree⟩ := h hm
    by_cases hleap : IsLeap y
    · rw [if_pos hm, if_pos hm, if_pos hleap, if_pos]
      unfold IsLeap at hleap
      omega
    · rw [if_pos hm, if_pos hm, if_neg hleap, if_neg]
      unfold IsLeap at hleap
      omega
  · rw [if_neg hm, if_neg hm]

theorem timegmMonthLength_of_400 (h : y % 400 = 0) : timegmMonthLength y 1 = 28 ∧ monthLength y 1 = 29 := by
  have hcode : ¬ (y % 4 = 0 ∧ (y % 100 ≠ 0 ∨ y % 400 = 300)) := by omega
  have hleap : IsLeap y := by
    unfold IsLeap
    omega
  simp only [timegmMonthLength, monthLength, if_true, if_neg hcode, if_pos hleap, and_self]

theorem timegmMonthLength_of_300 (h : y % 400 = 300) : timegmMonthLength y 1 = 29 ∧ monthLength y 1 = 28 := by
  have hcode : y % 4 = 0 ∧ (y % 100 ≠ 0 ∨ y % 400 = 300) := by omega
  have hleap : ¬ IsLeap y := by
    unfold IsLeap
    omega
  simp only [timegmMonthLength, monthLength, if_true, if_pos hcode, if_neg hleap, and_self]

/-- A broken-down time from fields that are not negative. -/
def tmOf (y m d hour min sec : Nat) (wday : Int) : Tm where
  tmSec := sec
  tmMin := min
  tmHour := hour
  tmMday := d
  tmMon := m
  tmYear := (y : Int) - 1900
  tmWday := wday

section
variable {y m d hour min sec : Nat} {wday : Int}

theorem timegmYear_tmOf (hy : y < 2147483647) : timegmYear (tmOf y m d hour min sec wday) = y := by
  have hlt : (tmOf y m d hour min sec wday).tmYear < INT32_MAX - 1900 := by
    simp only [tmOf, INT32_MAX]
    omega
  rw [timegmYear, if_pos hlt]
  exact Int.sub_add_cancel _ _

theorem invalidYear_tmOf (hy : 1970 ≤ y) (hmax : y < 2147483647) : invalidYear (tmOf y m d hour min sec wday) = false := by
  rw [invalidYear, timegmYear_tmOf hmax]
  have hbelow : ¬ (tmOf y m d hour min sec wday).tmYear ≥ INT32_MAX - 1900 := by
    change ¬ (y : Int) - 1900 ≥ 2147483647 - 1900
    omega
  rw [decide_eq_false hbelow, decide_eq_false (by omega)]
  rfl

theorem timegmDpm_eq (hy : 1970 ≤ y) (hmax : y < 2147483647) (hm : m ≤ 11) :
    timegmDpm (tmOf y m d hour min sec wday) = timegmMonthLength y m := by
  have hleap : isLeapyear ((y : Int) - 1900) = true ↔ y % 4 = 0 ∧ (y % 100 ≠ 0 ∨ y % 400 = 300) := by
    simp only [isLeapyear, Bool.and_eq_true, Bool.or_eq_true, decide_eq_true_eq]
    omega
  have hrange : (m : Int) ≥ 0 ∧ (m : Int) ≤ 11 := by omega
  rw [timegmDpm, invalidYear_tmOf hy hmax]
  simp only [tmOf, if_pos hrange, Bool.not_false, true_and, hleap, Int.toNat_natCast, timegmMonthLength]
  by_cases hfeb : m = 1
  · subst hfeb
    by_cases hcond : y % 4 = 0 ∧ (y % 100 ≠ 0 ∨ y % 400 = 300)
    · rw [if_pos ⟨rfl, hcond⟩, if_pos rfl, if_pos hcond]
      rfl
    · rw [if_neg (fun h => hcond h.2), if_pos rfl, if_neg hcond]
      rfl
  · rw [if_neg (fun h => hfeb (by omega)), if_neg hfeb, monthLength, if_neg hfeb]
    interval_cases m <;> first | rfl | exact absurd rfl hfeb

def dayNumber (y m d : Nat) : Nat := total (fun i => yearLength (1970 + i)) (y - 1970) + total (monthLength y) m + (d - 1)

/-- The fields that are accepted, and what they mean. -/
def TimegmAccepts (y m d hour min sec : Nat) : Prop :=
  m ≤ 11 ∧ 1 ≤ d ∧ d ≤ timegmMonthLength y m ∧ hour ≤ 23 ∧ min ≤ 59 ∧ sec ≤ 60

theorem torTimegm_accepted (hy : 1970 ≤ y) (hmax : y < 2147483647) (h : TimegmAccepts y m d hour min sec) :
    torTimegm (tmOf y m d hour min sec wday) = some (((dayNumber y m d * 24 + hour) * 60 + min) * 60 + sec : Nat) := by
  obtain ⟨hm, hd, hdpm, hhour, hmin, hsec⟩ := h
  have hyears := yearDays_eq hy
  have hmonths := @monthDays_eq y m hm
  simp only [torTimegm, invalidYear_tmOf hy hmax, timegmDpm_eq hy hmax hm, timegmYear_tmOf hmax]
  refine (if_neg ?_).trans (congrArg some ?_)
  · simp only [tmOf, Bool.false_eq_true, false_or]
    omega
  · by_cases hleap : (tmOf y m d hour min sec wday).tmMon > 1 ∧ isLeapyear y = true
    · rw [if_pos (show (m : Int) > 1 ∧ isLeapyear y = true from hleap)] at hmonths
      rw [if_pos hleap]
      simp only [tmOf, Int.toNat_natCast, dayNumber]
      omega
    · rw [if_neg (show ¬ ((m : Int) > 1 ∧ isLeapyear y = true) from hleap)] at hmonths
      rw [if_neg hleap]
      simp only [tmOf, Int.toNat_natCast, dayNumber]
      omega

theorem torTimegm_refused (hy : 1970 ≤ y) (hmax : y < 2147483647) (h : ¬ TimegmAccepts y m d hour min sec) :
    torTimegm (tmOf y m d hour min sec wday) = none := by
  simp only [torTimegm, invalidYear_tmOf hy hmax]
  refine if_pos ?_
  simp only [tmOf, Bool.false_eq_true, false_or]
  by_cases hm : m ≤ 11
  · have hdpm := @timegmDpm_eq y m d hour min sec wday hy hmax hm
    unfold tmOf at hdpm
    rw [hdpm]
    unfold TimegmAccepts at h
    omega
  · omega

end

/-! ## The date of a time -/

/-- The last second of the year 9999. -/
def lastTime : Nat := 253402300799

def yearOf (t : Nat) : Nat := 1970 + (gmtimeYear t).1

def monthOf (t : Nat) : Nat := (gmtimeMonth t).1

def mdayOf (t : Nat) : Nat := (gmtimeMonth t).2 + 1

theorem gmtimeR_eq (t : Nat) :
    gmtimeR t = tmOf (yearOf t) (monthOf t) (mdayOf t) (t / 3600 % 24) (t / 60 % 60) (t % 60) ((t / 86400 + 4) % 7 : Nat) := by
  have hyear : ((70 + (gmtimeYear t).1 : Nat) : Int) = (yearOf t : Int) - 1900 := by
    unfold yearOf
    omega
  rw [gmtimeR, hyear]
  rfl

theorem gmtimeYear_spec (t : Nat) :
    total (fun i => yearLength (1970 + i)) (gmtimeYear t).1 + (gmtimeYear t).2 = t / 86400 ∧
    (gmtimeYear t).2 < yearLength (yearOf t) := by
  have htotal := @total_locate (fun i => yearLength (1970 + i)) (t / 86400 + 1) 0 (t / 86400)
  rw [total, Nat.zero_add] at htotal
  exact ⟨htotal, locate_lt (fun i => yearLength_pos (1970 + i)) (Nat.lt_succ_self _)⟩

theorem gmtimeMonth_spec (t : Nat) :
    total (monthLength (yearOf t)) (monthOf t) + (gmtimeMonth t).2 = (gmtimeYear t).2 ∧ monthOf t < 12 ∧
    mdayOf t ≤ monthLength (yearOf t) (monthOf t) := by
  have htotal := @total_locate (monthLength (yearOf t)) 12 0 (gmtimeYear t).2
  rw [total, Nat.zero_add] at htotal
  have hlast := @locate_lt_of_total (monthLength (yearOf t)) 12 0 (gmtimeYear t).2 (by
    rw [total, Nat.zero_add, Nat.zero_add, total_monthLength_twelve]
    exact (gmtimeYear_spec t).2)
  rw [Nat.zero_add] at hlast
  exact ⟨htotal, hlast⟩

theorem yearOf_le (ht : t ≤ lastTime) : yearOf t ≤ 9999 := by
  have hdays := (gmtimeYear_spec t).1
  have hnine := @total_yearLength 1970 (by decide) 8030
  simp only [leapsBefore] at hnine
  unfold yearOf
  by_contra hlate
  have hmono := @total_mono (fun i => yearLength (1970 + i)) 8030 (gmtimeYear t).1 (by omega)
  unfold lastTime at ht
  omega

theorem dayNumber_eq (t : Nat) : dayNumber (yearOf t) (monthOf t) (mdayOf t) = t / 86400 := by
  have hyear := (gmtimeYear_spec t).1
  have hmonth := (gmtimeMonth_spec t).1
  have hshift : yearOf t - 1970 = (gmtimeYear t).1 := Nat.add_sub_cancel_left _ _
  have hday : mdayOf t - 1 = (gmtimeMonth t).2 := Nat.add_sub_cancel _ _
  rw [dayNumber, hshift, hday]
  omega

theorem torGmtimeR_eq (ht : t ≤ lastTime) : torGmtimeR t = gmtimeR t := by
  have hyear := yearOf_le ht
  have hlate : ¬ (gmtimeR t).tmYear > 8099 := by
    rw [gmtimeR_eq]
    simp only [tmOf]
    omega
  have hearly : ¬ (gmtimeR t).tmYear < 1 - 1900 := by
    rw [gmtimeR_eq]
    simp only [tmOf, yearOf]
    omega
  rw [torGmtimeR, correctTm, if_neg hlate, if_neg hearly]

/-- The 29th of February of a year divisible by 400. -/
def OnLeapDay400 (t : Nat) : Prop := yearOf t % 400 = 0 ∧ monthOf t = 1 ∧ mdayOf t = 29

theorem timegmAccepts_iff (t : Nat) :
    TimegmAccepts (yearOf t) (monthOf t) (mdayOf t) (t / 3600 % 24) (t / 60 % 60) (t % 60) ↔ ¬ OnLeapDay400 t := by
  obtain ⟨-, hmonth, hmday⟩ := gmtimeMonth_spec t
  have hday : 1 ≤ mdayOf t := Nat.succ_pos _
  unfold TimegmAccepts OnLeapDay400
  by_cases hfeb : monthOf t = 1 ∧ (yearOf t % 400 = 0 ∨ yearOf t % 400 = 300)
  · obtain ⟨hfeb, hcentury⟩ := hfeb
    rw [hfeb] at hmday ⊢
    rcases hcentury with hzero | hthree
    · obtain ⟨hcode, hreal⟩ := timegmMonthLength_of_400 hzero
      omega
    · obtain ⟨hcode, hreal⟩ := timegmMonthLength_of_300 hthree
      omega
  · have hsame := @timegmMonthLength_eq (yearOf t) (monthOf t) (by omega)
    omega

/-- Any broken-down time with the fields of `t`. -/
theorem torTimegm_fields (ht : t ≤ lastTime) (wday : Int) :
    torTimegm (tmOf (yearOf t) (monthOf t) (mdayOf t) (t / 3600 % 24) (t / 60 % 60) (t % 60) wday) = some (t : Int) ↔
    ¬ OnLeapDay400 t := by
  have hmax : yearOf t < 2147483647 := Nat.lt_of_le_of_lt (yearOf_le ht) (by decide)
  have hmin : 1970 ≤ yearOf t := Nat.le_add_right _ _
  rw [← timegmAccepts_iff]
  by_cases haccept : TimegmAccepts (yearOf t) (monthOf t) (mdayOf t) (t / 3600 % 24) (t / 60 % 60) (t % 60)
  · have hvalue : ((t / 86400 * 24 + t / 3600 % 24) * 60 + t / 60 % 60) * 60 + t % 60 = t := by omega
    rw [torTimegm_accepted hmin hmax haccept, dayNumber_eq, hvalue]
    exact iff_of_true rfl haccept
  · rw [torTimegm_refused hmin hmax haccept]
    exact iff_of_false nofun haccept

/-! ## Texts -/

/-- The two ISO formats. -/
def isoText (separator : Char) (y m d hour min sec : Nat) : Text :=
  decimal y ++ '-' :: (paddedDecimal 2 m ++ '-' :: (paddedDecimal 2 d ++ separator :: (paddedDecimal 2 hour ++
    ':' :: (paddedDecimal 2 min ++ ':' :: paddedDecimal 2 sec))))

def rfc1123Text (weekday month : Text) (y d hour min sec : Nat) : Text :=
  weekday ++ (',' :: ' ' :: (paddedDecimal 2 d ++ ' ' :: (month ++ (' ' :: (decimal y ++ ' ' :: (paddedDecimal 2 hour ++
    ':' :: (paddedDecimal 2 min ++ ':' :: (paddedDecimal 2 sec ++ [' ', 'G', 'M', 'T']))))))))

theorem strftime_lit {c : Char} (hc : c ≠ '%') (format : Text) (tm : Tm) : strftime (c :: format) tm = c :: strftime format tm := by
  rw [strftime.eq_def]
  split <;> next heq => cases heq <;> first | exact absurd rfl hc | rfl

theorem strftime_iso (y m d hour min sec : Nat) (wday : Int) :
    strftime "%Y-%m-%d %H:%M:%S".toList (tmOf y m d hour min sec wday) = isoText ' ' y (m + 1) d hour min sec := by
  have hformat : "%Y-%m-%d %H:%M:%S".toList =
      ['%', 'Y', '-', '%', 'm', '-', '%', 'd', ' ', '%', 'H', ':', '%', 'M', ':', '%', 'S'] := by decide +kernel
  have hyear : (tmOf y m d hour min sec wday).tmYear + 1900 = (y : Int) := Int.sub_add_cancel _ _
  have hmonth : ((tmOf y m d hour min sec wday).tmMon + 1).toNat = m + 1 := Int.toNat_natCast (m + 1)
  rw [hformat]
  simp (disch := decide) only [strftime_lit, strftime, hyear, hmonth]
  simp only [tmOf, Int.toNat_natCast, isoText, List.append_nil]

theorem strftime_rfc1123 (y m d hour min sec : Nat) (wday : Int) :
    strftime "___, %d ___ %Y %H:%M:%S GMT".toList (tmOf y m d hour min sec wday) =
      rfc1123Text ['_', '_', '_'] ['_', '_', '_'] y d hour min sec := by
  have hformat : "___, %d ___ %Y %H:%M:%S GMT".toList =
      ['_', '_', '_', ',', ' ', '%', 'd', ' ', '_', '_', '_', ' ', '%', 'Y', ' ', '%', 'H', ':', '%', 'M', ':', '%', 'S',
        ' ', 'G', 'M', 'T'] := by decide +kernel
  have hyear : (tmOf y m d hour min sec wday).tmYear + 1900 = (y : Int) := Int.sub_add_cancel _ _
  rw [hformat]
  simp (disch := decide) only [strftime_lit, strftime, hyear]
  simp only [tmOf, Int.toNat_natCast, rfc1123Text, List.cons_append, List.nil_append]

section
variable {y m d hour min sec : Nat}

theorem head_cons_not_digit {c : Char} (hc : c.isDigit = false) (rest : Text) : ∀ x ∈ (c :: rest).head?, x.isDigit = false := by
  intro x hx
  rw [← Option.some.inj hx]
  exact hc

theorem scan_two {n : Nat} (hn : n < 100) (pattern : List Directive) {rest : Text}
    (hrest : ∀ c ∈ rest.head?, c.isDigit = false) :
    torVsscanf (.u 2 :: pattern) (paddedDecimal 2 n ++ rest) = .num n :: torVsscanf pattern rest :=
  torVsscanf_number (Nat.le_of_eq (length_paddedDecimal (by decide) hn))
    (Nat.le_trans (Nat.le_of_lt hn) (by decide)) pattern hrest

theorem scan_year (hy : y < 10000) (pattern : List Directive) {rest : Text} (hrest : ∀ c ∈ rest.head?, c.isDigit = false) :
    torVsscanf (.u MAX_SCANF_WIDTH :: pattern) (decimal y ++ rest) = .num y :: torVsscanf pattern rest := by
  have hlen : (decimal y).length ≤ 4 := (Nat.length_toDigits_le_iff (by decide) (by decide)).mpr hy
  have hplain : paddedDecimal 0 y = decimal y := by
    rw [paddedDecimal, Nat.zero_sub, List.replicate_zero, List.nil_append]
  rw [← hplain] at hlen ⊢
  exact torVsscanf_number (Nat.le_trans hlen (by decide)) (Nat.le_trans (Nat.le_of_lt hy) (by decide)) pattern hrest

theorem scan_iso (separator : Char) (hseparator : separator.isDigit = false) (hy : y < 10000) (hm : m < 100) (hd : d < 100)
    (hhour : hour < 100) (hmin : min < 100) (hsec : sec < 100) :
    torVsscanf isoPattern (isoText separator y m d hour min sec) =
      [.num y, .num m, .num d, .chr separator, .num hour, .num min, .num sec] := by
  have hlast := @scan_two sec hsec [.c] [] (fun c hc => by cases hc)
  rw [List.append_nil] at hlast
  rw [isoText, isoPattern, scan_year hy _ (head_cons_not_digit rfl _), torVsscanf_lit, scan_two hm _ (head_cons_not_digit rfl _),
    torVsscanf_lit, scan_two hd _ (head_cons_not_digit hseparator _), torVsscanf_char,
    scan_two hhour _ (head_cons_not_digit rfl _), torVsscanf_lit, scan_two hmin _ (head_cons_not_digit rfl _), torVsscanf_lit,
    hlast]
  rfl

theorem scan_rfc1123 {weekday month : Text} (hweekday : weekday.length = 3 ∧ ∀ c ∈ weekday, isspace c = false)
    (hmonth : month.length = 3 ∧ ∀ c ∈ month, isspace c = false) (hy : y < 10000) (hd : d < 100) (hhour : hour < 100)
    (hmin : min < 100) (hsec : sec < 100) :
    torVsscanf rfc1123Pattern (rfc1123Text weekday month y d hour min sec) =
      [.str weekday, .num d, .str month, .num y, .num hour, .num min, .num sec] := by
  rw [rfc1123Text, rfc1123Pattern, torVsscanf_word hweekday.1 hweekday.2, torVsscanf_lit, torVsscanf_lit,
    scan_two hd _ (head_cons_not_digit rfl _), torVsscanf_lit, torVsscanf_word hmonth.1 hmonth.2, torVsscanf_lit,
    scan_year hy _ (head_cons_not_digit rfl _), torVsscanf_lit, scan_two hhour _ (head_cons_not_digit rfl _), torVsscanf_lit,
    scan_two hmin _ (head_cons_not_digit rfl _), torVsscanf_lit, scan_two hsec _ (head_cons_not_digit rfl _), torVsscanf_lit,
    torVsscanf_lit, torVsscanf_lit, torVsscanf_lit]
  rfl

end

/-! ## Round trips -/

/-- The fields of a date that there is, with a year of four digits. -/
structure DateFields (y m d hour min sec : Nat) : Prop where
  year : 1970 ≤ y ∧ y ≤ 9999
  month : m < 12
  mday : 1 ≤ d ∧ d ≤ monthLength y m
  time : hour < 24 ∧ min < 60 ∧ sec < 60

theorem dateFields (ht : t ≤ lastTime) :
    DateFields (yearOf t) (monthOf t) (mdayOf t) (t / 3600 % 24) (t / 60 % 60) (t % 60) where
  year := ⟨Nat.le_add_right _ _, yearOf_le ht⟩
  month := (gmtimeMonth_spec t).2.1
  mday := ⟨Nat.succ_pos _, (gmtimeMonth_spec t).2.2⟩
  time := ⟨Nat.mod_lt _ (by decide), Nat.mod_lt _ (by decide), Nat.mod_lt _ (by decide)⟩

section
variable {y m d hour min sec : Nat}

theorem parseIsoTime_text (h : DateFields y m d hour min sec) (nospace : Bool) :
    parseIsoTime_ (isoText (if nospace then 'T' else ' ') y (m + 1) d hour min sec) true nospace =
      torTimegm (tmOf y m d hour min sec 0) := by
  obtain ⟨⟨hlow, hhigh⟩, hmonth, ⟨hfirst, hlast⟩, hhour, hmin, hsec⟩ := h
  have hmday := Nat.le_trans hlast (monthLength_le y m)
  have hseparator : (if nospace then 'T' else ' ').isDigit = false := by cases nospace <;> rfl
  have hfields : (⟨sec, min, hour, d, (m + 1 : Nat) - 1, (y : Int) - 1900, 0⟩ : Tm) = tmOf y m d hour min sec 0 := by
    have hmon : ((m + 1 : Nat) : Int) - 1 = m := by omega
    rw [hmon]
    rfl
  have hrange : ¬ (y < 1970 ∨ m + 1 < 1 ∨ m + 1 > 12 ∨ d < 1 ∨ d > 31 ∨ hour > 23 ∨ min > 59 ∨ sec > 60 ∨
      (y : Int) ≥ INT32_MAX) := by
    unfold INT32_MAX
    omega
  rw [parseIsoTime_, scan_iso _ hseparator (by omega) (by omega) (by omega) (by omega) (by omega) (by omega)]
  simp only [ne_eq, not_true_eq_false, and_false, if_false]
  rw [if_neg hrange, hfields]

theorem length_year (hlow : 1000 ≤ y) (hhigh : y < 10000) : (decimal y).length = 4 := by
  have hle : (decimal y).length ≤ 4 := (Nat.length_toDigits_le_iff (by decide) (by decide)).mpr hhigh
  have hnot : ¬ (decimal y).length ≤ 3 := fun h =>
    absurd ((Nat.length_toDigits_le_iff (by decide) (by decide)).mp h) (Nat.not_lt.mpr hlow)
  omega

theorem isoText_set (h : DateFields y m d hour min sec) :
    (isoText ' ' y (m + 1) d hour min sec).set 10 'T' = isoText 'T' y (m + 1) d hour min sec := by
  obtain ⟨⟨hlow, hhigh⟩, hmonth, ⟨hfirst, hlast⟩, -⟩ := h
  have hmday := Nat.le_trans hlast (monthLength_le y m)
  have hfront : (decimal y ++ '-' :: (paddedDecimal 2 (m + 1) ++ '-' :: paddedDecimal 2 d)).length = 10 := by
    simp only [List.length_append, List.length_cons, length_year (Nat.le_trans (by decide) hlow) (Nat.lt_succ_of_le hhigh),
      @length_paddedDecimal 2 (m + 1) (by decide) (by omega), @length_paddedDecimal 2 d (by decide) (by omega)]
  have hsplit : ∀ separator, isoText separator y (m + 1) d hour min sec =
      (decimal y ++ '-' :: (paddedDecimal 2 (m + 1) ++ '-' :: paddedDecimal 2 d)) ++ separator :: (paddedDecimal 2 hour ++
        ':' :: (paddedDecimal 2 min ++ ':' :: paddedDecimal 2 sec)) := by
    intro separator
    simp only [isoText, List.append_assoc, List.cons_append]
  rw [hsplit, hsplit, List.set_append_right _ _ (Nat.le_of_eq hfront), hfront]
  rfl

theorem memcpyTo_middle (front old rest : Text) {src : Text} (hlen : src.length = old.length) :
    memcpyTo (front ++ (old ++ rest)) front.length src = front ++ (src ++ rest) := by
  rw [memcpyTo, List.take_left, hlen, ← List.drop_drop, List.drop_left, List.drop_left]

/-- A name of a day or a month is three letters. -/
theorem three_letters (names : List Text) (hnames : names = WEEKDAY_NAMES ∨ names = MONTH_NAMES) {i : Nat}
    (hi : i < names.length) : (names.getD i []).length = 3 ∧ ∀ c ∈ names.getD i [], isspace c = false := by
  have hnames' : (WEEKDAY_NAMES ++ MONTH_NAMES).all (fun name => name.length == 3 && name.all fun c => !isspace c) = true := by
    decide +kernel
  have hall : ∀ name ∈ WEEKDAY_NAMES ++ MONTH_NAMES, name.length = 3 ∧ ∀ c ∈ name, isspace c = false := by
    intro name hname
    simpa using List.all_eq_true.mp hnames' name hname
  have hmem : names.getD i [] ∈ names := by
    rw [List.getD_eq_getElem?_getD, List.getElem?_eq_getElem hi]
    exact List.getElem_mem hi
  rcases hnames with rfl | rfl
  · exact hall _ (List.mem_append_left _ hmem)
  · exact hall _ (List.mem_append_right _ hmem)

theorem findIdx_month (hm : m < 12) : MONTH_NAMES.findIdx? (· == MONTH_NAMES.getD m []) = some m := by
  have hall : ∀ i < 12, MONTH_NAMES.findIdx? (· == MONTH_NAMES.getD i []) = some i := by decide +kernel
  exact hall m hm

theorem rfc1123_names {weekday month : Text} (hweekday : weekday.length = 3) (hmonth : month.length = 3) (hd : d < 100) :
    memcpyTo (memcpyTo (rfc1123Text ['_', '_', '_'] ['_', '_', '_'] y d hour min sec) 0 weekday) 8 month =
      rfc1123Text weekday month y d hour min sec := by
  have hfront : (weekday ++ (',' :: ' ' :: (paddedDecimal 2 d ++ [' ']))).length = 8 := by
    simp only [List.length_append, List.length_cons, hweekday, @length_paddedDecimal 2 d (by decide) (by omega), List.length_nil]
  unfold rfc1123Text
  generalize ' ' :: (decimal y ++ ' ' :: (paddedDecimal 2 hour ++ ':' :: (paddedDecimal 2 min ++ ':' ::
    (paddedDecimal 2 sec ++ [' ', 'G', 'M', 'T'])))) = rest
  have hfirst := @memcpyTo_middle [] ['_', '_', '_'] (',' :: ' ' :: (paddedDecimal 2 d ++ ' ' :: (['_', '_', '_'] ++ rest)))
    weekday hweekday
  have hsecond := @memcpyTo_middle (weekday ++ (',' :: ' ' :: (paddedDecimal 2 d ++ [' ']))) ['_', '_', '_'] rest month hmonth
  rw [hfront] at hsecond
  simp only [List.nil_append, List.length_nil, List.append_assoc, List.cons_append] at hfirst hsecond
  rw [← hsecond, ← hfirst]
  rfl

end

section
variable {y m d hour min sec : Nat}

theorem length_rfc1123Text {weekday month : Text} (hweekday : weekday.length = 3) (hmonth : month.length = 3)
    (h : DateFields y m d hour min sec) : (rfc1123Text weekday month y d hour min sec).length = RFC1123_TIME_LEN := by
  obtain ⟨⟨hlow, hhigh⟩, -, ⟨-, hlast⟩, hhour, hmin, hsec⟩ := h
  have hmday := Nat.le_trans hlast (monthLength_le y m)
  have htwo : ∀ n < 60, (paddedDecimal 2 n).length = 2 := fun n hn => length_paddedDecimal (by decide) (by omega)
  simp only [rfc1123Text, List.length_append, List.length_cons, List.length_nil, hweekday, hmonth,
    length_year (Nat.le_trans (by decide) hlow) (Nat.lt_succ_of_le hhigh), htwo d (by omega), htwo hour (by omega), htwo min hmin,
    htwo sec hsec]
  rfl

theorem daysPerMonth_eq (hm : m < 12) (hleap : ¬ (m = 1 ∧ IsLeap y)) : daysPerMonth.getD m 0 = (monthLength y m : Nat) := by
  by_cases hfeb : m = 1
  · have hno : ¬ IsLeap y := fun hyes => hleap ⟨hfeb, hyes⟩
    subst hfeb
    simp only [monthLength, if_true, if_neg hno]
    rfl
  · rw [monthLength, if_neg hfeb]
    interval_cases m <;> first | rfl | exact absurd rfl hfeb

theorem parseRfc1123Time_text {weekday : Text} (hweekday : weekday.length = 3 ∧ ∀ c ∈ weekday, isspace c = false)
    (h : DateFields y m d hour min sec) :
    parseRfc1123Time (rfc1123Text weekday (MONTH_NAMES.getD m []) y d hour min sec) = torTimegm (tmOf y m d hour min sec 0) := by
  have hmonth := three_letters MONTH_NAMES (.inr rfl) h.month
  have hlength := length_rfc1123Text hweekday.1 hmonth.1 h
  obtain ⟨⟨hlow, hhigh⟩, hm, ⟨hfirst, hlast⟩, hhour, hmin, hsec⟩ := h
  have hmday := Nat.le_trans hlast (monthLength_le y m)
  have hvalid : ¬ ((y : Int) ≥ INT32_MAX ∨ y < 1970) := by
    unfold INT32_MAX
    omega
  have hdpm : (if m = 1 ∧ ¬ ((y : Int) ≥ INT32_MAX ∨ y < 1970) ∧ isLeapyear y then 29 else daysPerMonth.getD m 0) =
      (monthLength y m : Nat) := by
    by_cases hleap : m = 1 ∧ IsLeap y
    · rw [if_pos ⟨hleap.1, hvalid, (isLeapyear_iff y).mpr hleap.2⟩, monthLength, if_pos hleap.1, if_pos hleap.2]
      rfl
    · rw [if_neg fun hcode => hleap ⟨hcode.1, (isLeapyear_iff y).mp hcode.2.2⟩]
      exact daysPerMonth_eq hm hleap
  have hrange : ¬ (((y : Int) ≥ INT32_MAX ∨ y < 1970) ∨ d < 1 ∨ (d : Int) > (monthLength y m : Nat) ∨ hour > 23 ∨ min > 59 ∨
      sec > 60) := by omega
  rw [parseRfc1123Time, if_neg (by rw [hlength]; exact fun hne => hne rfl),
    scan_rfc1123 hweekday hmonth (by omega) (by omega) (by omega) (by omega) (by omega)]
  simp only [findIdx_month hm]
  rw [hdpm, if_neg hrange]
  rfl

end

theorem formatIsoTime_eq (ht : t ≤ lastTime) :
    formatIsoTime t = isoText ' ' (yearOf t) (monthOf t + 1) (mdayOf t) (t / 3600 % 24) (t / 60 % 60) (t % 60) := by
  rw [formatIsoTime, torGmtimeR_eq ht, gmtimeR_eq, strftime_iso]

theorem weekday_letters (t : Nat) : (WEEKDAY_NAMES.getD ((t / 86400 + 4) % 7) []).length = 3 ∧
    ∀ c ∈ WEEKDAY_NAMES.getD ((t / 86400 + 4) % 7) [], isspace c = false :=
  have hseven : (t / 86400 + 4) % 7 < WEEKDAY_NAMES.length := Nat.mod_lt _ (by decide)
  three_letters WEEKDAY_NAMES (.inl rfl) hseven

theorem formatRfc1123Time_eq (ht : t ≤ lastTime) :
    formatRfc1123Time t = rfc1123Text (WEEKDAY_NAMES.getD ((t / 86400 + 4) % 7) []) (MONTH_NAMES.getD (monthOf t) []) (yearOf t)
      (mdayOf t) (t / 3600 % 24) (t / 60 % 60) (t % 60) := by
  have hfields := dateFields ht
  have hmday := Nat.le_trans hfields.mday.2 (monthLength_le _ _)
  have hmonth := three_letters MONTH_NAMES (.inr rfl) hfields.month
  rw [← rfc1123_names (weekday_letters t).1 hmonth.1 (by omega)]
  simp only [formatRfc1123Time, torGmtimeR_eq ht, gmtimeR_eq, strftime_rfc1123]
  rfl

/-- The three formats are read back, and the broken-down time is turned back. -/
structure RoundTrips (t : Nat) : Prop where
  iso : parseIsoTime (formatIsoTime t) = some (t : Int)
  isoNospace : parseIsoTimeNospace (formatIsoTimeNospace t) = some (t : Int)
  rfc1123 : parseRfc1123Time (formatRfc1123Time t) = some (t : Int)
  timegm : torTimegm (torGmtimeR t) = some (t : Int)

theorem roundTrips_iff (ht : t ≤ lastTime) : RoundTrips t ↔ ¬ OnLeapDay400 t := by
  have hfields := dateFields ht
  have htimegm : torTimegm (torGmtimeR t) = some (t : Int) ↔ ¬ OnLeapDay400 t := by
    rw [torGmtimeR_eq ht, gmtimeR_eq]
    exact torTimegm_fields ht _
  constructor
  · intro h
    exact htimegm.mp h.timegm
  · intro h
    have hread := (torTimegm_fields ht 0).mpr h
    refine ⟨?_, ?_, ?_, htimegm.mpr h⟩
    · rw [formatIsoTime_eq ht]
      exact (parseIsoTime_text hfields false).trans hread
    · rw [formatIsoTimeNospace, formatIsoTime_eq ht, isoText_set hfields]
      exact (parseIsoTime_text hfields true).trans hread
    · rw [formatRfc1123Time_eq ht]
      exact (parseRfc1123Time_text (weekday_letters t) hfields).trans hread

/-! ## Times after 9999 -/

theorem lastTime_lt_iff : lastTime < t ↔ 9999 < yearOf t := by
  constructor
  · intro hlate
    by_contra hyear
    have hspec := gmtimeYear_spec t
    have hnine := @total_yearLength 1970 (by decide) 8030
    simp only [leapsBefore] at hnine
    have hyears : (gmtimeYear t).1 + 1 ≤ 8030 := by
      unfold yearOf at hyear
      omega
    have hmono := @total_mono (fun i => yearLength (1970 + i)) _ _ hyears
    rw [total] at hmono
    obtain ⟨hsum, hday⟩ := hspec
    unfold yearOf at hday
    unfold lastTime at hlate
    omega
  · intro hyear
    by_contra hearly
    have hle := yearOf_le (Nat.not_lt.mp hearly)
    omega

/-- A later time is printed as the last second of 9999; only the day of the week is another. -/
theorem formatIsoTime_late (h : lastTime < t) : formatIsoTime t = formatIsoTime lastTime := by
  have hyear : (gmtimeR t).tmYear > 8099 := by
    have hlate := lastTime_lt_iff.mp h
    rw [gmtimeR_eq]
    simp only [tmOf]
    omega
  have hclip : torGmtimeR t = tmOf 9999 11 31 23 59 59 6 := by
    rw [torGmtimeR, correctTm, if_pos hyear]
    rfl
  have hlast : torGmtimeR lastTime = tmOf 9999 11 31 23 59 59 5 := by decide +kernel
  rw [formatIsoTime, formatIsoTime, hclip, hlast, strftime_iso, strftime_iso]

theorem parseIsoTimeNospace_format (ht : t ≤ lastTime) : parseIsoTimeNospace (formatIsoTimeNospace t) =
      torTimegm (tmOf (yearOf t) (monthOf t) (mdayOf t) (t / 3600 % 24) (t / 60 % 60) (t % 60) 0) := by
  have hfields := dateFields ht
  rw [formatIsoTimeNospace, formatIsoTime_eq ht, isoText_set hfields]
  exact parseIsoTime_text hfields true

theorem parseIsoTimeNospace_leapDay (ht : t ≤ lastTime) (hleap : OnLeapDay400 t) :
    parseIsoTimeNospace (formatIsoTimeNospace t) = none := by
  have hmax : yearOf t < 2147483647 := Nat.lt_of_le_of_lt (yearOf_le ht) (by decide)
  rw [parseIsoTimeNospace_format ht]
  exact torTimegm_refused (Nat.le_add_right _ _) hmax fun haccept => (timegmAccepts_iff t).mp haccept hleap

/-- A time that is written and read back. -/
def TimeSurvives (t : Nat) : Prop := t ≤ lastTime ∧ ¬ OnLeapDay400 t

theorem parseIsoTimeNospace_of_survives (h : TimeSurvives t) :
    parseIsoTimeNospace (formatIsoTimeNospace t) = some (t : Int) := by
  rw [parseIsoTimeNospace_format h.1]
  exact (torTimegm_fields h.1 0).mpr h.2

/-- A later time is read back as the last second of 9999. -/
theorem parseIsoTimeNospace_late (h : lastTime < t) :
    parseIsoTimeNospace (formatIsoTimeNospace t) = some (lastTime : Int) := by
  have hlast : TimeSurvives lastTime := ⟨Nat.le_refl _, by unfold OnLeapDay400; decide +kernel⟩
  rw [← parseIsoTimeNospace_of_survives hlast, formatIsoTimeNospace, formatIsoTime_late h]
  rfl

/-! ## Days that do not exist -/

/-- The day is one of the calendar. -/
def DayExists (tm : Tm) : Prop :=
  0 ≤ tm.tmMon ∧ tm.tmMon ≤ 11 ∧ 1 ≤ tm.tmMday ∧ tm.tmMday ≤ monthLength (tm.tmYear + 1900).toNat tm.tmMon.toNat

/-- The 29th of February of a year that leaves 300 when divided by 400, at a time of the day that there is. -/
def OnFalseLeapDay (tm : Tm) : Prop :=
  (tm.tmYear + 1900) % 400 = 300 ∧ tm.tmMon = 1 ∧ tm.tmMday = 29 ∧ tm.tmYear < INT32_MAX - 1900 ∧
    0 ≤ tm.tmHour ∧ tm.tmHour ≤ 23 ∧ 0 ≤ tm.tmMin ∧ tm.tmMin ≤ 59 ∧ 0 ≤ tm.tmSec ∧ tm.tmSec ≤ 60

theorem eq_tmOf (hyear : -1900 ≤ tm.tmYear) (hmon : 0 ≤ tm.tmMon) (hmday : 0 ≤ tm.tmMday) (hhour : 0 ≤ tm.tmHour)
    (hmin : 0 ≤ tm.tmMin) (hsec : 0 ≤ tm.tmSec) :
    tm = tmOf (tm.tmYear + 1900).toNat tm.tmMon.toNat tm.tmMday.toNat tm.tmHour.toNat tm.tmMin.toNat tm.tmSec.toNat tm.tmWday := by
  obtain ⟨sec, min, hour, mday, mon, year, wday⟩ := tm
  have hback : ((year + 1900).toNat : Int) - 1900 = year := by
    have hyear : -1900 ≤ year := hyear
    omega
  simp only [tmOf, hback, Int.toNat_of_nonneg hmon, Int.toNat_of_nonneg hmday, Int.toNat_of_nonneg hhour,
    Int.toNat_of_nonneg hmin, Int.toNat_of_nonneg hsec]

/-- Fields that are accepted are not negative, and the year is from 1970 on. -/
theorem tmOf_of_accepted (h : (torTimegm tm).isSome) :
    ∃ y m d hour min sec, tm = tmOf y m d hour min sec tm.tmWday ∧ 1970 ≤ y ∧ y < 2147483647 ∧ TimegmAccepts y m d hour min sec := by
  have hsome : invalidYear tm = false ∧ 0 ≤ tm.tmMon ∧ 1 ≤ tm.tmMday ∧ 0 ≤ tm.tmHour ∧ 0 ≤ tm.tmMin ∧ 0 ≤ tm.tmSec := by
    unfold torTimegm at h
    simp only at h
    split at h
    · cases h
    next hvalid =>
      rw [not_or] at hvalid
      exact ⟨Bool.eq_false_iff.mpr hvalid.1, by omega⟩
  obtain ⟨hyear, hmon, hmday, hhour, hmin, hsec⟩ := hsome
  simp only [invalidYear, Bool.or_eq_false_iff, decide_eq_false_iff_not] at hyear
  have hsmall : tm.tmYear < INT32_MAX - 1900 := Int.not_le.mp hyear.2
  have hpast := hyear.1
  rw [timegmYear, if_pos hsmall] at hpast
  unfold INT32_MAX at hsmall
  have hfields := eq_tmOf (by omega) hmon (by omega) hhour hmin hsec
  refine ⟨_, _, _, _, _, _, hfields, by omega, by omega, ?_⟩
  by_contra hrefused
  rw [hfields, torTimegm_refused (by omega) (by omega) hrefused] at h
  cases h

theorem accepted_day_exists (hreal : ¬ OnFalseLeapDay tm) (h : (torTimegm tm).isSome) : DayExists tm := by
  obtain ⟨y, m, d, hour, min, sec, heq, hy, hmax, hm, hd, hdpm, hhour, hmin, hsec⟩ := tmOf_of_accepted h
  have hyear : tm.tmYear = (y : Int) - 1900 := congrArg Tm.tmYear heq
  have hmon : tm.tmMon = m := congrArg Tm.tmMon heq
  have hmday : tm.tmMday = d := congrArg Tm.tmMday heq
  have hlength : d ≤ monthLength y m := by
    by_cases hcentury : m = 1 ∧ (y % 400 = 0 ∨ y % 400 = 300)
    · obtain ⟨rfl, hzero | hthree⟩ := hcentury
      · obtain ⟨hcode, hcal⟩ := timegmMonthLength_of_400 hzero
        omega
      · obtain ⟨hcode, hcal⟩ := timegmMonthLength_of_300 hthree
        by_contra hlong
        refine hreal ⟨?_, hmon, ?_, ?_, ?_⟩
        · rw [hyear]
          omega
        · rw [hmday]
          omega
        · rw [hyear]
          unfold INT32_MAX
          omega
        · rw [heq]
          simp only [tmOf]
          omega
    · rw [← @timegmMonthLength_eq y m (by omega)]
      exact hdpm
  have hfull : (tm.tmYear + 1900).toNat = y := by
    rw [hyear, Int.sub_add_cancel, Int.toNat_natCast]
  have hmonth : tm.tmMon.toNat = m := by
    rw [hmon, Int.toNat_natCast]
  unfold DayExists
  rw [hfull, hmonth]
  omega

/-- From 1970 on, a false leap day is accepted. -/
theorem false_leap_day_accepted (h : OnFalseLeapDay tm) (hyear : tm.tmYear ≥ 70) :
    (torTimegm tm).isSome ∧ ¬ DayExists tm := by
  obtain ⟨hcentury, hmon, hmday, hmax, hhour, hhour', hmin, hmin', hsec, hsec'⟩ := h
  unfold INT32_MAX at hmax
  have hthree : (tm.tmYear + 1900).toNat % 400 = 300 := by omega
  obtain ⟨hcode, hcal⟩ := timegmMonthLength_of_300 hthree
  have hmonth : tm.tmMon.toNat = 1 := by
    rw [hmon]
    rfl
  constructor
  · have haccepts : TimegmAccepts (tm.tmYear + 1900).toNat tm.tmMon.toNat tm.tmMday.toNat tm.tmHour.toNat tm.tmMin.toNat
        tm.tmSec.toNat := by
      unfold TimegmAccepts
      rw [hmonth, hcode]
      omega
    rw [eq_tmOf (by omega) (by omega) (by omega) hhour hmin hsec, torTimegm_accepted (by omega) (by omega) haccepts]
    rfl
  · rintro ⟨-, -, -, hlength⟩
    rw [hmonth, hcal] at hlength
    omega

/-- A time is read back unless it is on the leap day of a year divisible by 400, and an accepted day is one of the
calendar unless it is the 29th of February of a year that leaves 300. -/
theorem timestamps_survive_iff (t : Nat) (ht : t ≤ lastTime) (tm : Tm) (hyear : tm.tmYear ≥ 70) :
    (RoundTrips t ↔ ¬ OnLeapDay400 t) ∧ (((torTimegm tm).isSome → DayExists tm) ↔ ¬ OnFalseLeapDay tm) := by
  refine ⟨roundTrips_iff ht, ?_, fun hreal h => accepted_day_exists hreal h⟩
  intro h hfalse
  obtain ⟨haccepted, hno⟩ := false_leap_day_accepted hfalse hyear
  exact hno (h haccepted)

/-- The 29th of February 2000, and the 29th of February 2300. -/
theorem timestamps_survive_of_leap_days :
    951782400 ≤ lastTime ∧ (400 : Int) ≥ 70 ∧ (RoundTrips 951782400 ↔ ¬ OnLeapDay400 951782400) ∧
    (((torTimegm ⟨0, 0, 0, 29, 1, 400, 0⟩).isSome → DayExists ⟨0, 0, 0, 29, 1, 400, 0⟩) ↔
      ¬ OnFalseLeapDay ⟨0, 0, 0, 29, 1, 400, 0⟩) :=
  ⟨by decide, by decide, timestamps_survive_iff 951782400 (by decide) ⟨0, 0, 0, 29, 1, 400, 0⟩ (by decide)⟩

/-- The leap day of 2000 is printed and refused, and a leap day of 2300 is accepted. -/
theorem the_leap_day_of_2000_is_lost :
    formatIsoTime 951782400 = "2000-02-29 00:00:00".toList ∧ parseIsoTime (formatIsoTime 951782400) = none ∧
    parseRfc1123Time (formatRfc1123Time 951782400) = none ∧ torTimegm (torGmtimeR 951782400) = none ∧
    ¬ RoundTrips 951782400 ∧
    (torTimegm ⟨0, 0, 0, 29, 1, 400, 0⟩).isSome ∧ ¬ DayExists ⟨0, 0, 0, 29, 1, 400, 0⟩ := by
  have htimegm : torTimegm (torGmtimeR 951782400) = none := by decide +kernel
  have hfalse : OnFalseLeapDay ⟨0, 0, 0, 29, 1, 400, 0⟩ := by
    unfold OnFalseLeapDay INT32_MAX
    decide
  refine ⟨by decide +kernel, by decide +kernel, by decide +kernel, htimegm, fun h => ?_, false_leap_day_accepted hfalse (by decide)⟩
  have hback := h.timegm
  rw [htimegm] at hback
  cases hback

end Badnet.Encoding
