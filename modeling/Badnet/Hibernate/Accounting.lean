/-
  Badnet.Hibernate.Accounting — the accounting of bytes and the time to wake up (`feature/hibernate/hibernate.c`).

  At the start of an interval the relay takes the bytes per minute of the last one as the usage to expect, up to where
  it hit its soft limit if it did, and sleeps until a time from which what is allowed should last to the end. Bytes are
  64-bit numbers, active seconds 32-bit ones, and the time to consider is an `int`.
-/

namespace Badnet.Hibernate

inductive AccountingRule where
  | MAX
  | SUM
  | IN
  | OUT
  deriving DecidableEq

structure AccountingOptions where
  accountingMax : UInt64
  accountingRule : AccountingRule
  bandwidthRate : UInt64
  relayBandwidthRate : UInt64

/-- The counters of the interval, its times, and the bytes per minute that are expected. -/
structure Accounting where
  nBytesReadInInterval : UInt64
  nBytesWrittenInInterval : UInt64
  nSecondsActiveInInterval : UInt32
  softLimitHitAt : Int64
  nBytesAtSoftLimit : UInt64
  intervalStartTime : Int64
  intervalEndTime : Int64
  intervalWakeupTime : Int64
  expectedBandwidthUsage : UInt64

def MIN_TIME_FOR_MEASUREMENT : Int64 := 1800

def INT_MAX : UInt64 := 2147483647

/-! ## Counting -/

def accountingAddBytes (st : Accounting) (nRead nWritten : UInt64) (seconds : Int32) : Accounting :=
  { st with
    nBytesReadInInterval := st.nBytesReadInInterval + nRead
    nBytesWrittenInInterval := st.nBytesWrittenInInterval + nWritten
    nSecondsActiveInInterval := st.nSecondsActiveInInterval + if seconds < 10 then seconds.toUInt32 else 0 }

variable (options : AccountingOptions) (st : Accounting)

def getAccountingBytes : UInt64 :=
  match options.accountingRule with
  | .SUM => st.nBytesReadInInterval + st.nBytesWrittenInInterval
  | .IN => st.nBytesReadInInterval
  | .OUT => st.nBytesWrittenInInterval
  | .MAX => if st.nBytesReadInInterval > st.nBytesWrittenInInterval then st.nBytesReadInInterval else st.nBytesWrittenInInterval

/-- What `hibernate_begin` notes when a relay that is live goes to low bandwidth. -/
def softLimitHit (now : Int64) : Accounting :=
  { st with softLimitHitAt := now, nBytesAtSoftLimit := getAccountingBytes options st }

/-! ## The usage to expect -/

def maxConfigured : UInt64 :=
  let rate := (if options.relayBandwidthRate > 0 then options.relayBandwidthRate else options.bandwidthRate) * 60
  if options.accountingRule = .SUM then rate * 2 else rate

/-- The soft limit was hit late enough in the interval to measure up to there. -/
def SoftMeasured : Prop :=
  st.softLimitHitAt > st.intervalStartTime ∧ st.nBytesAtSoftLimit ≠ 0 ∧
    st.softLimitHitAt - st.intervalStartTime > MIN_TIME_FOR_MEASUREMENT

instance (st : Accounting) : Decidable (SoftMeasured st) := inferInstanceAs (Decidable (_ ∧ _ ∧ _))

/-- What `update_expected_bandwidth` finds before it caps it. -/
def measuredUsage : UInt64 :=
  if SoftMeasured st then st.nBytesAtSoftLimit / (st.softLimitHitAt - st.intervalStartTime).toUInt64 / 60
  else if st.nSecondsActiveInInterval ≥ 1800 then
    getAccountingBytes options st / (st.nSecondsActiveInInterval / 60).toUInt64
  else 0

def updateExpectedBandwidth : Accounting :=
  let expected := measuredUsage options st
  { st with expectedBandwidthUsage := if expected > maxConfigured options then maxConfigured options else expected }

/-- The times of the new interval are those of the calendar. -/
def resetAccounting (start stop : Int64) : Accounting :=
  { updateExpectedBandwidth options st with
    intervalStartTime := start
    intervalEndTime := stop
    nBytesReadInInterval := 0
    nBytesWrittenInInterval := 0
    nSecondsActiveInInterval := 0
    nBytesAtSoftLimit := 0
    softLimitHitAt := 0 }

/-! ## The time to wake up -/

def accountingGetIntervalLength : Int32 := (st.intervalEndTime - st.intervalStartTime).toInt32

/-- The seconds until what is allowed is used up. -/
def timeToExhaustBw : UInt64 :=
  options.accountingMax / st.expectedBandwidthUsage * 60

def timeToConsider : Int32 :=
  if timeToExhaustBw options st > INT_MAX then 0
  else accountingGetIntervalLength st - (timeToExhaustBw options st).toUInt32.toInt32

/-- `draw` is the start of a digest of the key and the interval. -/
def accountingSetWakeupTime (draw : UInt32) : Accounting :=
  if st.expectedBandwidthUsage = 0 then { st with intervalWakeupTime := st.intervalStartTime }
  else if timeToConsider options st ≤ 0 then { st with intervalWakeupTime := st.intervalStartTime }
  else
    { st with
      intervalWakeupTime := st.intervalStartTime + (draw % (timeToConsider options st).toUInt32).toUInt64.toInt64 }

/-! ## Histories -/

inductive AccountingEvent where
  | addBytes (nRead nWritten : UInt64) (seconds : Int32)
  | softLimit (options : AccountingOptions) (now : Int64)
  | newInterval (options : AccountingOptions) (start stop : Int64)
  | setWakeup (options : AccountingOptions) (draw : UInt32)

def accountingStep : AccountingEvent → Accounting
  | .addBytes nRead nWritten seconds => accountingAddBytes st nRead nWritten seconds
  | .softLimit options now => softLimitHit options st now
  | .newInterval options start stop => resetAccounting options st start stop
  | .setWakeup options draw => accountingSetWakeupTime options st draw

def accountingRun (history : List AccountingEvent) : Accounting := history.foldl accountingStep st

end Badnet.Hibernate
