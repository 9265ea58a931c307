/-
  Badnet.Evloop.TokenBucket — token buckets (`lib/evloop/token_bucket.c`).

  The code computes with a `size_t`, a `uint32_t` and an `int32_t`, and compares a quotient where the product might not
  fit. All the same it computes over the integers (`refill_exact`). So it does not matter in how many steps time passes
  (`token_bucket_refill_exact`), and a bucket that is refilled and used does not exceed its burst
  (`rw_levels_within_burst`).
-/

import Mathlib.Algebra.Ring.Nat
import Mathlib.Algebra.Order.Ring.Int
import Badnet.Lib.Run

namespace Badnet.Evloop

open Lib

def TOKEN_BUCKET_MAX_BURST : UInt32 := 2147483647

def TICKS_PER_STEP : UInt32 := 16

structure TokenBucketCfg where
  rate : UInt32
  burst : Int32
  deriving DecidableEq

structure TokenBucketRaw where
  bucket : Int32
  deriving DecidableEq

/-- That rate and burst are positive is only asserted, without stopping. -/
def tokenBucketCfgInit (rate burst : UInt32) : TokenBucketCfg where
  rate
  burst := (if burst > TOKEN_BUCKET_MAX_BURST then TOKEN_BUCKET_MAX_BURST else burst).toInt32

def tokenBucketRawReset (cfg : TokenBucketCfg) : TokenBucketRaw := ⟨cfg.burst⟩

variable (bucket : TokenBucketRaw) (cfg : TokenBucketCfg)

def tokenBucketRawAdjust : TokenBucketRaw :=
  ⟨if bucket.bucket < cfg.burst then bucket.bucket else cfg.burst⟩

/-- `(size_t) burst - (size_t) bucket`. -/
def refillGap : UInt64 :=
  UInt64.ofInt cfg.burst.toInt - UInt64.ofInt bucket.bucket.toInt

/-- Whether the bucket was empty and is not any more, and the bucket. The sum is one of `uint32_t`. -/
def tokenBucketRawRefillSteps (elapsed : UInt32) : Bool × TokenBucketRaw :=
  let wasEmpty := bucket.bucket ≤ 0
  let bucket : TokenBucketRaw :=
    if elapsed.toUInt64 > refillGap bucket cfg / cfg.rate.toUInt64 then ⟨cfg.burst⟩
    else ⟨(UInt32.ofInt bucket.bucket.toInt + cfg.rate * elapsed).toInt32⟩
  (wasEmpty ∧ bucket.bucket > 0, bucket)

/-- Whether the bucket becomes empty, and the bucket; a negative number changes nothing. -/
def tokenBucketRawDec (n : Int64) : Bool × TokenBucketRaw :=
  if n < 0 then (false, bucket)
  else (bucket.bucket > 0 ∧ n ≥ bucket.bucket.toInt64, ⟨(bucket.bucket.toInt64 - n).toInt32⟩)

/-! ## Conversions -/

theorem toNat_ofInt64 (z : Int) : ((UInt64.ofInt z).toNat : Int) = z % 2 ^ 64 := by
  have hnonneg := Int.emod_nonneg z (show (2 ^ 64 : Int) ≠ 0 by decide)
  rw [UInt64.ofInt, UInt64.toNat_ofNat']
  omega

theorem toNat_ofInt32 (z : Int) : ((UInt32.ofInt z).toNat : Int) = z % 2 ^ 32 := by
  have hnonneg := Int.emod_nonneg z (show (2 ^ 32 : Int) ≠ 0 by decide)
  rw [UInt32.ofInt, UInt32.toNat_ofNat']
  omega

theorem toInt_toInt32 (x : UInt32) : x.toInt32.toInt = (x.toNat : Int).bmod (2 ^ 32) :=
  BitVec.toInt_eq_toNat_bmod x.toBitVec

/-! ## Refilling -/

section
variable {bucket : TokenBucketRaw} {cfg : TokenBucketCfg}

/-- The level that a bucket has after some steps, over the integers. -/
def refilled (cfg : TokenBucketCfg) (level : Int) (steps : Nat) : Int := min cfg.burst.toInt (level + cfg.rate.toNat * steps)

theorem refilled_refilled (cfg : TokenBucketCfg) (level : Int) (steps more : Nat) :
    refilled cfg (refilled cfg level steps) more = refilled cfg level (steps + more) := by
  have hsteps : (0 : Int) ≤ cfg.rate.toNat * more := Int.mul_nonneg (Int.natCast_nonneg _) (Int.natCast_nonneg _)
  have hsum : (cfg.rate.toNat : Int) * ((steps + more : Nat) : Int) = cfg.rate.toNat * steps + cfg.rate.toNat * more := by
    rw [Int.natCast_add, Int.mul_add]
  unfold refilled
  rw [hsum]
  omega

/-- A negative level does no harm to the difference. -/
theorem refillGap_eq (hlevel : bucket.bucket ≤ cfg.burst) :
    ((refillGap bucket cfg).toNat : Int) = cfg.burst.toInt - bucket.bucket.toInt := by
  have hle := Int32.le_iff_toInt_le.mp hlevel
  have hlow := bucket.bucket.le_toInt
  have hhigh := cfg.burst.toInt_lt
  have hburst := toNat_ofInt64 cfg.burst.toInt
  have hbucket := toNat_ofInt64 bucket.bucket.toInt
  have hlt := (UInt64.ofInt bucket.bucket.toInt).toNat_lt
  rw [refillGap, UInt64.toNat_sub]
  omega

theorem refill_full_iff (hlevel : bucket.bucket ≤ cfg.burst) (hrate : 0 < cfg.rate) (elapsed : UInt32) :
    elapsed.toUInt64 > refillGap bucket cfg / cfg.rate.toUInt64 ↔
      cfg.burst.toInt < bucket.bucket.toInt + cfg.rate.toNat * elapsed.toNat := by
  have hgap := refillGap_eq hlevel
  have hpos : 0 < cfg.rate.toNat := UInt32.lt_iff_toNat_lt.mp hrate
  have hmul : (cfg.rate.toNat : Int) * elapsed.toNat = ((elapsed.toNat * cfg.rate.toNat : Nat) : Int) := by
    rw [Int.natCast_mul, Int.mul_comm]
  rw [gt_iff_lt, UInt64.lt_iff_toNat_lt, UInt64.toNat_div, UInt32.toNat_toUInt64, UInt32.toNat_toUInt64,
    Nat.div_lt_iff_lt_mul hpos, hmul]
  omega

/-- Where the bucket does not become full, the product fits, and so does the sum. -/
theorem refill_fits {elapsed : UInt32}
    (h : bucket.bucket.toInt + cfg.rate.toNat * elapsed.toNat ≤ cfg.burst.toInt) :
    cfg.rate.toNat * elapsed.toNat < 2 ^ 32 ∧
    (UInt32.ofInt bucket.bucket.toInt + cfg.rate * elapsed).toInt32.toInt =
      bucket.bucket.toInt + cfg.rate.toNat * elapsed.toNat := by
  have hlow := bucket.bucket.le_toInt
  have hhigh := cfg.burst.toInt_lt
  have hmul : (cfg.rate.toNat : Int) * elapsed.toNat = ((cfg.rate.toNat * elapsed.toNat : Nat) : Int) :=
    (Int.natCast_mul ..).symm
  rw [hmul] at h ⊢
  have hfits : cfg.rate.toNat * elapsed.toNat < 2 ^ 32 := by omega
  refine ⟨hfits, ?_⟩
  have hbucket := toNat_ofInt32 bucket.bucket.toInt
  rw [toInt_toInt32, UInt32.toNat_add, UInt32.toNat_mul, Nat.mod_eq_of_lt hfits]
  generalize cfg.rate.toNat * elapsed.toNat = product at h hfits ⊢
  rw [Int.bmod_def]
  omega

theorem refill_exact (hlevel : bucket.bucket ≤ cfg.burst) (hrate : 0 < cfg.rate) (elapsed : UInt32) :
    (tokenBucketRawRefillSteps bucket cfg elapsed).2.bucket.toInt =
      refilled cfg bucket.bucket.toInt elapsed.toNat := by
  unfold tokenBucketRawRefillSteps refilled
  by_cases hfull : elapsed.toUInt64 > refillGap bucket cfg / cfg.rate.toUInt64
  · have hlt := (refill_full_iff hlevel hrate elapsed).mp hfull
    simp only [if_pos hfull]
    omega
  · have hle := Int.not_lt.mp fun hlt => hfull ((refill_full_iff hlevel hrate elapsed).mpr hlt)
    simp only [if_neg hfull]
    rw [(refill_fits hle).2]
    omega

theorem refill_le (hlevel : bucket.bucket ≤ cfg.burst) (hrate : 0 < cfg.rate) (elapsed : UInt32) :
    (tokenBucketRawRefillSteps bucket cfg elapsed).2.bucket ≤ cfg.burst := by
  rw [Int32.le_iff_toInt_le, refill_exact hlevel hrate]
  exact Int.min_le_left ..

end

/-- A refill is the one over the integers: no operation of the code goes wrong, and two refills are one. -/
theorem token_bucket_refill_exact (bucket : TokenBucketRaw) (cfg : TokenBucketCfg) (elapsed : UInt32)
    (hrate : 0 < cfg.rate) (hlevel : bucket.bucket ≤ cfg.burst) :
    (tokenBucketRawRefillSteps bucket cfg elapsed).2.bucket.toInt =
      min cfg.burst.toInt (bucket.bucket.toInt + cfg.rate.toNat * elapsed.toNat) ∧
    (refillGap bucket cfg).toNat = cfg.burst.toInt - bucket.bucket.toInt ∧
    (¬ elapsed.toUInt64 > refillGap bucket cfg / cfg.rate.toUInt64 →
      cfg.rate.toNat * elapsed.toNat < 2 ^ 32 ∧
      -2 ^ 31 ≤ bucket.bucket.toInt + cfg.rate.toNat * elapsed.toNat ∧
      bucket.bucket.toInt + cfg.rate.toNat * elapsed.toNat < 2 ^ 31) ∧
    ∀ more : UInt32,
      (tokenBucketRawRefillSteps (tokenBucketRawRefillSteps bucket cfg elapsed).2 cfg more).2.bucket.toInt =
        min cfg.burst.toInt (bucket.bucket.toInt + cfg.rate.toNat * (elapsed.toNat + more.toNat : Nat)) ∧
      (elapsed.toNat + more.toNat < 2 ^ 32 →
        (tokenBucketRawRefillSteps (tokenBucketRawRefillSteps bucket cfg elapsed).2 cfg more).2 =
          (tokenBucketRawRefillSteps bucket cfg (elapsed + more)).2) := by
  have htwo : ∀ more : UInt32,
      (tokenBucketRawRefillSteps (tokenBucketRawRefillSteps bucket cfg elapsed).2 cfg more).2.bucket.toInt =
        refilled cfg bucket.bucket.toInt (elapsed.toNat + more.toNat) := by
    intro more
    rw [refill_exact (refill_le hlevel hrate elapsed) hrate, refill_exact hlevel hrate, refilled_refilled]
  refine ⟨refill_exact hlevel hrate elapsed, refillGap_eq hlevel, fun hnot => ?_, fun more => ⟨htwo more, fun hsum => ?_⟩⟩
  · have hle := Int.not_lt.mp fun hlt => hnot ((refill_full_iff hlevel hrate elapsed).mpr hlt)
    obtain ⟨hfits, hsum⟩ := refill_fits hle
    rw [← hsum]
    exact ⟨hfits, Int32.le_toInt _, Int32.toInt_lt _⟩
  · have hlevels : (tokenBucketRawRefillSteps (tokenBucketRawRefillSteps bucket cfg elapsed).2 cfg more).2.bucket =
        (tokenBucketRawRefillSteps bucket cfg (elapsed + more)).2.bucket := by
      rw [← Int32.toInt_inj, htwo, refill_exact hlevel hrate, UInt32.toNat_add, Nat.mod_eq_of_lt hsum]
    rw [TokenBucketRaw.mk.injEq]
    exact hlevels

/-- The lowest level, and so much time that the product does not fit. -/
theorem token_bucket_refill_exact_of_lowest :
    (tokenBucketRawRefillSteps ⟨-2147483648⟩ ⟨4294967295, 2147483647⟩ 4294967295).2.bucket.toInt = 2147483647 := by
  rw [(token_bucket_refill_exact ⟨-2147483648⟩ ⟨4294967295, 2147483647⟩ 4294967295 (by decide) (by decide)).1]
  decide

/-! ## Buckets for reading and writing -/

structure TokenBucketRw where
  cfg : TokenBucketCfg
  readBucket : TokenBucketRaw
  writeBucket : TokenBucketRaw
  lastRefilledAtTimestamp : UInt32
  deriving DecidableEq

section
variable (unitsToApproxMsec : UInt64 → UInt64)

def ratePerSecToRatePerStep (rate : UInt32) : UInt32 :=
  let units := rate.toUInt64 * TICKS_PER_STEP.toUInt64
  let val := (unitsToApproxMsec units / 1000).toUInt32
  if val ≠ 0 then val else 1

def tokenBucketRwAdjust (bucket : TokenBucketRw) (rate burst : UInt32) : TokenBucketRw :=
  let cfg := tokenBucketCfgInit (ratePerSecToRatePerStep unitsToApproxMsec rate) burst
  { bucket with
    cfg
    readBucket := tokenBucketRawAdjust bucket.readBucket cfg
    writeBucket := tokenBucketRawAdjust bucket.writeBucket cfg }

def tokenBucketRwReset (bucket : TokenBucketRw) (nowTs : UInt32) : TokenBucketRw :=
  { bucket with
    readBucket := tokenBucketRawReset bucket.cfg
    writeBucket := tokenBucketRawReset bucket.cfg
    lastRefilledAtTimestamp := nowTs }

def tokenBucketRwInit (rate burst nowTs : UInt32) : TokenBucketRw :=
  tokenBucketRwReset (tokenBucketRwAdjust unitsToApproxMsec ⟨⟨0, 0⟩, ⟨0⟩, ⟨0⟩, 0⟩ rate burst) nowTs

end

/-- Which buckets were empty and are not any more, and the buckets. -/
def tokenBucketRwRefill (bucket : TokenBucketRw) (nowTs : UInt32) : (Bool × Bool) × TokenBucketRw :=
  let elapsedTicks := nowTs - bucket.lastRefilledAtTimestamp
  if elapsedTicks > 4294967295 - 300 * 1000 then ((false, false), bucket)
  else
    let elapsedSteps := elapsedTicks / TICKS_PER_STEP
    if elapsedSteps = 0 then ((false, false), bucket)
    else
      let (read, readBucket) := tokenBucketRawRefillSteps bucket.readBucket bucket.cfg elapsedSteps
      let (write, writeBucket) := tokenBucketRawRefillSteps bucket.writeBucket bucket.cfg elapsedSteps
      ((read, write), { bucket with readBucket, writeBucket, lastRefilledAtTimestamp := nowTs })

def tokenBucketRwDec (bucket : TokenBucketRw) (nRead nWritten : Int64) : (Bool × Bool) × TokenBucketRw :=
  let (read, readBucket) := tokenBucketRawDec bucket.readBucket nRead
  let (write, writeBucket) := tokenBucketRawDec bucket.writeBucket nWritten
  ((read, write), { bucket with readBucket, writeBucket })

inductive Op where
  | adjust (rate burst : UInt32)
  | reset (nowTs : UInt32)
  | refill (nowTs : UInt32)
  | dec (nRead nWritten : Int64)

def step (unitsToApproxMsec : UInt64 → UInt64) (bucket : TokenBucketRw) : Op → TokenBucketRw
  | .adjust rate burst => tokenBucketRwAdjust unitsToApproxMsec bucket rate burst
  | .reset nowTs => tokenBucketRwReset bucket nowTs
  | .refill nowTs => (tokenBucketRwRefill bucket nowTs).2
  | .dec nRead nWritten => (tokenBucketRwDec bucket nRead nWritten).2

/-- The rate is positive, and no level is above the burst. -/
structure TokenBucketRw.Ok (bucket : TokenBucketRw) : Prop where
  rate : 0 < bucket.cfg.rate
  read : bucket.readBucket.bucket ≤ bucket.cfg.burst
  write : bucket.writeBucket.bucket ≤ bucket.cfg.burst

/-- What is taken off leaves a level that an `int32_t` can have. -/
def Affordable (bucket : TokenBucketRw) : Op → Prop
  | .dec nRead nWritten =>
    -2 ^ 31 ≤ bucket.readBucket.bucket.toInt - nRead.toInt ∧ -2 ^ 31 ≤ bucket.writeBucket.bucket.toInt - nWritten.toInt
  | _ => True

instance (bucket : TokenBucketRw) : (op : Op) → Decidable (Affordable bucket op)
  | .dec _ _ => inferInstanceAs (Decidable (_ ∧ _))
  | .adjust _ _ | .reset _ | .refill _ => .isTrue trivial

section
variable {unitsToApproxMsec : UInt64 → UInt64} {bucket bucket' : TokenBucketRw}

theorem ratePerStep_pos (rate : UInt32) : 0 < ratePerSecToRatePerStep unitsToApproxMsec rate := by
  unfold ratePerSecToRatePerStep
  simp only
  split
  next hne => exact UInt32.pos_iff_ne_zero.mpr hne
  next => decide

theorem tokenBucketRawAdjust_le (bucket : TokenBucketRaw) (cfg : TokenBucketCfg) :
    (tokenBucketRawAdjust bucket cfg).bucket ≤ cfg.burst := by
  unfold tokenBucketRawAdjust
  split
  next hlt => exact Int32.le_of_lt hlt
  next => exact Int32.le_refl _

theorem tokenBucketRawDec_eq {bucket : TokenBucketRaw} {n : Int64} (hlow : -2 ^ 31 ≤ bucket.bucket.toInt - n.toInt) :
    (tokenBucketRawDec bucket n).2.bucket.toInt = bucket.bucket.toInt - max 0 n.toInt := by
  unfold tokenBucketRawDec
  split
  next hneg =>
    have hn := Int64.lt_iff_toInt_lt.mp hneg
    rw [Int64.toInt_zero] at hn
    simp only
    omega
  next hneg =>
    have hn : 0 ≤ n.toInt := Int.not_lt.mp fun hlt => hneg (Int64.lt_iff_toInt_lt.mpr hlt)
    have hhigh := bucket.bucket.toInt_lt
    simp only [Int64.toInt_toInt32, Int64.toInt_sub, Int32.toInt_toInt64]
    have hwide : (bucket.bucket.toInt - n.toInt).bmod (2 ^ 64) = bucket.bucket.toInt - n.toInt :=
      Int.bmod_eq_of_le (by omega) (by omega)
    rw [hwide, Int.bmod_eq_of_le (by omega) (by omega), Int.max_eq_right hn]

theorem tokenBucketRawDec_le {bucket : TokenBucketRaw} {burst : Int32} {n : Int64} (h : bucket.bucket ≤ burst)
    (hlow : -2 ^ 31 ≤ bucket.bucket.toInt - n.toInt) : (tokenBucketRawDec bucket n).2.bucket ≤ burst := by
  have hle := Int32.le_iff_toInt_le.mp h
  rw [Int32.le_iff_toInt_le, tokenBucketRawDec_eq hlow]
  omega

theorem step_ok (hok : bucket.Ok) {op : Op} (hop : Affordable bucket op) : (step unitsToApproxMsec bucket op).Ok := by
  cases op with
  | adjust rate burst =>
    exact ⟨ratePerStep_pos rate, tokenBucketRawAdjust_le .., tokenBucketRawAdjust_le ..⟩
  | reset nowTs => exact ⟨hok.rate, Int32.le_refl _, Int32.le_refl _⟩
  | refill nowTs =>
    simp only [step, tokenBucketRwRefill]
    split
    next => exact hok
    next =>
      split
      next => exact hok
      next => exact ⟨hok.rate, refill_le hok.read hok.rate _, refill_le hok.write hok.rate _⟩
  | dec nRead nWritten =>
    exact ⟨hok.rate, tokenBucketRawDec_le hok.read hop.1, tokenBucketRawDec_le hok.write hop.2⟩

/-- Whatever is done with a bucket, its levels stay within the burst, if no more is taken off than an `int32_t` can tell. -/
theorem rw_levels_within_burst {rate burst nowTs : UInt32} {ops : List Op}
    (hops : AllSteps (fun b op => some (step unitsToApproxMsec b op)) Affordable
      (tokenBucketRwInit unitsToApproxMsec rate burst nowTs) ops)
    (hrun : run (fun b op => some (step unitsToApproxMsec b op)) (tokenBucketRwInit unitsToApproxMsec rate burst nowTs) ops =
      some bucket') : bucket'.Ok := by
  refine run_inv_steps (I := TokenBucketRw.Ok) ?_ ?_ hops hrun
  · intro b op b' hb hop hstep
    cases hstep
    exact step_ok hb hop
  · exact ⟨ratePerStep_pos rate, Int32.le_refl _, Int32.le_refl _⟩

/-- A level below zero. -/
theorem rw_levels_within_burst_of_overdrawn : (step (· / 1000) (tokenBucketRwInit (· / 1000) 5000 100 0) (.dec 150 20)).Ok :=
  @rw_levels_within_burst _ _ 5000 100 0 [.dec 150 20] (allSteps_of_check (by decide)) rfl

/-! ## The rate -/

inductive Flag | TB_READ | TB_WRITE

def TokenBucketRw.level (bucket : TokenBucketRw) : Flag → Int
  | .TB_READ => bucket.readBucket.bucket.toInt
  | .TB_WRITE => bucket.writeBucket.bucket.toInt

/-- What happens to a bucket while its limits stay: the clock is read, which is at `now`, or bytes are taken off. -/
inductive Use where
  | time (now : Nat)
  | bytes (n : Flag → Int64)

/-- The stamp is the time modulo 2 ^ 32. -/
def Use.op : Use → Op
  | .time now => .refill (UInt32.ofNat now)
  | .bytes n => .dec (n .TB_READ) (n .TB_WRITE)

def Use.times : Use → List Nat
  | .time now => [now]
  | .bytes _ => []

def Use.taken (flag : Flag) : Use → Int
  | .time _ => 0
  | .bytes n => max 0 (n flag).toInt

theorem elapsed_le {last now : Nat} (h : last ≤ now) : (UInt32.ofNat now - UInt32.ofNat last).toNat ≤ now - last := by
  rw [UInt32.toNat_sub, UInt32.toNat_ofNat', UInt32.toNat_ofNat']
  omega

theorem elapsed_back {last now : Nat} (hback : now < last) (h : last ≤ now + 300 * 1000) :
    UInt32.ofNat now - UInt32.ofNat last > 4294967295 - 300 * 1000 := by
  have hlimit : (4294967295 - 300 * 1000 : UInt32).toNat = 4294667295 := by decide
  rw [gt_iff_lt, UInt32.lt_iff_toNat_lt, hlimit, UInt32.toNat_sub, UInt32.toNat_ofNat', UInt32.toNat_ofNat']
  omega

/-- The clock is credited once, and not at all when it is put back by no more than 300000. -/
theorem use_gains (hok : bucket.Ok) {u : Use} (haffordable : Affordable bucket u.op) {last : Nat}
    (hlast : bucket.lastRefilledAtTimestamp = UInt32.ofNat last) (htimes : ∀ now ∈ u.times, last ≤ now + 300 * 1000)
    (hstep : step unitsToApproxMsec bucket u.op = bucket') :
    bucket'.cfg = bucket.cfg ∧ ∃ last' steps, (last' = last ∨ last' ∈ u.times) ∧ last + TICKS_PER_STEP.toNat * steps ≤ last' ∧
      bucket'.lastRefilledAtTimestamp = UInt32.ofNat last' ∧
      ∀ flag, u.taken flag + bucket'.level flag ≤ bucket.level flag + bucket.cfg.rate.toNat * steps := by
  subst hstep
  cases u with
  | bytes n =>
    refine ⟨rfl, last, 0, .inl rfl, Nat.le_refl _, hlast, fun flag => ?_⟩
    cases flag
    · have := tokenBucketRawDec_eq haffordable.1
      simp only [Use.op, Use.taken, step, tokenBucketRwDec, TokenBucketRw.level]
      omega
    · have := tokenBucketRawDec_eq haffordable.2
      simp only [Use.op, Use.taken, step, tokenBucketRwDec, TokenBucketRw.level]
      omega
  | time now =>
    simp only [Use.op, Use.taken, step, tokenBucketRwRefill, hlast]
    split
    · exact ⟨rfl, last, 0, .inl rfl, Nat.le_refl _, hlast, fun flag => by simp⟩
    next hjump =>
      have hle : last ≤ now :=
        Nat.not_lt.mp fun hlt => hjump (elapsed_back hlt (htimes now (List.mem_singleton_self now)))
      split
      · exact ⟨rfl, last, 0, .inl rfl, Nat.le_refl _, hlast, fun flag => by simp⟩
      · refine ⟨rfl, now, ((UInt32.ofNat now - UInt32.ofNat last) / TICKS_PER_STEP).toNat,
          .inr (List.mem_singleton_self now), ?_, rfl, fun flag => ?_⟩
        · have helapsed := elapsed_le hle
          have hdiv := Nat.mul_div_le (UInt32.ofNat now - UInt32.ofNat last).toNat TICKS_PER_STEP.toNat
          rw [UInt32.toNat_div]
          omega
        · cases flag <;> simp only [TokenBucketRw.level] <;> rw [Int.zero_add]
          · exact refill_exact hok.read hok.rate _ ▸ Int.min_le_right ..
          · exact refill_exact hok.write hok.rate _ ▸ Int.min_le_right ..

/-- However bytes and readings of the clock alternate, no more bytes pass than the level and the rate allow, unless the
    clock is put back by more than 300000. -/
theorem bytes_within_rate {last stop : Nat} {uses : List Use} (hok : bucket.Ok)
    (hlast : bucket.lastRefilledAtTimestamp = UInt32.ofNat last)
    (hops : AllSteps (fun b u => some (step unitsToApproxMsec b u.op)) (fun b u => Affordable b u.op) bucket uses)
    (htimes : (last :: uses.flatMap Use.times).Pairwise fun s t => s ≤ t + 300 * 1000)
    (hstop : ∀ t ∈ last :: uses.flatMap Use.times, t ≤ stop)
    (hrun : run (fun b u => some (step unitsToApproxMsec b u.op)) bucket uses = some bucket') (flag : Flag) :
    (uses.map (Use.taken flag)).sum + bucket'.level flag ≤
      bucket.level flag + bucket.cfg.rate.toNat * ((stop - last) / TICKS_PER_STEP.toNat : Nat) := by
  induction uses generalizing bucket last with
  | nil =>
    cases hrun
    have := Int.natCast_nonneg (bucket'.cfg.rate.toNat * ((stop - last) / TICKS_PER_STEP.toNat))
    simpa using this
  | cons u uses ih =>
    obtain ⟨hu, hops⟩ := (allSteps_cons rfl).mp hops
    simp only [List.flatMap_cons] at htimes hstop
    obtain ⟨hfirst, hrest⟩ := List.pairwise_cons.mp htimes
    obtain ⟨hcfg, last', steps, hlast', hsteps, hstamp, hgains⟩ :=
      use_gains hok hu hlast (fun now hnow => hfirst now (List.mem_append_left _ hnow)) rfl
    have hsub : List.Sublist (last' :: uses.flatMap Use.times) (last :: (u.times ++ uses.flatMap Use.times)) := by
      rcases hlast' with rfl | hmem
      · exact (List.sublist_append_right _ _).cons_cons _
      · exact ((List.singleton_sublist.mpr hmem).append (.refl _)).cons _
    have hlater := ih (step_ok hok hu) hstamp hops (htimes.sublist hsub) (fun t ht => hstop t (hsub.subset ht)) hrun
    have hend := hstop last' (hsub.subset List.mem_cons_self)
    have hsum : steps + (stop - last') / TICKS_PER_STEP.toNat ≤ (stop - last) / TICKS_PER_STEP.toNat := by
      rw [Nat.add_comm, ← Nat.add_mul_div_left _ _ (by decide)]
      exact Nat.div_le_div_right (by omega)
    have hrate := Int.mul_le_mul_of_nonneg_left (Int.ofNat_le.mpr hsum) (Int.natCast_nonneg bucket.cfg.rate.toNat)
    rw [Int.natCast_add, Int.mul_add] at hrate
    rw [hcfg] at hlater
    have hnow := hgains flag
    simp only [List.map_cons, List.sum_cons]
    omega

/-- Two steps of 10 bytes, and 70 bytes from a level of 50. -/
theorem bytes_within_rate_of_two_steps :
    ([Use.time 32, .bytes fun _ => 70].map (Use.taken .TB_READ)).sum + 0 ≤ (50 + 10 * ((32 - 0) / 16 : Nat) : Int) :=
  @bytes_within_rate (· / 1000) ⟨⟨10, 100⟩, ⟨50⟩, ⟨50⟩, 0⟩ ⟨⟨10, 100⟩, ⟨0⟩, ⟨0⟩, 32⟩ 0 32 _ ⟨by decide, by decide, by decide⟩
    rfl (allSteps_of_check (by decide)) (by decide) (by decide) rfl .TB_READ

end

end Badnet.Evloop
