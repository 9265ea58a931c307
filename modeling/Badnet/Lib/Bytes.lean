/-
  Badnet.Lib.Bytes — numbers as bytes, the most significant one first, and buffers of bytes.

  `toBE n x` writes the last `n` bytes of a number, `ofBE` reads any list of bytes (`ofBE_toBE`). A reader takes off the
  front of its input what was written there (`readUInt16_append`, `readUInt32_append`, `takeBytes_append`). `zeroPad n
  bytes` is a buffer of `n` bytes that was zeroed before the bytes were copied to its start.
-/

import Mathlib.Algebra.Order.Ring.Nat
import Mathlib.Data.List.Basic

namespace Badnet.Lib

def toBE : Nat → Nat → List UInt8
  | 0, _ => []
  | n + 1, x => toBE n (x / 256) ++ [UInt8.ofNat x]

def ofBE (bytes : List UInt8) : Nat := bytes.foldl (fun x b => 256 * x + b.toNat) 0

@[simp] theorem length_toBE (n x : Nat) : (toBE n x).length = n := by
  induction n generalizing x with
  | zero => rfl
  | succ n ih => simp [toBE, ih]

theorem ofBE_concat (bytes : List UInt8) (b : UInt8) : ofBE (bytes ++ [b]) = 256 * ofBE bytes + b.toNat := by
  simp [ofBE]

/-- Reading on after a number. -/
theorem foldl_bytes (x : Nat) (bytes : List UInt8) :
    bytes.foldl (fun x b => 256 * x + b.toNat) x = x * 256 ^ bytes.length + ofBE bytes := by
  induction bytes generalizing x with
  | nil => simp [ofBE]
  | cons b bytes ih =>
    have hread : ofBE (b :: bytes) = (256 * 0 + b.toNat) * 256 ^ bytes.length + ofBE bytes := ih (256 * 0 + b.toNat)
    rw [List.foldl_cons, ih, hread, List.length_cons, Nat.pow_succ', Nat.mul_zero, Nat.zero_add, Nat.add_mul,
      Nat.mul_assoc, Nat.mul_left_comm, Nat.add_assoc]

theorem ofBE_append (a b : List UInt8) : ofBE (a ++ b) = ofBE a * 256 ^ b.length + ofBE b := by
  rw [← foldl_bytes, ofBE, List.foldl_append]
  rfl

theorem ofBE_cons (x : UInt8) (b : List UInt8) : ofBE (x :: b) = x.toNat * 256 ^ b.length + ofBE b := by
  have hone : ofBE [x] = x.toNat := by simp [ofBE]
  have happend := ofBE_append [x] b
  rwa [hone] at happend

theorem ofBE_lt (a : List UInt8) : ofBE a < 256 ^ a.length := by
  induction a with
  | nil => decide
  | cons x a ih =>
    have hx := x.toNat_lt
    have hstep : (x.toNat + 1) * 256 ^ a.length ≤ 256 * 256 ^ a.length := Nat.mul_le_mul_right _ hx
    rw [Nat.add_one_mul] at hstep
    rw [ofBE_cons, List.length_cons, Nat.pow_succ']
    omega

variable {n : Nat} {bytes : List UInt8}

theorem ofBE_toBE {x : Nat} (h : x < 256 ^ n) : ofBE (toBE n x) = x := by
  induction n generalizing x with
  | zero =>
    rw [Nat.pow_zero] at h
    simp [toBE, ofBE, Nat.lt_one_iff.mp h]
  | succ n ih =>
    have hdiv : x / 256 < 256 ^ n := by
      rw [Nat.pow_succ] at h
      exact Nat.div_lt_of_lt_mul (by rwa [Nat.mul_comm])
    have hbyte : (UInt8.ofNat x).toNat = x % 256 := UInt8.toNat_ofNat'
    rw [toBE, ofBE_concat, ih hdiv, hbyte]
    omega

variable (x : UInt16)

@[simp] theorem uint16_ofBE_toBE : UInt16.ofNat (ofBE (toBE 2 x.toNat)) = x := by
  rw [ofBE_toBE x.toNat_lt, UInt16.ofNat_toNat]

/-! ## Readers -/

def readUInt16 (input : List UInt8) : Option (UInt16 × List UInt8) :=
  if 2 ≤ input.length then some (UInt16.ofNat (ofBE (input.take 2)), input.drop 2) else none

def readUInt32 (input : List UInt8) : Option (UInt32 × List UInt8) :=
  if 4 ≤ input.length then some (UInt32.ofNat (ofBE (input.take 4)), input.drop 4) else none

def takeBytes (n : Nat) (input : List UInt8) : Option (Vector UInt8 n × List UInt8) :=
  if h : n ≤ input.length then some (⟨(input.take n).toArray, by simp [h]⟩, input.drop n) else none

@[simp] theorem readUInt16_append (rest : List UInt8) : readUInt16 (toBE 2 x.toNat ++ rest) = some (x, rest) := by
  have hlen : 2 ≤ (toBE 2 x.toNat ++ rest).length := by simp
  rw [readUInt16, if_pos hlen, List.take_left' (length_toBE ..), List.drop_left' (length_toBE ..), uint16_ofBE_toBE]

@[simp] theorem readUInt32_append (x : UInt32) (rest : List UInt8) : readUInt32 (toBE 4 x.toNat ++ rest) = some (x, rest) := by
  have hlen : 4 ≤ (toBE 4 x.toNat ++ rest).length := by simp
  rw [readUInt32, if_pos hlen, List.take_left' (length_toBE ..), List.drop_left' (length_toBE ..), ofBE_toBE x.toNat_lt,
    UInt32.ofNat_toNat]

@[simp] theorem takeBytes_append (bytes : Vector UInt8 n) (rest : List UInt8) :
    takeBytes n (bytes.toList ++ rest) = some (bytes, rest) := by
  have hlen : n ≤ (bytes.toList ++ rest).length := by simp
  rw [takeBytes, dif_pos hlen]
  simp only [List.take_left' bytes.length_toList, List.drop_left' bytes.length_toList]
  rfl

/-! ## Zeroed buffers -/

def zeroPad (n : Nat) (bytes : List UInt8) : Vector UInt8 n := Vector.ofFn fun i => bytes.getD i 0

theorem toList_zeroPad (h : bytes.length ≤ n) :
    (zeroPad n bytes).toList = bytes ++ List.replicate (n - bytes.length) 0 := by
  apply List.ext_getElem
  · simp [h]
  · intro i hi _
    by_cases hb : i < bytes.length
    · simp [zeroPad, hb]
    · simp [zeroPad, List.getElem_append, hb]

/-- What was copied is still at the start. -/
theorem take_zeroPad {k : Nat} (h : bytes.length ≤ n) (hk : k ≤ bytes.length) :
    (zeroPad n bytes).toList.take k = bytes.take k := by
  rw [toList_zeroPad h, List.take_append_of_le_length hk]

/-- Zeros that are copied along change nothing. -/
theorem zeroPad_take_zeroPad (n : Nat) {m k : Nat} (hm : bytes.length ≤ m) (hk : bytes.length ≤ k) :
    zeroPad n ((zeroPad m bytes).toList.take k) = zeroPad n bytes := by
  rw [toList_zeroPad hm, List.take_append, List.take_of_length_le hk]
  apply Vector.ext
  intro i hi
  by_cases hb : i < bytes.length
  · simp [zeroPad, hb, List.getElem?_append]
  · simp only [zeroPad, Vector.getElem_ofFn, List.getD_eq_getElem?_getD, List.getElem?_append, hb, if_false,
      List.take_replicate, List.getElem?_replicate, List.getElem?_eq_none (Nat.le_of_not_lt hb)]
    split <;> rfl

/-- A number and some bytes behind it, read back from a buffer. -/
theorem zeroPad_uint16 (bytes : List UInt8) (h : 2 + bytes.length ≤ n) :
    UInt16.ofNat (ofBE ((zeroPad n (toBE 2 x.toNat ++ bytes)).toList.take 2)) = x ∧
    (zeroPad n (toBE 2 x.toNat ++ bytes)).toList.drop 2 = bytes ++ List.replicate (n - (2 + bytes.length)) 0 := by
  have hlen : (toBE 2 x.toNat ++ bytes).length = 2 + bytes.length := by simp
  rw [toList_zeroPad (by rw [hlen]; exact h), hlen, List.append_assoc, List.take_left' (length_toBE ..),
    List.drop_left' (length_toBE ..), uint16_ofBE_toBE]
  exact ⟨rfl, rfl⟩

/-- Four bytes of a word that are shifted into their places. -/
theorem or_bytes (b3 b2 b1 b0 : UInt8) :
    (b3.toUInt32 <<< 24 ||| b2.toUInt32 <<< 16 ||| b1.toUInt32 <<< 8 ||| b0.toUInt32).toNat = ofBE [b3, b2, b1, b0] := by
  have h2 := b2.toNat_lt
  have h1 := b1.toNat_lt
  have h0 := b0.toNat_lt
  have hshift : ∀ (b : UInt8) (k : UInt32), k.toNat ≤ 24 → (b.toUInt32 <<< k).toNat = b.toNat <<< k.toNat := by
    intro b k hk
    have hb := b.toNat_lt
    have hpow : 2 ^ k.toNat ≤ 2 ^ 24 := Nat.pow_le_pow_right (by decide) hk
    rw [UInt32.toNat_shiftLeft, UInt8.toNat_toUInt32, Nat.mod_eq_of_lt (by omega : k.toNat < 32), Nat.shiftLeft_eq]
    refine Nat.mod_eq_of_lt (Nat.lt_of_le_of_lt (Nat.mul_le_mul (Nat.le_of_lt_succ hb) hpow) (by decide))
  rw [UInt32.toNat_or, UInt32.toNat_or, UInt32.toNat_or, hshift b3 24 (by decide), hshift b2 16 (by decide),
    hshift b1 8 (by decide), UInt8.toNat_toUInt32, Nat.or_assoc, Nat.or_assoc]
  change b3.toNat <<< 24 ||| (b2.toNat <<< 16 ||| (b1.toNat <<< 8 ||| b0.toNat)) = _
  have hlow : b1.toNat <<< 8 ||| b0.toNat = b1.toNat <<< 8 + b0.toNat :=
    (Nat.shiftLeft_add_eq_or_of_lt (by omega) _).symm
  have hmid : b2.toNat <<< 16 ||| (b1.toNat <<< 8 + b0.toNat) = b2.toNat <<< 16 + (b1.toNat <<< 8 + b0.toNat) :=
    (Nat.shiftLeft_add_eq_or_of_lt (by omega) _).symm
  rw [hlow, hmid, ← Nat.shiftLeft_add_eq_or_of_lt (by omega)]
  simp only [ofBE, List.foldl_cons, List.foldl_nil, Nat.shiftLeft_eq]
  omega

/-- A mask over one byte. -/
theorem and_byte (x k : Nat) : x &&& (255 * 256 ^ k) = x / 256 ^ k % 256 * 256 ^ k := by
  have hpow : 256 ^ k = 2 ^ (8 * k) := by rw [Nat.pow_mul]
  rw [hpow, ← Nat.shiftLeft_eq, ← Nat.shiftLeft_eq, ← Nat.shiftRight_eq_div_pow]
  refine Nat.eq_of_testBit_eq fun i => ?_
  rw [Nat.testBit_and, Nat.testBit_shiftLeft, Nat.testBit_shiftLeft, show (255 : Nat) = 2 ^ 8 - 1 from rfl,
    Nat.testBit_two_pow_sub_one, show (256 : Nat) = 2 ^ 8 from rfl, Nat.testBit_mod_two_pow, Nat.testBit_shiftRight]
  by_cases hi : i ≥ 8 * k
  · rw [show 8 * k + (i - 8 * k) = i by omega]
    simp [hi, Bool.and_comm]
  · simp [hi]

end Badnet.Lib
