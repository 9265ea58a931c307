/-
  Badnet.Broadcast.Bkem — the broadcast key encapsulation of `feature/relay/router.c` (`setup_global_system`,
  `get_encryption_key`, `get_decryption_key`).

  The sender puts into entry `a + 1` of the header one element of the public key for every receiver of row `a`; user `a
  * B + b` divides all of them out again except its own, for which `d_i` stands in (`decryption_recovers_key`).

  The groups are written additively, the pairing is any bilinear map. An access outside an array stops the function, so
  that a result means that every subscript was in range.
-/

import Mathlib.Algebra.Algebra.Bilinear
import Mathlib.Data.Nat.Sqrt
import Badnet.Lib.PowerRow

namespace Badnet.Broadcast

open Lib Function

universe u

/-- `bkem_global_params_s`; the pairing is a parameter of the functions that use it. -/
structure GlobalParams where
  N : Nat
  B : Nat
  A : Nat
  one_le_B : 1 ≤ B
  one_le_A : 1 ≤ A
  N_eq : N = A * B

structure PubKey (G : Type*) where
  g : G
  g_i : List G
  v_i : List G

structure Keypair (G T : Type*) where
  HDR : List G
  K : T

/-- How a function ends without its result. -/
inductive Stop where
  /-- "Element %d of receivers out of range.": logged, then `return`. -/
  | receiver (i : Nat)
  /-- A subscript outside an array. -/
  | subscript
  deriving DecidableEq, Repr

def getAt {α : Type*} (xs : List α) (k : Int) : Except Stop α :=
  if 0 ≤ k then (xs[k.toNat]?).elim (.error .subscript) .ok else .error .subscript

def setAt {α : Type*} (xs : List α) (k : Int) (x : α) : Except Stop (List α) :=
  if 0 ≤ k ∧ k.toNat < xs.length then .ok (xs.set k.toNat x) else .error .subscript

theorem setupGlobalSystem_pos {N : Nat} (hN : 1 ≤ N) : 1 ≤ N.sqrt ∧ 1 ≤ (N + N.sqrt - 1) / N.sqrt := by
  have hB : 1 ≤ N.sqrt := Nat.sqrt_pos.mpr hN
  exact ⟨hB, (Nat.one_le_div_iff hB).mpr (by omega)⟩

/-- With no users the code divides by zero. -/
def setupGlobalSystem (N : Nat) (hN : 1 ≤ N) : GlobalParams where
  B := N.sqrt
  A := (N + N.sqrt - 1) / N.sqrt
  N := (N + N.sqrt - 1) / N.sqrt * N.sqrt
  one_le_B := (setupGlobalSystem_pos hN).1
  one_le_A := (setupGlobalSystem_pos hN).2
  N_eq := rfl

section Keys

variable {R : Type*} {G T : Type u} [CommRing R] [AddCommGroup G] [Module R G] [AddCommGroup T] [Module R T]
variable (e : G →ₗ[R] G →ₗ[R] T) (gps : GlobalParams) (PK : PubKey G)

/-- The subscript of `g_i` for the receiver `x` in `get_encryption_key`. -/
def encryptSubscript (x : Int) : Int := gps.B - 1 - x.tmod gps.B

/-- The subscript `pkpos` for the receiver `x` in `get_decryption_key`. -/
def pkpos (b x : Int) : Int := gps.B - x.tmod gps.B + b

/-- The receiver loop of `get_encryption_key` at `p = (S[i], i)`. -/
def encryptStep (HDR : List G) (p : Int × Nat) : Except Stop (List G) :=
  if p.1 < 0 ∨ p.1 ≥ gps.N then .error (.receiver p.2)
  else do
    let line := p.1.tdiv gps.B
    let h ← getAt HDR (line + 1)
    let x ← getAt PK.g_i (encryptSubscript gps p.1)
    setAt HDR (line + 1) (h + x)

/-- `HDR[i] = v_i[i-1]`, in the order the entries are initialised. -/
def headerStep (HDR : List G) (i : Nat) : Except Stop (List G) := do
  return HDR ++ [← getAt PK.v_i ((i : Int) - 1)]

/-- `HDR[i] = HDR[i]^t`. -/
def powStep (t : R) (HDR : List G) (i : Nat) : Except Stop (List G) := do
  setAt HDR i (t • (← getAt HDR i))

/-- `get_encryption_key` with the randomness `t`. -/
def getEncryptionKey (S : List Int) (t : R) : Except Stop (Keypair G T) := do
  let x ← getAt PK.g_i (gps.B - 1)
  let y ← getAt PK.g_i 0
  let HDR ← (List.range' 1 gps.A).foldlM (headerStep PK) [t • PK.g]
  let HDR ← S.zipIdx.foldlM (encryptStep gps PK) HDR
  let HDR ← (List.range' 1 gps.A).foldlM (powStep t) HDR
  return ⟨HDR, t • e x y⟩

/-- The receiver loop of `get_decryption_key` at `p = (S[i], i)`; the check lets `N` pass. -/
def decryptStep (a b : Int) (temp : G) (p : Int × Nat) : Except Stop G :=
  if p.1 < 0 ∨ p.1 > gps.N then .error (.receiver p.2)
  else if p.1.tdiv gps.B = a ∧ p.1.tmod gps.B ≠ b then return temp + (← getAt PK.g_i (pkpos gps b p.1))
  else return temp

def getDecryptionKey (S : List Int) (index : Int) (d_i : G) (HDR : List G) : Except Stop T := do
  let a := index.tdiv gps.B
  let b := index.tmod gps.B
  let nom := e (← getAt PK.g_i b) (← getAt HDR (a + 1))
  let temp ← S.zipIdx.foldlM (decryptStep gps PK a b) d_i
  return nom - e temp (← getAt HDR 0)

/-! ## Keys -/

/-- The public key with the secrets `α` and `γ`. -/
def pubKey (g : G) (α : R) (γ : Nat → R) : PubKey G where
  g := g
  g_i := (List.range (2 * gps.B)).map fun k => α ^ (k + 1) • g
  v_i := (List.range gps.A).map fun a => γ a • g

/-- The private key of the user at position `b` of row `a`: `g_i[b]` to the power `γ_a`. -/
def privateKey (g : G) (α : R) (γ : Nat → R) (a b : Nat) : G := γ a • α ^ (b + 1) • g

/-! ## Arrays -/

theorem ok_bind {α β : Type u} (a : α) (f : α → Except Stop β) : (Except.ok a >>= f) = f a := rfl

theorem getAt_range {α : Type*} (f : Nat → α) {n k : Nat} (hk : k < n) :
    getAt ((List.range n).map f) (k : Int) = .ok (f k) := by
  unfold getAt
  rw [if_pos (Int.natCast_nonneg k), Int.toNat_natCast, List.getElem?_map, List.getElem?_range hk]
  rfl

theorem setAt_range {α : Type*} (f : Nat → α) {n k : Nat} (hk : k < n) (x : α) :
    setAt ((List.range n).map f) (k : Int) x = .ok ((List.range n).map (update f k x)) := by
  unfold setAt
  rw [if_pos ⟨Int.natCast_nonneg k, by simpa using hk⟩, Int.toNat_natCast]
  congr 1
  refine List.ext_getElem (by simp) fun i h1 h2 => ?_
  rw [List.getElem_set]
  by_cases e : k = i
  · simp [e]
  · rw [if_neg e]
    simp [update_of_ne (Ne.symm e)]

/-! ## The receivers of a row -/

/-- The positions of the receivers in row `a`. -/
def row (S : List Int) (a : Int) : Finset Nat :=
  ((S.filter fun x => x.tdiv gps.B = a).map fun x => (x.tmod gps.B).toNat).toFinset

variable {S : List Int} {a x : Int} {p b : Nat} {gi : Nat → G}

theorem mem_row : p ∈ row gps S a ↔ ∃ x ∈ S, x.tdiv gps.B = a ∧ (x.tmod gps.B).toNat = p := by
  simp [row, and_assoc]

/-- Row and position of a receiver. -/
theorem receiver_eq (hx : 0 ≤ x ∧ x < gps.N) :
    ∃ l p : Nat, l < gps.A ∧ p < gps.B ∧ x = l * gps.B + p ∧ x.tdiv gps.B = l ∧ x.tmod gps.B = p := by
  obtain ⟨n, rfl⟩ := Int.eq_ofNat_of_zero_le hx.1
  have hn : n < gps.A * gps.B := by
    have := hx.2
    rw [gps.N_eq] at this
    exact Int.ofNat_lt.mp this
  refine ⟨n / gps.B, n % gps.B, Nat.div_lt_of_lt_mul (Nat.mul_comm _ _ ▸ hn), Nat.mod_lt _ gps.one_le_B, ?_, rfl, rfl⟩
  have := Nat.div_add_mod' n gps.B
  exact_mod_cast this.symm

/-- Row and position of the user `a * B + b`. -/
theorem index_eq (a : Nat) (hb : b < gps.B) :
    (a * gps.B + b : Int).tdiv gps.B = a ∧ (a * gps.B + b : Int).tmod gps.B = b := by
  have hdiv : (a * gps.B + b) / gps.B = a := by
    rw [Nat.mul_comm, Nat.mul_add_div gps.one_le_B, Nat.div_eq_of_lt hb, Nat.add_zero]
  have hmod : (a * gps.B + b) % gps.B = b := by
    rw [Nat.mul_comm, Nat.mul_add_mod, Nat.mod_eq_of_lt hb]
  exact ⟨congrArg Int.ofNat hdiv, congrArg Int.ofNat hmod⟩

/-- The user is on the list exactly if its position is in its row. -/
theorem mem_row_iff (hS : ∀ x ∈ S, 0 ≤ x ∧ x < gps.N) (a : Nat) (hb : b < gps.B) :
    b ∈ row gps S a ↔ (a * gps.B + b : Int) ∈ S := by
  rw [mem_row]
  constructor
  · intro h
    obtain ⟨x, hx, hl, hp⟩ := h
    obtain ⟨l, p, -, -, hxe, hxl, hxp⟩ := receiver_eq gps (hS x hx)
    rw [hxp, Int.toNat_natCast] at hp
    rw [hxl] at hl
    rwa [hxe, hl, hp] at hx
  · intro h
    obtain ⟨hline, hpos⟩ := index_eq gps a hb
    exact ⟨_, h, hline, by rw [hpos, Int.toNat_natCast]⟩

theorem row_nil (a : Int) : row gps [] a = ∅ := rfl

theorem row_cons (x : Int) (S : List Int) (a : Int) :
    row gps (x :: S) a = if x.tdiv gps.B = a then insert (x.tmod gps.B).toNat (row gps S a) else row gps S a := by
  unfold row
  by_cases h : x.tdiv gps.B = a
  · simp [h]
  · simp [h]

/-- A receiver that is not on the list leaves its position free. -/
theorem pos_notMem_row (hx : 0 ≤ x ∧ x < gps.N) (hS : ∀ y ∈ S, 0 ≤ y ∧ y < gps.N) (hnot : x ∉ S) :
    (x.tmod gps.B).toNat ∉ row gps S (x.tdiv gps.B) := by
  intro hmem
  obtain ⟨y, hy, hl, hp⟩ := (mem_row gps).mp hmem
  obtain ⟨l, p, -, -, rfl, hxl, hxp⟩ := receiver_eq gps hx
  obtain ⟨l', p', -, -, rfl, hyl, hyp⟩ := receiver_eq gps (hS y hy)
  rw [hxl, hyl] at hl
  rw [hxp, hyp, Int.toNat_natCast, Int.toNat_natCast] at hp
  rw [hl, hp] at hy
  exact hnot hy

/-! ## The loops -/

theorem encryptSubscript_eq (hp : p < gps.B) (hx : x.tmod gps.B = p) :
    encryptSubscript gps x = ((gps.B - 1 - p : Nat) : Int) := by
  unfold encryptSubscript
  rw [hx]
  omega

theorem pkpos_eq (hp : p < gps.B) (hx : x.tmod gps.B = p) : pkpos gps b x = ((gps.B - p + b : Nat) : Int) := by
  unfold pkpos
  rw [hx]
  omega

section

variable (hgi : PK.g_i = (List.range (2 * gps.B)).map gi)
include hgi

/-- One receiver adds its element to the entry of its row. -/
theorem encryptStep_ok (hx : 0 ≤ x ∧ x < gps.N) (k : Nat) (h : Nat → G) :
    encryptStep gps PK ((List.range (gps.A + 1)).map h) (x, k) = .ok ((List.range (gps.A + 1)).map fun l =>
      h l + if x.tdiv gps.B = l - 1 then gi (gps.B - 1 - (x.tmod gps.B).toNat) else 0) := by
  obtain ⟨l, p, hl, hp, -, hxl, hxp⟩ := receiver_eq gps hx
  have hline : (l : Int) + 1 = ((l + 1 : Nat) : Int) := by omega
  unfold encryptStep
  rw [if_neg (by simp only; omega)]
  simp only [hxl, encryptSubscript_eq gps hp hxp, hline, hgi]
  rw [getAt_range h (by omega), getAt_range gi (by omega)]
  show setAt _ _ (h (l + 1) + gi (gps.B - 1 - p)) = _
  rw [setAt_range h (by omega), hxp, Int.toNat_natCast]
  congr 2
  funext j
  by_cases e : j = l + 1
  · subst e
    rw [update_self, if_pos (by omega)]
  · rw [update_of_ne e, if_neg (by omega), add_zero]

theorem encryptLoop_ok (hS : ∀ x ∈ S, 0 ≤ x ∧ x < gps.N) (hnd : S.Nodup) : ∀ (k : Nat) (h : Nat → G),
    (S.zipIdx k).foldlM (encryptStep gps PK) ((List.range (gps.A + 1)).map h) =
      .ok ((List.range (gps.A + 1)).map fun l => h l + ∑ p ∈ row gps S (l - 1), gi (gps.B - 1 - p)) := by
  induction S with
  | nil => intro k h; simp [row_nil]; rfl
  | cons x S ih =>
    intro k h
    have hx := hS x List.mem_cons_self
    have hS' : ∀ y ∈ S, 0 ≤ y ∧ y < gps.N := fun y hy => hS y (List.mem_cons_of_mem _ hy)
    obtain ⟨hnot, hnd'⟩ := List.nodup_cons.mp hnd
    rw [List.zipIdx_cons, List.foldlM_cons, encryptStep_ok gps PK hgi hx]
    refine (ih hS' hnd' (k + 1) _).trans ?_
    congr 2
    funext l
    rw [row_cons]
    by_cases hl : x.tdiv gps.B = l - 1
    · rw [if_pos hl, if_pos hl, ← hl, Finset.sum_insert (pos_notMem_row gps hx hS' hnot), add_assoc]
    · rw [if_neg hl, if_neg hl, add_zero]

theorem decryptStep_ok (hx : 0 ≤ x ∧ x < gps.N) (hb : b < gps.B) (a : Int) (k : Nat) (temp : G) :
    decryptStep gps PK a b temp (x, k) = .ok (temp +
      if x.tdiv gps.B = a ∧ (x.tmod gps.B).toNat ≠ b then gi (gps.B - (x.tmod gps.B).toNat + b) else 0) := by
  obtain ⟨l, p, hl, hp, -, hxl, hxp⟩ := receiver_eq gps hx
  have hpb : ((p : Int) ≠ b) ↔ p ≠ b := by omega
  unfold decryptStep
  rw [if_neg (by simp only; omega)]
  simp only [hxl, hxp, Int.toNat_natCast, hpb, pkpos_eq gps hp hxp, hgi]
  by_cases hcond : (l : Int) = a ∧ p ≠ b
  · rw [if_pos hcond, if_pos hcond, getAt_range gi (by omega)]
    rfl
  · rw [if_neg hcond, if_neg hcond, add_zero]
    rfl

/-- The share collects the row's elements except that of `b`. -/
theorem decryptLoop_ok (hb : b < gps.B) (hS : ∀ x ∈ S, 0 ≤ x ∧ x < gps.N) (hnd : S.Nodup) : ∀ (k : Nat) (temp : G),
    (S.zipIdx k).foldlM (decryptStep gps PK a b) temp =
      .ok (temp + ∑ p ∈ (row gps S a).erase b, gi (gps.B - p + b)) := by
  induction S with
  | nil => intro k temp; simp [row_nil]; rfl
  | cons x S ih =>
    intro k temp
    have hx := hS x List.mem_cons_self
    have hS' : ∀ y ∈ S, 0 ≤ y ∧ y < gps.N := fun y hy => hS y (List.mem_cons_of_mem _ hy)
    obtain ⟨hnot, hnd'⟩ := List.nodup_cons.mp hnd
    have hfree := pos_notMem_row gps hx hS' hnot
    rw [List.zipIdx_cons, List.foldlM_cons, decryptStep_ok gps PK hgi hx hb]
    refine (ih hS' hnd' (k + 1) _).trans ?_
    rw [row_cons, add_assoc]
    congr 2
    by_cases hla : x.tdiv gps.B = a
    · rw [hla] at hfree
      by_cases hpb : (x.tmod gps.B).toNat = b
      · rw [hpb] at hfree ⊢
        rw [if_neg fun h => h.2 rfl, if_pos hla, Finset.erase_insert hfree, Finset.erase_eq_of_notMem hfree, zero_add]
      · have hfree' : (x.tmod gps.B).toNat ∉ (row gps S a).erase b := fun h => hfree (Finset.mem_of_mem_erase h)
        rw [if_pos ⟨hla, hpb⟩, if_pos hla, Finset.erase_insert_of_ne hpb, Finset.sum_insert hfree']
    · rw [if_neg fun h => hla h.1, if_neg hla, zero_add]

end

omit [AddCommGroup G] in
theorem headerLoop_ok {v : Nat → G} (hv : PK.v_i = (List.range gps.A).map v) (x : G) : ∀ k ≤ gps.A,
    (List.range' 1 k).foldlM (headerStep PK) [x] =
      .ok ((List.range (k + 1)).map fun l => if l = 0 then x else v (l - 1)) := by
  intro k
  induction k with
  | zero => intro _; rfl
  | succ k ih =>
    intro hk
    have hi : ((1 + k : Nat) : Int) - 1 = (k : Int) := by omega
    have hstep : headerStep PK ((List.range (k + 1)).map fun l => if l = 0 then x else v (l - 1)) (1 + k) =
        .ok ((List.range (k + 1)).map (fun l => if l = 0 then x else v (l - 1)) ++ [v k]) := by
      unfold headerStep
      rw [hi, hv, getAt_range v (by omega)]
      rfl
    rw [List.range'_1_concat, List.foldlM_append, ih (by omega), List.range_succ (n := k + 1), List.map_append]
    show (headerStep PK _ (1 + k) >>= pure) = _
    rw [hstep]
    rfl

theorem powLoop_ok (t : R) (h : Nat → G) : ∀ k ≤ gps.A,
    (List.range' 1 k).foldlM (powStep t) ((List.range (gps.A + 1)).map h) =
      .ok ((List.range (gps.A + 1)).map fun l => if 1 ≤ l ∧ l ≤ k then t • h l else h l) := by
  intro k
  induction k with
  | zero =>
    intro _
    have hnone : (fun l => if 1 ≤ l ∧ l ≤ 0 then t • h l else h l) = h := by
      funext l
      rw [if_neg (by omega)]
    rw [hnone]
    rfl
  | succ k ih =>
    intro hk
    rw [List.range'_1_concat, List.foldlM_append, ih (by omega)]
    show (powStep t _ (1 + k) >>= pure) = _
    rw [bind_pure]
    unfold powStep
    rw [getAt_range _ (by omega)]
    show setAt _ _ _ = _
    rw [setAt_range _ (by omega)]
    congr 2
    funext l
    by_cases e : l = 1 + k
    · subst e
      rw [update_self, if_neg (by omega), if_pos (by omega)]
    · rw [update_of_ne e]
      congr 1
      exact propext (by omega)

/-! ## Encapsulation and decapsulation -/

theorem row_lt (hS : ∀ x ∈ S, 0 ≤ x ∧ x < gps.N) (hp : p ∈ row gps S a) : p < gps.B := by
  obtain ⟨x, hx, -, rfl⟩ := (mem_row gps).mp hp
  obtain ⟨l, p, -, hp, -, -, hxp⟩ := receiver_eq gps (hS x hx)
  rw [hxp, Int.toNat_natCast]
  exact hp

variable (g : G) (α : R) (γ : Nat → R)

theorem getEncryptionKey_ok (hS : ∀ x ∈ S, 0 ≤ x ∧ x < gps.N) (hnd : S.Nodup) (t : R) :
    getEncryptionKey e gps (pubKey gps g α γ) S t = .ok
      { HDR := (List.range (gps.A + 1)).map fun l =>
          if l = 0 then t • g else t • rowHeader g α (γ (l - 1)) gps.B (row gps S (l - 1))
        K := t • e (α ^ gps.B • g) (α • g) } := by
  have hB := gps.one_le_B
  have hlast : ((gps.B : Int) - 1) = ((gps.B - 1 : Nat) : Int) := by omega
  have hfirst : getAt (pubKey gps g α γ).g_i (gps.B - 1) = .ok (α ^ (gps.B - 1 + 1) • g) := by
    rw [hlast]
    exact getAt_range _ (by omega)
  have hzero : getAt (pubKey gps g α γ).g_i 0 = .ok (α ^ (0 + 1) • g) := getAt_range _ (k := 0) (by omega)
  unfold getEncryptionKey
  rw [hfirst, ok_bind, hzero, ok_bind, headerLoop_ok gps _ rfl _ _ (Nat.le_refl _), ok_bind, encryptLoop_ok gps _ rfl hS hnd,
    ok_bind, powLoop_ok gps t _ _ (Nat.le_refl _), ok_bind, Nat.sub_add_cancel hB, Nat.zero_add, pow_one]
  show Except.ok _ = _
  congr 2
  refine List.map_congr_left fun l hl => ?_
  have hl' := List.mem_range.mp hl
  by_cases h0 : l = 0
  · -- no receiver is in row `-1`
    have hempty : row gps S ((l : Int) - 1) = ∅ := by
      refine Finset.eq_empty_of_forall_notMem fun p hp => ?_
      obtain ⟨x, hx, hline, -⟩ := (mem_row gps).mp hp
      obtain ⟨l, p, -, -, -, hxl, -⟩ := receiver_eq gps (hS x hx)
      omega
    rw [if_neg (by omega), if_pos h0, if_pos h0, hempty, Finset.sum_empty, add_zero]
    rfl
  · rw [if_pos (by omega), if_neg h0, if_neg h0]
    unfold rowHeader
    congr 2
    refine Finset.sum_congr rfl fun p hp => ?_
    have hp' := row_lt gps hS hp
    rw [show gps.B - 1 - p + 1 = gps.B - p by omega]

theorem getDecryptionKey_ok (hS : ∀ x ∈ S, 0 ≤ x ∧ x < gps.N) (hnd : S.Nodup) {a : Nat}
    (ha : a < gps.A) (hb : b < gps.B) (h : Nat → G) :
    getDecryptionKey e gps (pubKey gps g α γ) S (a * gps.B + b) (privateKey g α γ a b) ((List.range (gps.A + 1)).map h) =
      .ok (e (α ^ (b + 1) • g) (h (a + 1)) - e (rowShare g α (γ a) gps.B b (row gps S a)) (h 0)) := by
  obtain ⟨hline, hpos⟩ := index_eq gps a hb
  have hgi : getAt (pubKey gps g α γ).g_i b = .ok (α ^ (b + 1) • g) := getAt_range _ (by omega)
  have hrow : getAt ((List.range (gps.A + 1)).map h) ((a : Int) + 1) = .ok (h (a + 1)) := getAt_range h (k := a + 1) (by omega)
  have hrand : getAt ((List.range (gps.A + 1)).map h) 0 = .ok (h 0) := getAt_range h (k := 0) (by omega)
  unfold getDecryptionKey
  simp only [hline, hpos]
  rw [hgi, ok_bind, hrow, ok_bind, decryptLoop_ok gps _ rfl hb hS hnd, ok_bind, hrand, ok_bind]
  rfl

/-- For every pairing, secrets and randomness, and any two duplicate-free receiver lists that agree on the user's
row: decapsulation gives the encapsulated key to a user on the list and the unit to any other one. -/
theorem decryption_recovers_key {S S' : List Int} (hS : ∀ x ∈ S, 0 ≤ x ∧ x < gps.A * gps.B) (hnd : S.Nodup)
    (hS' : ∀ x ∈ S', 0 ≤ x ∧ x < gps.A * gps.B) (hnd' : S'.Nodup) {a b : Nat} (ha : a < gps.A) (hb : b < gps.B)
    (hrow : ∀ x : Int, x.tdiv gps.B = a → (x ∈ S' ↔ x ∈ S)) (t : R) :
    ∃ kp, getEncryptionKey e gps (pubKey gps g α γ) S t = .ok kp ∧
      kp.K = t • e (α ^ gps.B • g) (α • g) ∧
      getDecryptionKey e gps (pubKey gps g α γ) S' (a * gps.B + b) (privateKey g α γ a b) kp.HDR =
        .ok (if (a * gps.B + b : Int) ∈ S then kp.K else 0) ∧
      (∀ x ∈ S, 0 ≤ encryptSubscript gps x ∧ encryptSubscript gps x < 2 * gps.B) ∧
      ∀ x ∈ S', x.tdiv gps.B = a → x.tmod gps.B ≠ b → 0 ≤ pkpos gps b x ∧ pkpos gps b x < 2 * gps.B := by
  have hN : (gps.N : Int) = gps.A * gps.B := by rw [gps.N_eq, Nat.cast_mul]
  rw [← hN] at hS hS'
  refine ⟨_, getEncryptionKey_ok e gps g α γ hS hnd t, rfl, ?_, fun x hx => ?_, fun x hx _ _ => ?_⟩
  · have hsame : row gps S' a = row gps S a := by
      ext p
      rw [mem_row, mem_row]
      refine exists_congr fun x => ?_
      rw [and_left_comm, and_left_comm (a := x ∈ S)]
      exact and_congr_right fun hx => and_congr_left fun _ => hrow x hx
    rw [getDecryptionKey_ok e gps g α γ hS' hnd' ha hb, hsame, if_pos rfl, if_neg (Nat.succ_ne_zero a), Nat.add_sub_cancel,
      show ((a + 1 : Nat) : Int) - 1 = a by omega, pairing_rowHeader_sub e g α (γ a) t hb.le]
    simp only [mem_row_iff gps hS a hb]
  · obtain ⟨l, p, -, hp, -, -, hxp⟩ := receiver_eq gps (hS x hx)
    rw [encryptSubscript_eq gps hp hxp]
    omega
  · obtain ⟨l, p, -, hp, -, -, hxp⟩ := receiver_eq gps (hS' x hx)
    rw [pkpos_eq gps hp hxp]
    omega

end Keys

/-- Four users in two rows over the integers, with `t = 5`: user 3 decapsulates the key of
    the receivers 0, 3, 2 with a list of its own row only. -/
theorem decryption_recovers_key_two_rows :
    let gps : GlobalParams := ⟨4, 2, 2, by decide, by decide, rfl⟩
    let PK := pubKey gps (1 : ℤ) (2 : ℤ) fun _ => 3
    ∃ kp, getEncryptionKey (LinearMap.mul ℤ ℤ) gps PK [0, 3, 2] 5 = .ok kp ∧ kp.K = 40 ∧
      getDecryptionKey (LinearMap.mul ℤ ℤ) gps PK [2, 3] 3 (privateKey (1 : ℤ) (2 : ℤ) (fun _ => 3) 1 1) kp.HDR = .ok 40 := by
  intro gps PK
  have hrow : ∀ x : Int, x.tdiv gps.B = (1 : Nat) → (x ∈ ([2, 3] : List Int) ↔ x ∈ ([0, 3, 2] : List Int)) := by
    intro x hx
    have h0 : x ≠ 0 := by
      intro e
      subst e
      exact absurd hx (by decide)
    simp [h0, or_comm]
  obtain ⟨kp, henc, hK, hdec, -⟩ := decryption_recovers_key (LinearMap.mul ℤ ℤ) gps 1 2 (fun _ => 3) (S := [0, 3, 2])
    (by decide) (by decide) (by decide) (by decide) (a := 1) (b := 1) (by decide) (by decide) hrow 5
  have hK' : kp.K = 40 := by rw [hK]; decide
  rw [if_pos (by decide), hK'] at hdec
  exact ⟨kp, henc, hK', hdec⟩

end Badnet.Broadcast
