/-
  Badnet.Directory.Capacity — whether the relay indices fit the broadcast system.

  The tables are made for `MAX_REALY_NUMBER` relays, rounded up to a rectangle; the contract hands out indices without
  looking at that number, and the two functions give up on an index that has no place in the tables. All recipients fit
  exactly if the run has at most 1022 registrations (`recipients_fit_iff`).
-/

import Badnet.Broadcast.Bkem
import Badnet.Directory.Recipients

namespace Badnet.Directory

open Lib Broadcast

/-- The constant of `router.c`, under its name there. -/
def MAX_REALY_NUMBER : Nat := 1000

/-- `gps` as `bkem_param` sets it up. -/
def relayGps : GlobalParams := setupGlobalSystem MAX_REALY_NUMBER (by decide)

/-- 33 rows of 31. -/
theorem relayGps_N : relayGps.N = 1023 := by
  have hsqrt : Nat.sqrt 1000 = 31 := (Nat.eq_sqrt.mpr ⟨by decide, by decide⟩).symm
  show (1000 + Nat.sqrt 1000 - 1) / Nat.sqrt 1000 * Nat.sqrt 1000 = 1023
  rw [hsqrt]

/-! ## The out-of-range return -/

/-- The function does not end at a receiver out of range. -/
def Passes {α : Type*} (x : Except Stop α) : Prop := ∀ i, x ≠ .error (.receiver i)

theorem Passes.ok {α : Type*} (a : α) : Passes (Except.ok a) := by
  intro i h
  cases h

theorem Passes.bind {α β : Type*} {x : Except Stop α} {f : α → Except Stop β} (hx : Passes x)
    (hf : ∀ a, Passes (f a)) : Passes (x.bind f) := by
  intro i h
  rcases x with e | a
  · cases h
    exact hx i rfl
  · exact hf a i h

theorem Passes.foldlM {α β : Type*} {f : β → α → Except Stop β} {l : List α} (hf : ∀ b, ∀ a ∈ l, Passes (f b a))
    (b : β) : Passes (l.foldlM f b) := by
  induction l generalizing b with
  | nil => exact Passes.ok b
  | cons a l ih =>
    rw [List.foldlM_cons]
    exact (hf b a List.mem_cons_self).bind fun c => ih (fun b a ha => hf b a (List.mem_cons_of_mem _ ha)) c

theorem getAt_passes {α : Type*} (xs : List α) (k : Int) : Passes (getAt xs k) := by
  intro i h
  rw [getAt] at h
  split at h
  · rcases hk : xs[k.toNat]? with _ | x <;> rw [hk] at h <;> cases h
  · cases h

theorem setAt_passes {α : Type*} (xs : List α) (k : Int) (x : α) : Passes (setAt xs k x) := by
  intro i h
  rw [setAt] at h
  split at h <;> cases h

section Keys

variable {R : Type*} {G T : Type u} [CommRing R] [AddCommGroup G] [Module R G] [AddCommGroup T] [Module R T]
variable (e : G →ₗ[R] G →ₗ[R] T) (gps : GlobalParams) (PK : PubKey G)

/-- With any key, randomness, index and header. -/
theorem get_keys_in_range {S : List Int} (hS : ∀ x ∈ S, 0 ≤ x ∧ x < gps.N) :
    (∀ t, Passes (getEncryptionKey e gps PK S t)) ∧
      ∀ index d_i HDR, Passes (getDecryptionKey e gps PK S index d_i HDR) := by
  have hmem : ∀ p ∈ S.zipIdx, p.1 ∈ S := by
    intro p hp
    exact List.fst_mem_of_mem_zipIdx hp
  refine ⟨fun t => ?_, fun index d_i HDR => ?_⟩
  · refine (getAt_passes _ _).bind fun x => (getAt_passes _ _).bind fun y => ?_
    refine (Passes.foldlM (fun b a _ => ?_) _).bind fun HDR => (Passes.foldlM (fun b p hp => ?_) _).bind fun HDR =>
      (Passes.foldlM (fun b a _ => ?_) _).bind fun HDR => Passes.ok _
    · exact (getAt_passes _ _).bind fun v => Passes.ok _
    · obtain ⟨h0, hN⟩ := hS p.1 (hmem p hp)
      rw [encryptStep, if_neg (by omega)]
      exact (getAt_passes _ _).bind fun h => (getAt_passes _ _).bind fun x => setAt_passes _ _ _
    · exact (getAt_passes _ _).bind fun h => setAt_passes _ _ _
  · refine (getAt_passes _ _).bind fun x => (getAt_passes _ _).bind fun y => ?_
    refine (Passes.foldlM (fun b p hp => ?_) _).bind fun temp => (getAt_passes _ _).bind fun h => Passes.ok _
    obtain ⟨h0, hN⟩ := hS p.1 (hmem p hp)
    rw [decryptStep, if_neg (by omega)]
    split
    · exact (getAt_passes _ _).bind fun x => Passes.ok _
    · exact Passes.ok _

end Keys

/-! ## Recipients -/

/-- The recipients are in range, and neither function gives up on them, whatever its other arguments. -/
structure Fits (S : List Nat) : Prop where
  range : ∀ x ∈ S, 0 ≤ x ∧ x < relayGps.N
  encryption : ∀ (R G T : Type) [CommRing R] [AddCommGroup G] [Module R G] [AddCommGroup T] [Module R T]
    (e : G →ₗ[R] G →ₗ[R] T) (PK : PubKey G) (t : R) (i : Nat),
    getEncryptionKey e relayGps PK (S.map Int.ofNat) t ≠ .error (.receiver i)
  decryption : ∀ (R G T : Type) [CommRing R] [AddCommGroup G] [Module R G] [AddCommGroup T] [Module R T]
    (e : G →ₗ[R] G →ₗ[R] T) (PK : PubKey G) (index : Int) (d_i : G) (HDR : List G) (i : Nat),
    getDecryptionKey e relayGps PK (S.map Int.ofNat) index d_i HDR ≠ .error (.receiver i)

theorem fits_iff {S : List Nat} : Fits S ↔ ∀ x ∈ S, x < relayGps.N := by
  refine ⟨fun h x hx => (h.range x hx).2, fun h => ?_⟩
  have hint : ∀ x ∈ S.map Int.ofNat, 0 ≤ x ∧ x < relayGps.N := by
    intro x hx
    obtain ⟨n, hn, rfl⟩ := List.mem_map.mp hx
    exact ⟨Int.natCast_nonneg n, Int.ofNat_lt.mpr (h n hn)⟩
  constructor
  · intro x hx
    exact ⟨Nat.zero_le x, h x hx⟩
  · intro R G T _ _ _ _ _ e PK t
    exact (get_keys_in_range e relayGps PK hint).1 t
  · intro R G T _ _ _ _ _ e PK index d_i HDR
    exact (get_keys_in_range e relayGps PK hint).2 index d_i HDR

/-- What `relayGetSet` returns to a registered relay fits; the counter may be read later than the set. -/
def Fitting (s : State) : Prop := ∀ a t g, RelayPy.relayGetSet a s t = .ok g → Fits g.relaySet

variable {s t : State} {c : Call}

/-- The last index with a place has been handed out at most. -/
theorem fitting_of_le (h : s.relayIndex.toNat ≤ 1023) : Fitting s := by
  intro a t g hg
  obtain ⟨-, -, rfl⟩ := relayGetSet_ok.mp hg
  refine fits_iff.mpr fun x hx => ?_
  obtain ⟨-, hlt, -⟩ := mem_healthySet.mp hx
  rw [relayGps_N]
  omega

/-- An index without a place that nobody marked is in the set of every registered relay. -/
theorem not_fitting {a : Address} {i : UInt16} (ha : (s.relayOf a).registered = true)
    (hi : 1023 ≤ i.toNat) (hlt : i < s.relayIndex) (hmark : i ∉ s.unhealthyRelaySet) :
    ∃ g, RelayPy.relayGetSet a s s = .ok g ∧ ¬ Fits g.relaySet := by
  refine ⟨_, relayGetSet_ok.mpr ⟨ha, ha, rfl⟩, fun hfits => ?_⟩
  have hne : i ≠ 0 := by
    intro h0
    rw [h0] at hi
    exact absurd hi (by decide)
  have hmem : i.toNat ∈ s.healthySet := toNat_mem_healthySet.mpr ⟨hne, hlt, hmark⟩
  have hrange := fits_iff.mp hfits _ hmem
  rw [relayGps_N] at hrange
  omega

/-! ## Runs -/

/-- A registration is given an index that has a place. -/
def HasPlace (s : State) (c : Call) : Prop := c.registers = true → s.relayIndex.toNat < 1023

theorem relayIndex_step (h : step s c = some t) :
    t.relayIndex = if c.registers = true then s.relayIndex + 1 else s.relayIndex := by
  cases step_iff.mp h with
  | register a _ => rfl
  | upload a u _ | cancel a _ | period p | modify size list _ _ _ => simp [Call.registers]

/-- A registration leaves its sender registered, and marks nobody. -/
theorem register_step (hc : c.registers = true) (h : step s c = some t) :
    (t.relayOf c.sender).registered = true ∧ t.unhealthyRelaySet = s.unhealthyRelaySet := by
  cases step_iff.mp h with
  | register a _ => exact ⟨by simp [State.relayOf, State.enrolled], rfl⟩
  | upload a u _ | cancel a _ | period p | modify size list _ _ _ => simp [Call.registers] at hc

/-- Up to the last place: a step keeps all recipients fitting exactly if it has a place for whom it registers. -/
theorem step_fitting (hs : Registry s) (hle : s.relayIndex.toNat ≤ 1023) (h : step s c = some t) :
    (Fitting t ↔ HasPlace s c) ∧ (HasPlace s c → Registry t ∧ t.relayIndex.toNat ≤ 1023) := by
  have ht : Registry t := registry_step hs (fun _ => by omega) h
  have hidx := relayIndex_step h
  by_cases hc : c.registers = true
  · rw [if_pos hc] at hidx
    have hsucc : t.relayIndex.toNat = s.relayIndex.toNat + 1 := by
      rw [hidx, toNat_succ16 (by omega)]
    by_cases hplace : s.relayIndex.toNat < 1023
    · have hle' : t.relayIndex.toNat ≤ 1023 := by omega
      exact ⟨iff_of_true (fitting_of_le hle') fun _ => hplace, fun _ => ⟨ht, hle'⟩⟩
    · -- the index handed out is the first without a place, and was not handed out before
      have hnot : ¬ HasPlace s c := fun hp => hplace (hp hc)
      obtain ⟨hsender, hmarks⟩ := register_step hc h
      have hfree : s.relayIndex ∉ t.unhealthyRelaySet := by
        rw [hmarks]
        intro hm
        exact absurd (hs.deny _ hm).2 (by simp)
      have hlt : s.relayIndex < t.relayIndex := UInt16.lt_iff_toNat_lt.mpr (by omega)
      obtain ⟨g, hg, hfits⟩ := not_fitting hsender (by omega) hlt hfree
      exact ⟨iff_of_false (fun hall => hfits (hall _ _ _ hg)) hnot, fun hp => absurd hp hnot⟩
  · rw [if_neg hc] at hidx
    have hle' : t.relayIndex.toNat ≤ 1023 := by
      rw [hidx]
      exact hle
    exact ⟨iff_of_true (fitting_of_le hle') fun hc' => absurd hc' hc, fun _ => ⟨ht, hle'⟩⟩

theorem hasPlace_iff {o : Address} {cs : List Call} (h : run step (deploy o) cs = some s) :
    AllSteps step HasPlace (deploy o) cs ↔ cs.countP Call.registers ≤ 1022 := by
  induction cs using List.reverseRecOn generalizing s with
  | nil => exact iff_of_true allSteps_nil (Nat.zero_le _)
  | append_singleton cs c ih =>
    obtain ⟨t, ht, -⟩ := (run_snoc_some step).mp h
    have hidx := relayIndex_eq ht
    rw [allSteps_snoc, ih ht, List.countP_append, List.countP_singleton]
    have hlast : (∀ u, run step (deploy o) cs = some u → HasPlace u c) ↔ HasPlace t c := by simp [ht]
    rw [hlast, HasPlace]
    by_cases hc : c.registers = true
    · rw [if_pos hc]
      constructor
      · rintro ⟨hle, hplace⟩
        have := hplace hc
        omega
      · intro hle
        exact ⟨by omega, fun _ => by omega⟩
    · rw [if_neg hc]
      exact ⟨fun hall => hall.1, fun hle => ⟨hle, fun hc' => absurd hc' hc⟩⟩

/-- In every state of a run all recipients fit, exactly if the run has at most 1022 registrations, however many of the
    relays have been cancelled or marked in between. -/
theorem recipients_fit_iff {o : Address} {cs : List Call} {s : State} (h : run step (deploy o) cs = some s) :
    AllStates step Fitting (deploy o) cs ↔ cs.countP Call.registers ≤ 1022 := by
  have hfirst : (deploy o).relayIndex.toNat ≤ 1023 := show (1 : Nat) ≤ 1023 by decide
  rw [← hasPlace_iff h]
  refine allStates_iff_allSteps_inv (I := fun s => Registry s ∧ s.relayIndex.toNat ≤ 1023)
    ⟨registry_deploy o, hfirst⟩ (fitting_of_le hfirst) ?_ h
  intro s c t hi _ ht
  exact step_fitting hi.1 hi.2 ht

theorem recipients_fit_iff_cancelled_relay :
    AllStates step Fitting (deploy 0) [⟨1, .relayRegister⟩, ⟨1, .relayCancellation⟩, ⟨1, .relayRegister⟩] :=
  (recipients_fit_iff rfl).mpr (by decide)

/-- The addresses 1, 2, ..., `n` register in this order. -/
def registrations (n : Nat) : List Call := (List.range n).map fun k => ⟨BitVec.ofNat 160 (k + 1), .relayRegister⟩

theorem run_registrations {n : Nat} (hn : n ≤ 2000) :
    ∃ s, run step (deploy 0) (registrations n) = some s ∧ Registry s ∧ s.relayIndex.toNat = n + 1 ∧
      s.unhealthyRelaySet = [] ∧ ∀ k, n ≤ k → k < 2000 → s.relayaddr (BitVec.ofNat 160 (k + 1)) = 0 := by
  induction n with
  | zero => exact ⟨deploy 0, rfl, registry_deploy 0, rfl, rfl, fun _ _ _ => rfl⟩
  | succ n ih =>
    obtain ⟨s, hrun, hs, hidx, hmarks, haddr⟩ := ih (by omega)
    have hfree : (s.relayOf (BitVec.ofNat 160 (n + 1))).registered = false := by
      have hreg := hs.registered_iff (BitVec.ofNat 160 (n + 1))
      rw [haddr n (Nat.le_refl n) (by omega)] at hreg
      simpa using hreg
    have hstep := step_iff.mpr (Step.register (BitVec.ofNat 160 (n + 1)) hfree)
    refine ⟨_, ?_, registry_step hs (fun _ => by omega) hstep, ?_, hmarks, fun k hk hlt => ?_⟩
    · rw [registrations, List.range_succ, List.map_append]
      exact (run_snoc_some step).mpr ⟨s, hrun, hstep⟩
    · have hreg : Call.registers ⟨BitVec.ofNat 160 (n + 1), .relayRegister⟩ = true := rfl
      rw [relayIndex_step hstep, if_pos hreg, toNat_succ16 (by omega), hidx]
    · have hne : BitVec.ofNat 160 (k + 1) ≠ BitVec.ofNat 160 (n + 1) := by
        intro he
        have hval := congrArg BitVec.toNat he
        rw [BitVec.toNat_ofNat, BitVec.toNat_ofNat, Nat.mod_eq_of_lt (by omega), Nat.mod_eq_of_lt (by omega)] at hval
        omega
      simp only [State.logOp, State.enrolled]
      rw [Function.update_of_ne hne]
      exact haddr k (by omega) hlt

theorem the_last_registration_has_no_place :
    ¬ ∀ s a t g, run step (deploy 0) (registrations 1023) = some s → RelayPy.relayGetSet a s t = .ok g →
      Fits g.relaySet := by
  intro hall
  obtain ⟨t, hrun, -, hidx, hmarks, -⟩ := run_registrations (n := 1023) (by omega)
  have hsplit : registrations 1023 = registrations 1022 ++ [⟨BitVec.ofNat 160 1023, .relayRegister⟩] := by
    rw [registrations, registrations, List.range_succ, List.map_append]
    rfl
  obtain ⟨u, -, hstep⟩ := (run_snoc_some step).mp (hsplit ▸ hrun)
  obtain ⟨hsender, -⟩ := register_step rfl hstep
  have hlt : (1023 : UInt16) < t.relayIndex := UInt16.lt_iff_toNat_lt.mpr (by rw [hidx]; decide)
  have hmark : (1023 : UInt16) ∉ t.unhealthyRelaySet := by simp [hmarks]
  obtain ⟨g, hg, hfits⟩ := not_fitting hsender (by decide) hlt hmark
  exact hfits (hall t _ t g hrun hg)

end Badnet.Directory
