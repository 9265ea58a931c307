/-
  Badnet.Directory.Registry — what a transaction can do, and the registry invariant.

  `Step` lists the transactions that do not revert, with their guards and the storage they leave (`step_iff`); every
  invariant below is one case analysis over it. Indices are handed out by `relayIndex++`, which wraps after 65535
  registrations. Up to there (`Registry`) an index belongs to at most one address, a relay is healthy exactly if it is
  registered and not on the deny list, and the data stored for it is what its owner's last upload since the registration
  supplied (`stored_eq_lastUpload`).
-/

import Mathlib.Data.List.Nodup
import Badnet.Directory.Contract

namespace Badnet.Directory

open Lib Function

/-! ## Transactions that do not revert -/

section

variable (s : State)

def State.enrolled (a : Address) : State :=
  { s with
    relayaddr := update s.relayaddr a s.relayIndex
    relay := update s.relay s.relayIndex { s.relay s.relayIndex with registered := true, healthflag := true }
    relayIndex := s.relayIndex + 1 }

def State.uploaded (a : Address) (u : Upload) : State :=
  { s with relay := update s.relay (s.relayaddr a) ((s.relayOf a).store u) }

def State.cancelled (a : Address) : State :=
  { s with relay := update s.relay (s.relayaddr a) {}, relayaddr := update s.relayaddr a 0 }

def State.marked (xs : List UInt16) : State :=
  { s with
    relay := fun i => if i ∈ xs then { s.relay i with healthflag := false } else s.relay i
    unhealthyRelaySet := s.unhealthyRelaySet ++ xs }

inductive Step (s : State) : Call → State → Prop
  | register (a : Address) : (s.relayOf a).registered = false →
      Step s ⟨a, .relayRegister⟩ ((s.enrolled a).logOp true [s.relayIndex])
  | upload (a : Address) (u : Upload) : (s.relayOf a).healthflag = true →
      Step s ⟨a, .relayUploadSRIAndNSD u⟩ (s.uploaded a u)
  | cancel (a : Address) : (s.relayOf a).registered = true → Step s ⟨a, .relayCancellation⟩ (s.cancelled a)
  | period (p : BitVec 256) : Step s ⟨s.owner, .setSRIperiod p⟩ { s with RelayUploadPeriod := p }
  | modify (size : UInt16) (list : List UInt16) : size.toNat ≤ list.length → (list.take size.toNat).Nodup →
      (∀ x ∈ list.take size.toNat, (s.relay x).healthflag = true) →
      Step s ⟨s.owner, .modifyHealthFlag size list⟩ ((s.marked (list.take size.toNat)).logOp false list)

theorem marked_nil : s.marked [] = s := by simp [State.marked]

theorem markUnhealthy_eq (x : UInt16) :
    markUnhealthy s x = if (s.relay x).healthflag = true then some (s.marked [x]) else none := by
  unfold markUnhealthy State.marked
  congr 3
  funext i
  by_cases e : i = x <;> simp [e]

theorem marked_marked (xs ys : List UInt16) : (s.marked xs).marked ys = s.marked (xs ++ ys) := by
  unfold State.marked
  congr 1
  · exact List.append_assoc _ _ _
  · funext i
    by_cases hx : i ∈ xs <;> by_cases hy : i ∈ ys <;> simp [hx, hy]

end

variable {s t : State} {c : Call} {o a : Address} {cs : List Call}

/-- The loop of `modifyHealthFlag` over the entries it reads. -/
theorem markAll_some {xs : List UInt16} : run markUnhealthy s xs = some t ↔
      xs.Nodup ∧ (∀ x ∈ xs, (s.relay x).healthflag = true) ∧ t = s.marked xs := by
  induction xs generalizing s with
  | nil => simp [marked_nil, @eq_comm _ t]
  | cons x xs ih =>
    rw [run_cons, markUnhealthy_eq]
    by_cases hx : (s.relay x).healthflag = true
    · simp only [hx, if_true, Option.bind_some, ih, marked_marked, List.singleton_append, List.nodup_cons,
        List.forall_mem_cons, true_and]
      constructor
      · rintro ⟨hn, hh, rfl⟩
        have hxx : x ∉ xs := fun hm => by simpa [State.marked] using hh x hm
        refine ⟨⟨hxx, hn⟩, fun y hy => ?_, rfl⟩
        have hyx : y ≠ x := fun e => hxx (e ▸ hy)
        simpa [State.marked, hyx] using hh y hy
      · rintro ⟨⟨hxx, hn⟩, hh, rfl⟩
        refine ⟨hn, fun y hy => ?_, rfl⟩
        have hyx : y ≠ x := fun e => hxx (e ▸ hy)
        simpa [State.marked, hyx] using hh y hy
    · simp [hx]

theorem modifyLoop_some {list : List UInt16} {n : Nat} :
    run (fun t i => list[i]?.bind (markUnhealthy t)) s (List.range n) = some t ↔
      n ≤ list.length ∧ run markUnhealthy s (list.take n) = some t := by
  induction n generalizing t with
  | zero => simp
  | succ n ih =>
    simp only [List.range_succ, run_snoc_some, ih]
    by_cases hn : n < list.length
    · have ht : list.take (n + 1) = list.take n ++ [list[n]] := by simp
      rw [ht, run_snoc_some]
      constructor
      · rintro ⟨u, ⟨-, hu⟩, hl⟩
        exact ⟨hn, u, hu, by simpa [hn] using hl⟩
      · rintro ⟨-, u, hu, hl⟩
        exact ⟨u, ⟨Nat.le_of_lt hn, hu⟩, by simpa [hn] using hl⟩
    · have hnone : list[n]? = none := List.getElem?_eq_none (by omega)
      simp only [hnone, Option.bind_none, reduceCtorEq, and_false, exists_false, false_iff, not_and]
      omega

theorem step_iff : step s c = some t ↔ Step s c t := by
  obtain ⟨a, tx⟩ := c
  constructor
  · intro h
    cases tx with
    | relayRegister =>
      simp only [step, relayRegister, Option.ite_none_right_eq_some, Option.some.injEq] at h
      obtain ⟨hr, rfl⟩ := h
      exact .register a hr
    | relayUploadSRIAndNSD u =>
      simp only [step, relayUploadSRIAndNSD, Option.ite_none_right_eq_some, Option.some.injEq] at h
      obtain ⟨hh, rfl⟩ := h
      exact .upload a u hh
    | relayCancellation =>
      simp only [step, relayCancellation, Option.ite_none_right_eq_some, Option.some.injEq] at h
      obtain ⟨hr, rfl⟩ := h
      exact .cancel a hr
    | setSRIperiod p =>
      simp only [step, setSRIperiod, Option.ite_none_right_eq_some, Option.some.injEq] at h
      obtain ⟨rfl, rfl⟩ := h
      exact .period p
    | modifyHealthFlag size list =>
      simp only [step, modifyHealthFlag, Option.ite_none_right_eq_some, Option.map_eq_some_iff, modifyLoop_some,
        markAll_some] at h
      obtain ⟨rfl, u, ⟨hl, hn, hh, rfl⟩, rfl⟩ := h
      exact .modify size list hl hn hh
  · intro h
    cases h with
    | register _ hr => simp only [step, relayRegister, hr, if_true]; rfl
    | upload _ u hh => simp only [step, relayUploadSRIAndNSD, hh, if_true]; rfl
    | cancel _ hr => simp only [step, relayCancellation, hr, if_true]; rfl
    | period p => simp [step, setSRIperiod]
    | modify size list hl hn hh =>
      simp only [step, modifyHealthFlag, if_true, Option.map_eq_some_iff, modifyLoop_some, markAll_some]
      exact ⟨_, ⟨hl, hn, hh, rfl⟩, rfl⟩

/-! ## Fields a transaction leaves alone -/

section

variable (s : State) (op : Bool) (l : List UInt16)

@[simp] theorem logOp_relay : (s.logOp op l).relay = s.relay := rfl
@[simp] theorem logOp_relayaddr : (s.logOp op l).relayaddr = s.relayaddr := rfl
@[simp] theorem logOp_relayIndex : (s.logOp op l).relayIndex = s.relayIndex := rfl
@[simp] theorem logOp_unhealthy : (s.logOp op l).unhealthyRelaySet = s.unhealthyRelaySet := rfl
@[simp] theorem logOp_counter : (s.logOp op l).CurrentCounter = s.CurrentCounter + 1 := rfl
@[simp] theorem enrolled_relayIndex (a : Address) : (s.enrolled a).relayIndex = s.relayIndex + 1 := rfl
@[simp] theorem enrolled_unhealthy (a : Address) : (s.enrolled a).unhealthyRelaySet = s.unhealthyRelaySet := rfl
@[simp] theorem enrolled_counter (a : Address) : (s.enrolled a).CurrentCounter = s.CurrentCounter := rfl
section

variable (xs : List UInt16)

@[simp] theorem marked_relayIndex : (s.marked xs).relayIndex = s.relayIndex := rfl
@[simp] theorem marked_relayaddr : (s.marked xs).relayaddr = s.relayaddr := rfl
@[simp] theorem marked_unhealthy : (s.marked xs).unhealthyRelaySet = s.unhealthyRelaySet ++ xs := rfl
@[simp] theorem marked_counter : (s.marked xs).CurrentCounter = s.CurrentCounter := rfl

@[simp] theorem uploaded_relayIndex (a : Address) (u : Upload) : (s.uploaded a u).relayIndex = s.relayIndex := rfl
@[simp] theorem uploaded_unhealthy (a : Address) (u : Upload) :
    (s.uploaded a u).unhealthyRelaySet = s.unhealthyRelaySet := rfl
@[simp] theorem cancelled_relayIndex (a : Address) : (s.cancelled a).relayIndex = s.relayIndex := rfl
@[simp] theorem cancelled_unhealthy (a : Address) : (s.cancelled a).unhealthyRelaySet = s.unhealthyRelaySet := rfl

variable (i : UInt16)

@[simp] theorem marked_registered : ((s.marked xs).relay i).registered = (s.relay i).registered := by
  simp only [State.marked]; split <;> rfl

@[simp] theorem marked_stored : ((s.marked xs).relay i).stored = (s.relay i).stored := by
  simp only [State.marked]; split <;> rfl

theorem marked_healthflag : ((s.marked xs).relay i).healthflag = true ↔ (s.relay i).healthflag = true ∧ i ∉ xs := by
  simp only [State.marked]; split <;> simp_all

end

end

/-! ## Counting -/

def Call.registers (c : Call) : Bool := c.tx = .relayRegister

/-- The transactions that end in `CurrentCounter++`. -/
def Call.bumps (c : Call) : Bool :=
  match c.tx with
  | .relayRegister => true
  | .modifyHealthFlag _ _ => true
  | _ => false

theorem toNat_succ16 {n : UInt16} (h : n.toNat < 65535) : (n + 1).toNat = n.toNat + 1 := by
  simp only [UInt16.toNat_add, UInt16.reduceToNat]; omega

theorem toNat_succ8 {n : UInt8} (h : n.toNat < 255) : (n + 1).toNat = n.toNat + 1 := by
  simp only [UInt8.toNat_add, UInt8.reduceToNat]; omega

theorem relayIndex_eq (h : run step (deploy o) cs = some s) :
    s.relayIndex.toNat = (1 + cs.countP Call.registers) % 65536 := by
  refine run_inv_hist (I := fun cs s => s.relayIndex.toNat = (1 + cs.countP Call.registers) % 65536) rfl ?_ h
  intro cs t c u _ ih hu
  cases step_iff.mp hu with
  | register a _ =>
    simp only [logOp_relayIndex, enrolled_relayIndex, UInt16.toNat_add, UInt16.reduceToNat, ih, List.countP_append,
      List.countP_singleton, Call.registers]
    simp; omega
  | upload a u _ => simpa [Call.registers, State.uploaded] using ih
  | cancel a _ => simpa [Call.registers, State.cancelled] using ih
  | period p | modify size list _ _ _ => simpa [Call.registers] using ih

/-- A registration that is not the 65535th finds a `relayIndex` that can be incremented. -/
theorem relayIndex_lt (h : run step (deploy o) cs = some s)
    (hn : (cs ++ [c]).countP Call.registers < 65535) : c.registers = true → s.relayIndex.toNat < 65535 := by
  intro hr
  rw [List.countP_append] at hn
  simp only [List.countP_singleton, hr, if_true] at hn
  rw [relayIndex_eq h]
  omega

theorem counter_eq (h : run step (deploy o) cs = some s) :
    s.CurrentCounter.toNat = (1 + cs.countP Call.bumps) % 256 := by
  refine run_inv_hist (I := fun cs s => s.CurrentCounter.toNat = (1 + cs.countP Call.bumps) % 256) rfl ?_ h
  intro cs t c u _ ih hu
  cases step_iff.mp hu with
  | register a _ =>
    simp only [logOp_counter, enrolled_counter, UInt8.toNat_add, UInt8.reduceToNat, ih, List.countP_append,
      List.countP_singleton, Call.bumps]
    simp; omega
  | upload a u _ => simpa [Call.bumps, State.uploaded] using ih
  | cancel a _ => simpa [Call.bumps, State.cancelled] using ih
  | period p => simpa [Call.bumps] using ih
  | modify size list _ _ _ =>
    simp only [logOp_counter, marked_counter, UInt8.toNat_add, UInt8.reduceToNat, ih, List.countP_append,
      List.countP_singleton, Call.bumps]
    simp; omega

/-! ## The registry -/

structure Registry (s : State) : Prop where
  pos : s.relayIndex ≠ 0
  addr : ∀ a, s.relayaddr a ≠ 0 → (s.relayOf a).registered = true
  inj : ∀ a b, s.relayaddr a ≠ 0 → s.relayaddr a = s.relayaddr b → a = b
  owned : ∀ i, (s.relay i).registered = true → ∃ a, s.relayaddr a = i
  range : ∀ i, (s.relay i).registered = true → i ≠ 0 ∧ i < s.relayIndex
  health : ∀ i, (s.relay i).healthflag = true ↔ (s.relay i).registered = true ∧ i ∉ s.unhealthyRelaySet
  deny : ∀ i ∈ s.unhealthyRelaySet, i ≠ 0 ∧ i < s.relayIndex
  nodup : s.unhealthyRelaySet.Nodup
  blank : ∀ i, (s.relay i).registered = false → s.relay i = {}

theorem Registry.registered_iff (hs : Registry s) (a : Address) :
    (s.relayOf a).registered = true ↔ s.relayaddr a ≠ 0 :=
  ⟨fun h => (hs.range _ h).1, hs.addr a⟩

theorem Registry.fresh (hs : Registry s) : (s.relay s.relayIndex).registered = false := by
  by_contra h
  exact absurd (hs.range _ (by simpa using h)).2 (UInt16.lt_irrefl _)

theorem registry_deploy (o : Address) : Registry (deploy o) := by
  constructor <;> simp [deploy, State.relayOf]

section

variable (hs : Registry s)
include hs

theorem registry_enrolled (hn : s.relayIndex.toNat < 65535) (ha : (s.relayOf a).registered = false) :
    Registry (s.enrolled a) := by
  have ha0 : s.relayaddr a = 0 := by
    by_contra h
    simp [hs.addr a h] at ha
  have hlt : ∀ {i}, i ≤ s.relayIndex → i < s.relayIndex + 1 := by
    intro i hi
    rw [UInt16.lt_iff_toNat_lt, toNat_succ16 hn]
    exact Nat.lt_succ_of_le (UInt16.le_iff_toNat_le.mp hi)
  have hfresh := hs.fresh
  refine ⟨?_, ?_, ?_, ?_, ?_, ?_, ?_, hs.nodup, ?_⟩
  · intro h
    have := congrArg UInt16.toNat h
    simp [toNat_succ16 hn] at this
  · intro b hb
    by_cases e : s.relayaddr b = s.relayIndex
    · by_cases eb : b = a <;> simp [State.relayOf, State.enrolled, eb, e]
    · by_cases eb : b = a
      · simp [State.relayOf, State.enrolled, eb]
      · simp only [State.enrolled, update_of_ne eb] at hb
        simpa [State.relayOf, State.enrolled, eb, e] using hs.addr b hb
  · intro b c hb hbc
    have hold : ∀ d, s.relayaddr d ≠ s.relayIndex := by
      intro d hd
      have := hs.addr d (hd ▸ hs.pos)
      simp [State.relayOf, hd, hfresh] at this
    by_cases eb : b = a <;> by_cases ec : c = a
    · rw [eb, ec]
    · simp only [State.enrolled, eb, update_self, update_of_ne ec] at hbc
      exact absurd hbc.symm (hold c)
    · simp only [State.enrolled, ec, update_self, update_of_ne eb] at hbc
      exact absurd hbc (hold b)
    · simp only [State.enrolled, update_of_ne eb, update_of_ne ec] at hb hbc
      exact hs.inj b c hb hbc
  · intro i hi
    by_cases e : i = s.relayIndex
    · exact ⟨a, by simp [State.enrolled, e]⟩
    · simp only [State.enrolled, update_of_ne e] at hi
      obtain ⟨b, hb⟩ := hs.owned i hi
      refine ⟨b, ?_⟩
      have hba : b ≠ a := by
        rintro rfl
        exact (hs.range i hi).1 (hb.symm.trans ha0)
      simpa [State.enrolled, hba] using hb
  · intro i hi
    by_cases e : i = s.relayIndex
    · exact ⟨e ▸ hs.pos, hlt (UInt16.le_of_eq e)⟩
    · simp only [State.enrolled, update_of_ne e] at hi
      exact ⟨(hs.range i hi).1, hlt (UInt16.le_of_lt (hs.range i hi).2)⟩
  · intro i
    by_cases e : i = s.relayIndex
    · have : i ∉ s.unhealthyRelaySet := fun h => absurd (hs.deny i h).2 (by simp [e])
      simpa [State.enrolled, e] using e ▸ this
    · simpa [State.enrolled, e] using hs.health i
  · intro i hi
    exact ⟨(hs.deny i hi).1, hlt (UInt16.le_of_lt (hs.deny i hi).2)⟩
  · intro i hi
    by_cases e : i = s.relayIndex
    · simp [State.enrolled, e] at hi
    · simpa [State.enrolled, e] using hs.blank i (by simpa [State.enrolled, e] using hi)

theorem registry_uploaded (ha : (s.relayOf a).healthflag = true) (u : Upload) : Registry (s.uploaded a u) := by
  have hreg : ∀ i, ((s.uploaded a u).relay i).registered = (s.relay i).registered := by
    intro i
    by_cases e : i = s.relayaddr a <;> simp [State.uploaded, State.relayOf, Relay.store, e]
  have hhf : ∀ i, ((s.uploaded a u).relay i).healthflag = (s.relay i).healthflag := by
    intro i
    by_cases e : i = s.relayaddr a <;> simp [State.uploaded, State.relayOf, Relay.store, e]
  refine ⟨hs.pos, fun b hb => ?_, hs.inj, fun i hi => hs.owned i (hreg i ▸ hi), fun i hi => hs.range i (hreg i ▸ hi),
    fun i => ?_, hs.deny, hs.nodup, fun i hi => ?_⟩
  · exact (hreg _).trans (hs.addr b hb)
  · rw [hreg, hhf]; exact hs.health i
  · have hne : i ≠ s.relayaddr a := by
      rintro rfl
      have := (hs.health _).mp ha
      rw [hreg, this.1] at hi
      cases hi
    simpa [State.uploaded, hne] using hs.blank i (hreg i ▸ hi)

theorem registry_cancelled (ha : (s.relayOf a).registered = true) : Registry (s.cancelled a) := by
  have ha0 : s.relayaddr a ≠ 0 := (hs.registered_iff a).mp ha
  have hne : ∀ b, b ≠ a → s.relayaddr b ≠ s.relayaddr a :=
    fun b hb h => hb (hs.inj a b ha0 h.symm).symm
  refine ⟨hs.pos, ?_, ?_, ?_, ?_, ?_, hs.deny, hs.nodup, ?_⟩
  · intro b hb
    by_cases e : b = a
    · simp [State.cancelled, e] at hb
    · simp only [State.cancelled, update_of_ne e] at hb
      simpa [State.relayOf, State.cancelled, e, hne b e] using hs.addr b hb
  · intro b c hb hbc
    by_cases eb : b = a
    · simp [State.cancelled, eb] at hb
    · by_cases ec : c = a
      · simp only [State.cancelled, ec, update_self, update_of_ne eb] at hb hbc
        exact absurd hbc hb
      · simp only [State.cancelled, update_of_ne eb, update_of_ne ec] at hb hbc
        exact hs.inj b c hb hbc
  · intro i hi
    by_cases e : i = s.relayaddr a
    · simp [State.cancelled, e] at hi
    · simp only [State.cancelled, update_of_ne e] at hi
      obtain ⟨b, hb⟩ := hs.owned i hi
      have hba : b ≠ a := by rintro rfl; exact e hb.symm
      exact ⟨b, by simpa [State.cancelled, hba] using hb⟩
  · intro i hi
    by_cases e : i = s.relayaddr a
    · simp [State.cancelled, e] at hi
    · exact hs.range i (by simpa [State.cancelled, e] using hi)
  · intro i
    by_cases e : i = s.relayaddr a
    · simp [State.cancelled, e]
    · simpa [State.cancelled, e] using hs.health i
  · intro i hi
    by_cases e : i = s.relayaddr a
    · simp [State.cancelled, e]
    · simpa [State.cancelled, e] using hs.blank i (by simpa [State.cancelled, e] using hi)

theorem registry_marked {xs : List UInt16} (hn : xs.Nodup) (hx : ∀ x ∈ xs, (s.relay x).healthflag = true) :
    Registry (s.marked xs) := by
  have hreg := marked_registered s xs
  refine ⟨hs.pos, fun a ha => ?_, hs.inj, fun i hi => hs.owned i (hreg i ▸ hi), fun i hi => hs.range i (hreg i ▸ hi),
    fun i => ?_, fun i hi => ?_, ?_, fun i hi => ?_⟩
  · simpa [State.relayOf] using hs.addr a ha
  · rw [marked_healthflag, hs.health, hreg]
    simp [and_assoc]
  · rcases List.mem_append.mp hi with h | h
    · exact hs.deny i h
    · exact hs.range i ((hs.health i).mp (hx i h)).1
  · refine hs.nodup.append hn fun i hi hxi => ?_
    exact ((hs.health i).mp (hx i hxi)).2 hi
  · have hi' : (s.relay i).registered = false := hreg i ▸ hi
    have hne : i ∉ xs := by
      intro h
      rw [((hs.health i).mp (hx i h)).1] at hi'
      cases hi'
    simpa [State.marked, hne] using hs.blank i hi'

theorem registry_logOp (op : Bool) (l : List UInt16) : Registry (s.logOp op l) :=
  ⟨hs.pos, hs.addr, hs.inj, hs.owned, hs.range, hs.health, hs.deny, hs.nodup, hs.blank⟩

theorem registry_step (hn : c.registers = true → s.relayIndex.toNat < 65535) (h : step s c = some t) : Registry t := by
  cases step_iff.mp h with
  | register a ha => exact registry_logOp (registry_enrolled hs (hn rfl) ha) _ _
  | upload a u ha => exact registry_uploaded hs ha u
  | cancel a ha => exact registry_cancelled hs ha
  | period p => exact ⟨hs.pos, hs.addr, hs.inj, hs.owned, hs.range, hs.health, hs.deny, hs.nodup, hs.blank⟩
  | modify size list _ hnd hx => exact registry_logOp (registry_marked hs hnd hx) _ _

end

/-- An index that was handed out and is not registered stays so. -/
theorem unregistered_step {i : UInt16} (hn : c.registers = true → s.relayIndex.toNat < 65535)
    (hlt : i < s.relayIndex) (hr : (s.relay i).registered = false) (h : step s c = some t) :
    (t.relay i).registered = false ∧ i < t.relayIndex := by
  cases step_iff.mp h with
  | register a _ =>
    have hne : i ≠ s.relayIndex := fun e => UInt16.lt_irrefl _ (e ▸ hlt)
    refine ⟨by simpa [State.enrolled, hne] using hr, ?_⟩
    rw [logOp_relayIndex, enrolled_relayIndex, UInt16.lt_iff_toNat_lt, toNat_succ16 (hn rfl)]
    have := UInt16.lt_iff_toNat_lt.mp hlt
    omega
  | upload a u _ =>
    refine ⟨?_, hlt⟩
    by_cases e : i = s.relayaddr a
    · subst e
      simpa [State.uploaded, Relay.store, State.relayOf] using hr
    · simpa [State.uploaded, e] using hr
  | cancel a _ =>
    refine ⟨?_, hlt⟩
    by_cases e : i = s.relayaddr a
    · simp [State.cancelled, e]
    · simpa [State.cancelled, e] using hr
  | period p => exact ⟨hr, hlt⟩
  | modify size list _ _ _ => exact ⟨by simpa using hr, hlt⟩

theorem registry_run (h : run step (deploy o) cs = some s)
    (hn : cs.countP Call.registers < 65535) : Registry s := by
  refine run_inv_hist (I := fun cs s => cs.countP Call.registers < 65535 → Registry s) (fun _ => registry_deploy o) ?_ h hn
  intro cs t c u ht ih hu hc
  have hidx := relayIndex_lt ht hc
  rw [List.countP_append] at hc
  exact registry_step (ih (by omega)) hidx hu

/-! ## Ownership of the stored data -/

def noteUpload (a : Address) (u : Upload) (c : Call) : Upload :=
  if c.sender = a then
    match c.tx with
    | .relayRegister => {}
    | .relayUploadSRIAndNSD v => v
    | _ => u
  else u

/-- The last upload `a` made since it last registered, blank when there is none; the
    calls of other senders do not count. -/
def lastUpload (a : Address) (cs : List Call) : Upload := cs.foldl (noteUpload a) {}

/-- A call of another sender neither moves a registered relay nor touches its data. -/
theorem other_sender_keeps (hs : Registry s) (ha : s.relayaddr a ≠ 0) (hc : c.sender ≠ a) (h : step s c = some t) :
    t.relayaddr a = s.relayaddr a ∧ (t.relayOf a).stored = (s.relayOf a).stored := by
  have hreg := hs.addr a ha
  cases step_iff.mp h with
  | register b _ =>
    have hne : s.relayaddr a ≠ s.relayIndex := by
      intro e
      have := hs.fresh
      rw [← e] at this
      simp [State.relayOf, this] at hreg
    simp [State.relayOf, State.enrolled, Ne.symm hc, hne]
  | upload b u _ =>
    have hne : s.relayaddr a ≠ s.relayaddr b := fun e => hc (hs.inj a b ha e).symm
    simp [State.relayOf, State.uploaded, hne]
  | cancel b _ =>
    have hne : s.relayaddr a ≠ s.relayaddr b := fun e => hc (hs.inj a b ha e).symm
    simp [State.relayOf, State.cancelled, Ne.symm hc, hne]
  | period p => exact ⟨rfl, rfl⟩
  | modify size list _ _ _ => simp [State.relayOf]

theorem stored_step {u : Upload} (hs : Registry s)
    (hu : s.relayaddr a ≠ 0 → (s.relayOf a).stored = u) (h : step s c = some t) (ha : t.relayaddr a ≠ 0) :
    (t.relayOf a).stored = noteUpload a u c := by
  by_cases hc : c.sender = a
  · cases step_iff.mp h with
    | register b _ =>
      subst hc
      simp [State.relayOf, State.enrolled, noteUpload, hs.blank _ hs.fresh, Relay.stored]
    | upload b v _ =>
      subst hc
      simp [State.relayOf, State.uploaded, noteUpload, Relay.store, Relay.stored]
    | cancel b _ =>
      subst hc
      simp [State.cancelled] at ha
    | period p | modify size list _ _ _ => simpa [noteUpload, hc, State.relayOf] using hu ha
  · simp only [noteUpload, hc, if_false]
    have h0 : s.relayaddr a ≠ 0 := by
      intro h0
      cases step_iff.mp h with
      | register b _ => exact ha (by simpa [State.enrolled, Ne.symm hc] using h0)
      | upload b v _ => exact ha h0
      | cancel b _ => exact ha (by simpa [State.cancelled, Ne.symm hc] using h0)
      | period p | modify size list _ _ _ => exact ha h0
    rw [(other_sender_keeps hs h0 hc h).2, hu h0]

theorem stored_eq_lastUpload (h : run step (deploy o) cs = some s)
    (hn : cs.countP Call.registers < 65535) (a : Address) (ha : s.relayaddr a ≠ 0) :
    (s.relayOf a).stored = lastUpload a cs := by
  refine run_inv_hist (I := fun cs s => cs.countP Call.registers < 65535 →
    s.relayaddr a ≠ 0 → (s.relayOf a).stored = lastUpload a cs) (fun _ h => absurd rfl h) ?_ h hn ha
  intro cs t c u ht ih hu hc ha
  have hcs : cs.countP Call.registers < 65535 := by rw [List.countP_append] at hc; omega
  rw [lastUpload, List.foldl_append, List.foldl_cons, List.foldl_nil, ← lastUpload]
  exact stored_step (registry_run ht hcs) (ih hcs) hu ha

/-- In every state that fewer than 65535 registrations lead to: no two addresses share an index, each is in `[1,
relayIndex)`, a relay is healthy exactly if it is registered and not denied, and what is stored for it is its owner's
last upload. -/
theorem registry_ownership (o : Address) (cs : List Call) (s : State) (h : run step (deploy o) cs = some s)
    (hn : cs.countP Call.registers < 65535) :
    (∀ a b, s.relayaddr a ≠ 0 → s.relayaddr a = s.relayaddr b → a = b) ∧
    (∀ i, (s.relay i).registered = true → (∃! a, s.relayaddr a = i) ∧ 1 ≤ i.toNat ∧ i < s.relayIndex) ∧
    (∀ i, (s.relay i).healthflag = true ↔ (s.relay i).registered = true ∧ i ∉ s.unhealthyRelaySet) ∧
    s.unhealthyRelaySet.Nodup ∧
    (∀ i a, (s.relay i).registered = true → s.relayaddr a = i →
      (s.relay i).stored = lastUpload a cs ∧
      ∀ c t, c.sender ≠ a → step s c = some t → (t.relay i).stored = (s.relay i).stored) := by
  have hs := registry_run h hn
  have hpos : ∀ i, (s.relay i).registered = true → i ≠ 0 := fun i hi => (hs.range i hi).1
  refine ⟨hs.inj, fun i hi => ⟨?_, ?_, (hs.range i hi).2⟩, hs.health, hs.nodup, ?_⟩
  · obtain ⟨a, rfl⟩ := hs.owned i hi
    exact ⟨a, rfl, fun b hb => (hs.inj a b (hpos _ hi) hb.symm).symm⟩
  · have : i.toNat ≠ 0 := fun e => hpos i hi (UInt16.toNat_inj.mp e)
    omega
  · rintro i a hi rfl
    refine ⟨stored_eq_lastUpload h hn a (hpos _ hi), fun c t hc ht => ?_⟩
    obtain ⟨h1, h2⟩ := other_sender_keeps hs (hpos _ hi) hc ht
    rwa [State.relayOf, h1] at h2

/-- Address 1 registers and uploads, address 2 registers and is marked by the owner. -/
theorem registry_ownership_two_relays :
    let cs : List Call := [⟨1, .relayRegister⟩, ⟨2, .relayRegister⟩, ⟨1, .relayUploadSRIAndNSD ⟨3, [7], [8], [9]⟩⟩,
      ⟨0, .modifyHealthFlag 1 [2]⟩]
    ∃ s, run step (deploy 0) cs = some s ∧ (s.relay 1).stored = ⟨3, [7], [8], [9]⟩ ∧ s.unhealthyRelaySet.Nodup ∧
      (s.relay 2).registered = true ∧ ¬ (s.relay 2).healthflag = true := by
  intro cs
  refine ⟨_, rfl, ?_⟩
  obtain ⟨-, -, hhealth, hnd, hstored⟩ := registry_ownership 0 cs _ rfl (by decide)
  exact ⟨(hstored 1 1 rfl rfl).1, hnd, rfl, fun h => ((hhealth 2).mp h).2 (by decide)⟩

end Badnet.Directory
