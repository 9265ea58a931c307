/-
  Badnet.Directory.Registration — what a relay knows of its registration (`feature/relay/router.c`).

  `router_rebuild_descriptor(1, 1)` registers the relay on its first call: it asks the contract for the index of the
  wallet, and if there is none sends the transaction and asks once more. Whatever comes of that, the relay is noted as
  registered. An exception of Python makes `PyLong_AsLong` return -1. So the relay knows its index exactly if the last
  check is answered with one (`relay_knows_index_iff`).
-/

import Badnet.Lib.Run

namespace Badnet.Directory.Registration

open Lib

/-- The static variables of `router.c`, and all that `relayRegistrationCheck` has answered. -/
structure Statics where
  pythonIsInitialized : Bool := false
  relayIsRegistered : Bool := false
  myIndex : Int := 0
  answers : List UInt16 := []

/-- What starting Python and loading the module of the relay comes to. -/
structure Loading where
  /-- `Py_IsInitialized` after `Py_Initialize` -/
  initialized : Bool
  /-- `PyImport_ImportModule` and `PyModule_GetDict` -/
  pModule : Bool
  pDict : Bool

/-- What is outside of `router.c` in one call of `router_rebuild_descriptor`. -/
structure Round where
  /-- `router_build_fresh_descriptor(&ri, &ei) >= 0` -/
  built : Bool
  registration : Loading
  /-- the first `relayRegistrationCheck`; `none` is an exception -/
  check : Option UInt16
  /-- the one after the transaction, of which nobody looks at the outcome -/
  checkAgain : Option UInt16
  download : Loading
  upload : Loading
  /-- `relayGetSet` gave the upload a list -/
  recipients : Bool

/-- The beginning of the three functions that call Python: whether they go on, or return 0. -/
def loadRelayModule (l : Loading) (s : Statics) : Statics × Bool :=
  if s.pythonIsInitialized = false ∧ l.initialized = false then (s, false)
  else ({ s with pythonIsInitialized := true }, l.pModule && l.pDict)

def pyLongAsLong : Option UInt16 → Int
  | none => -1
  | some v => v.toNat

/-- A call of `relayRegistrationCheck`. -/
def relayRegistrationCheck (answer : Option UInt16) (s : Statics) : Statics × Int :=
  ({ s with answers := s.answers ++ answer.toList }, pyLongAsLong answer)

variable (r : Round) (s : Statics)

/-- The part of `relay_register` after the module is loaded. -/
def registerOrCheck : Statics :=
  let (s, index) := relayRegistrationCheck r.check s
  let s :=
    if index = 0 then
      let (s, again) := relayRegistrationCheck r.checkAgain s
      { s with myIndex := again }
    else { s with myIndex := index }
  { s with relayIsRegistered := true }

/-- `relay_register`, with whether it returns 1. -/
def relayRegister : Statics × Bool :=
  match loadRelayModule r.registration s with
  | (s, false) => (s, false)
  | (s, true) => (registerOrCheck r s, true)

/-- `router_download_descriptor_from_blockchain`: what it downloads is in no static variable. -/
def routerDownloadDescriptorFromBlockchain : Statics × Bool := loadRelayModule r.download s

def routerUploadDescriptorToBlockchain : Statics × Bool :=
  match loadRelayModule r.upload s with
  | (s, false) => (s, false)
  | (s, true) => (s, r.recipients)

/-- What comes after the registration. -/
def downloadAndUpload : Statics × Bool :=
  match routerDownloadDescriptorFromBlockchain r s with
  | (s, false) => (s, false)
  | (s, true) => routerUploadDescriptorToBlockchain r s

/-- `router_rebuild_descriptor(1, 1)` -/
def routerRebuildDescriptor (r : Round) : Statics × Bool :=
  if r.built = false then (s, false)
  else if s.relayIsRegistered then downloadAndUpload r s
  else
    match relayRegister r s with
    | (s, false) => (s, false)
    | (s, true) => downloadAndUpload r s

def step (r : Round) : Option Statics := some (routerRebuildDescriptor s r).1

/-- A relay that is noted as registered has an index, and was given it by the contract. -/
def KnowsIndex : Prop :=
  s.relayIsRegistered = true → ∃ v ∈ s.answers, v ≠ 0 ∧ s.myIndex = v.toNat

/-- The check that decides: the second one if there is one. -/
def Round.lastCheck : Option UInt16 := if r.check = some 0 then r.checkAgain else r.check

/-- A call that comes to the registration is answered with an index. -/
def GivenIndex (r : Round) : Prop :=
  r.built = true → s.relayIsRegistered = false → (loadRelayModule r.registration s).2 = true →
    ∃ v, r.lastCheck = some v ∧ v ≠ 0

/-! ## One call -/

/-- The variables of the registration. -/
def SameRegistration (t : Statics) : Prop :=
  t.relayIsRegistered = s.relayIsRegistered ∧ t.myIndex = s.myIndex ∧ t.answers = s.answers

theorem SameRegistration.trans {s t u : Statics} (h1 : SameRegistration s t) (h2 : SameRegistration t u) :
    SameRegistration s u := ⟨h2.1.trans h1.1, h2.2.1.trans h1.2.1, h2.2.2.trans h1.2.2⟩

theorem SameRegistration.knowsIndex {s t : Statics} (h : SameRegistration s t) : KnowsIndex t ↔ KnowsIndex s := by
  rw [KnowsIndex, KnowsIndex, h.1, h.2.1, h.2.2]

theorem loadRelayModule_same (l : Loading) (s : Statics) : SameRegistration s (loadRelayModule l s).1 := by
  rw [loadRelayModule]
  split <;> exact ⟨rfl, rfl, rfl⟩

theorem downloadAndUpload_same : SameRegistration s (downloadAndUpload r s).1 := by
  have hdownload := loadRelayModule_same r.download s
  rw [downloadAndUpload, routerDownloadDescriptorFromBlockchain]
  rcases hd : loadRelayModule r.download s with ⟨t, loaded⟩
  rw [hd] at hdownload
  cases loaded with
  | false => exact hdownload
  | true =>
    have hupload := loadRelayModule_same r.upload t
    simp only [routerUploadDescriptorToBlockchain]
    rcases hu : loadRelayModule r.upload t with ⟨u, loaded⟩
    rw [hu] at hupload
    cases loaded <;> exact hdownload.trans hupload

theorem pyLongAsLong_eq_zero {answer : Option UInt16} : pyLongAsLong answer = 0 ↔ answer = some 0 := by
  rcases answer with _ | v
  · simp [pyLongAsLong]
  · rw [pyLongAsLong, Option.some.injEq, ← UInt16.toNat_inj]
    simp

/-- What the registration leaves. -/
theorem registerOrCheck_eq :
    (registerOrCheck r s).relayIsRegistered = true ∧ (registerOrCheck r s).myIndex = pyLongAsLong r.lastCheck ∧
      ∀ v, r.lastCheck = some v → v ∈ (registerOrCheck r s).answers := by
  refine ⟨rfl, ?_⟩
  rw [registerOrCheck, Round.lastCheck]
  simp only [relayRegistrationCheck, pyLongAsLong_eq_zero]
  split
  · refine ⟨rfl, fun v hv => ?_⟩
    simp [hv]
  · refine ⟨rfl, fun v hv => ?_⟩
    simp [hv]

theorem registerOrCheck_knowsIndex : KnowsIndex (registerOrCheck r s) ↔ ∃ v, r.lastCheck = some v ∧ v ≠ 0 := by
  obtain ⟨hregistered, hindex, hanswers⟩ := registerOrCheck_eq r s
  rw [KnowsIndex, hindex]
  constructor
  · intro h
    obtain ⟨v, -, hne, hv⟩ := h hregistered
    rcases hlast : r.lastCheck with _ | w <;> rw [hlast] at hv
    · -- -1 is no index
      simp only [pyLongAsLong] at hv
      omega
    · exact ⟨w, rfl, fun h0 => hne (UInt16.toNat_inj.mp (by rw [← Int.ofNat_inj.mp hv, h0]))⟩
  · rintro ⟨v, hv, hne⟩ -
    exact ⟨v, hanswers v hv, hne, by rw [hv]; rfl⟩

/-- A call keeps the relay in the know exactly if it is given an index where it asks for one. -/
theorem step_knowsIndex {s t : Statics} {r : Round} (hs : KnowsIndex s) (h : step s r = some t) :
    KnowsIndex t ↔ GivenIndex s r := by
  cases h
  rw [routerRebuildDescriptor]
  by_cases hbuilt : r.built = false
  · rw [if_pos hbuilt]
    exact iff_of_true hs fun hb => by rw [hbuilt] at hb; cases hb
  rw [if_neg hbuilt]
  by_cases hregistered : s.relayIsRegistered = true
  · rw [if_pos hregistered, (downloadAndUpload_same r s).knowsIndex]
    exact iff_of_true hs fun _ hr => by rw [hregistered] at hr; cases hr
  rw [if_neg hregistered, relayRegister, GivenIndex]
  have hload := loadRelayModule_same r.registration s
  rcases hl : loadRelayModule r.registration s with ⟨u, loaded⟩
  rw [hl] at hload
  cases loaded with
  | false => exact iff_of_true (hload.knowsIndex.mpr hs) nofun
  | true =>
    rw [(downloadAndUpload_same r _).knowsIndex, registerOrCheck_knowsIndex]
    constructor
    · intro hv _ _ _
      exact hv
    · intro hv
      exact hv ((Bool.not_eq_false _).mp hbuilt) ((Bool.not_eq_true _).mp hregistered) rfl

/-! ## Runs -/

theorem run_some (rs : List Round) (s : Statics) : ∃ t, run step s rs = some t := by
  induction rs generalizing s with
  | nil => exact ⟨s, rfl⟩
  | cons r rs ih => exact ih (routerRebuildDescriptor s r).1

/-- In every state of a run the relay knows its index if it is noted as registered, exactly if every call that comes to
    the registration is given one. -/
theorem relay_knows_index_iff (rs : List Round) : AllStates step KnowsIndex {} rs ↔ AllSteps step GivenIndex {} rs := by
  obtain ⟨t, ht⟩ := run_some rs {}
  refine allStates_iff_allSteps (fun h => by cases h) ht fun _ r s u _ _ hs hu => ?_
  exact step_knowsIndex hs hu

def loads : Loading := ⟨true, true, true⟩

/-- The wallet has no index, and the transaction fails. -/
def failedTransaction : Round := ⟨true, loads, some 0, some 0, loads, loads, true⟩

/-- The next call does not ask again, although the contract would answer. -/
theorem a_failed_transaction_leaves_index_zero :
    ¬ ∀ rs t, run step {} rs = some t → t.relayIsRegistered = true →
      ∃ v ∈ t.answers, v ≠ 0 ∧ t.myIndex = v.toNat := by
  intro hall
  obtain ⟨v, hv, hne, -⟩ := hall [failedTransaction, ⟨true, loads, some 7, none, loads, loads, true⟩] _ rfl rfl
  have hzero : ∀ v ∈ ([0, 0] : List UInt16), v = 0 := by simp
  exact hne (hzero v hv)

end Badnet.Directory.Registration
