/-
  Badnet.Client.ReverseMap — the reverse map of virtual addresses over runs of the calls that change the two maps.

  Documented is that what the reverse map has under an address is mapped to that address. A mapping that goes is taken
  out of the reverse map only where its target is itself a virtual address, and compared with all three addresses of the
  reverse entry, be they there or not (`Fits`).

  In a run whose calls fit, every state is as documented, no call reads a string that is not there, and one that returns
  no virtual address changes no reverse entry (`virtual_address_books_kept`).
-/

import Badnet.Client.VirtualAddress
import Badnet.Lib.Run

namespace Badnet.Client

open Encoding Net Lib

/-! ## The invariant -/

/-- One of the three addresses. -/
def VirtaddressEntry.Lists (ve : VirtaddressEntry) (b : Text) : Prop := ∃ type, ve.addrp type = some b

/-- The reverse map maps `a` to `b`. -/
def MapsBack (rev : VirtaddressReversemap) (a b : Text) : Prop := ∃ ve, rev a = some (.live ve) ∧ ve.Lists b

/-- "if [A,B] is in virtaddress_reversemap, then [...] [A,B] must be in addressmap"; and the map points to no entry that
    was freed. -/
structure Documented (s : AddressMaps) : Prop where
  there : ∀ a, s.virtaddressReversemap a ≠ some .freed
  mapped : ∀ a b, MapsBack s.virtaddressReversemap a b → ∃ ent, s.addressmap b = some ent ∧ ent.newAddress = some a

/-- The call reads no string that is not there, and leaves the reverse entries as they are if it is for a virtual address
    and returns none. -/
structure GoodCall (s : AddressMaps) (call : Call) : Prop where
  reads : perform s call ≠ .error .badRead
  intact : ∀ type newAddress draws s', call.op = .registerVirtualAddress type newAddress draws →
    perform s call = .ok (none, s') →
    ∀ a cell, s.virtaddressReversemap a = some cell → s'.virtaddressReversemap a = some cell

/-- Every state of the run is as documented, and every call of it is good. -/
def BooksKept (calls : List Call) : Prop :=
  AllStates nextMaps Documented addressmapInit calls ∧ AllSteps nextMaps GoodCall addressmapInit calls

theorem documented_init : Documented addressmapInit := by
  refine ⟨(fun a h => by cases h), ?_⟩
  rintro a b ⟨ve, h, -⟩
  cases h

/-! ## The condition -/

/-- All three addresses are there to be compared. -/
def VirtaddressEntry.Full (ve : VirtaddressEntry) : Prop :=
  ve.ipv4Address.isSome ∧ ve.ipv6Address.isSome ∧ ve.hostnameAddress.isSome

variable (conf : VirtaddrConf) (s : AddressMaps)

/-- The mapping of `address` goes, or becomes one to `after`. The reverse entry of a virtual target can be cleaned;
that of another target must not have the address. -/
def ReleaseFits (keyFreed : Bool) (address : Text) (ent : AddressmapEntry) (after : Option Text) : Prop :=
  ∀ target, ent.newAddress = some target →
    if addressIsInVirtualRange conf target then
      ∀ ve, s.virtaddressReversemap target = some (.live ve) → keyFreed = false ∧ ve.Full
    else MapsBack s.virtaddressReversemap target address → after = some target

/-- `addressmap_register` is to remove the mapping. -/
def Unregisters (address : Text) (newAddress : Option Text) (wildcardAddr wildcardNewAddr : Int) : Prop :=
  ∀ a, newAddress = some a → sameCase address a ∧ wildcardAddr = wildcardNewAddr

def RegisterFits (address : Text) (newAddress : Option Text) (expires : Int) (wildcardAddr wildcardNewAddr : Int) :
    Prop :=
  (wildcardNewAddr ≠ 0 → wildcardAddr ≠ 0) → ∀ ent, s.addressmap address = some ent →
    (Unregisters address newAddress wildcardAddr wildcardNewAddr → ReleaseFits conf s false address ent none) ∧
    (¬ Unregisters address newAddress wildcardAddr wildcardNewAddr → expires ≤ 1 →
      ReleaseFits conf s false address ent newAddress)

/-- When an address must be drawn: one is, and it is another than that it stands for, or there is no reverse entry. -/
def AssignFits (type : Int) (newAddress : Text) (draws : List (Nat → UInt8)) : Prop :=
  (∀ ve, s.virtaddressReversemap newAddress = some (.live ve) → ve.addrp type = none) →
    (addressmapGetVirtualAddress conf s.addressmap type draws = .ok none → s.virtaddressReversemap newAddress = none) ∧
    ∀ addr, addressmapGetVirtualAddress conf s.addressmap type draws = .ok (some addr) → sameCase addr newAddress = false

/-- The loop takes the mapping of `key` to `target` out. -/
def Removes (removeThis : Text → AddressmapEntry → Except Stop Bool) (s : AddressMaps) (key target : Text) : Prop :=
  ∃ ent, s.addressmap key = some ent ∧ removeThis key ent = .ok true ∧ ent.newAddress = some target

/-- Each removal fits, and none makes a reverse entry incomplete that a later one needs. -/
structure LoopFits (conf : VirtaddrConf) (removeThis : Text → AddressmapEntry → Except Stop Bool) (keyFreed : Bool)
    (keys : List Text) (s : AddressMaps) : Prop where
  each : ∀ key ∈ keys, ∀ ent, s.addressmap key = some ent → removeThis key ent = .ok true →
    ReleaseFits conf s keyFreed key ent none
  apart : keys.Pairwise fun key later => key ≠ later → ∀ target, Removes removeThis s key target →
    Removes removeThis s later target → addressIsInVirtualRange conf target = true →
    ¬ MapsBack s.virtaddressReversemap target key

def Fits (call : Call) : Prop :=
  match call.op with
  | .register address newAddress expires _ wildcardAddr wildcardNewAddr =>
    RegisterFits call.conf s address newAddress expires wildcardAddr wildcardNewAddr
  | .registerVirtualAddress type newAddress draws => AssignFits call.conf s type newAddress draws
  | .clean now keys => LoopFits call.conf (expiresWithin 2 now) true keys s
  | .clearConfigured keys => LoopFits call.conf (expiresWithin 0 0) true keys s
  | .clearTransient keys => LoopFits call.conf (expiresWithin 2 TIME_MAX) true keys s
  | .clearInvalidAutomaps options keys => LoopFits call.conf (invalidAutomap call.conf options) false keys s

/-! ## A reverse entry -/

section
variable {ve ve' : VirtaddressEntry} {b x : Text} {type : Int}

theorem VirtaddressEntry.lists_iff :
    ve.Lists b ↔ ve.ipv4Address = some b ∨ ve.ipv6Address = some b ∨ ve.hostnameAddress = some b := by
  constructor
  · rintro ⟨type, h⟩
    unfold VirtaddressEntry.addrp at h
    split at h
    · exact .inl h
    · split at h
      · exact .inr (.inl h)
      · exact .inr (.inr h)
  · rintro (h | h | h)
    · exact ⟨RESOLVED_TYPE_IPV4, h⟩
    · exact ⟨RESOLVED_TYPE_IPV6, h⟩
    · exact ⟨RESOLVED_TYPE_HOSTNAME, h⟩

theorem VirtaddressEntry.lists_setAddrp (h : (ve.setAddrp type x).Lists b) : b = x ∨ ve.Lists b := by
  rw [lists_iff] at h ⊢
  unfold VirtaddressEntry.setAddrp at h
  split at h
  · rcases h with h | h | h
    · exact .inl (Option.some.inj h).symm
    · exact .inr (.inr (.inl h))
    · exact .inr (.inr (.inr h))
  · split at h
    · rcases h with h | h | h
      · exact .inr (.inl h)
      · exact .inl (Option.some.inj h).symm
      · exact .inr (.inr (.inr h))
    · rcases h with h | h | h
      · exact .inr (.inl h)
      · exact .inr (.inr (.inl h))
      · exact .inl (Option.some.inj h).symm

theorem not_lists_empty : ¬ (VirtaddressEntry.mk none none none).Lists b := by
  simp [VirtaddressEntry.lists_iff]

/-- The comparisons of a full entry take out the address and nothing else. -/
theorem VirtaddressEntry.without_full (h : ve.Full) (x : Text) :
    ∃ ve', ve.without (some x) = .ok ve' ∧ (∀ b, ve'.Lists b ↔ ve.Lists b ∧ b ≠ x) ∧ (¬ ve.Lists x → ve' = ve) := by
  obtain ⟨h4, h6, hn⟩ := h
  obtain ⟨a4, h4⟩ := Option.isSome_iff_exists.mp h4
  obtain ⟨a6, h6⟩ := Option.isSome_iff_exists.mp h6
  obtain ⟨an, hn⟩ := Option.isSome_iff_exists.mp hn
  have hfree : ∀ f : Text, freeIfSame (some x) (some f) = .ok (if x = f then none else some f) := fun f => rfl
  refine ⟨⟨if x = a4 then none else some a4, if x = a6 then none else some a6, if x = an then none else some an⟩,
    ?_, ?_, ?_⟩
  · unfold VirtaddressEntry.without
    rw [h4, h6, hn, hfree, hfree, hfree]
    rfl
  · intro b
    have hone : ∀ a : Text, ((if x = a then none else some a) = some b ↔ some a = some b ∧ b ≠ x) := by
      intro a
      by_cases hxa : x = a
      · simp only [hxa, if_true, Option.some.injEq]
        constructor
        · intro h
          cases h
        · rintro ⟨rfl, hne⟩
          exact absurd rfl hne
      · rw [if_neg hxa]
        constructor
        · intro h
          cases h
          exact ⟨rfl, Ne.symm hxa⟩
        · exact fun h => h.1
    rw [lists_iff, lists_iff, h4, h6, hn, hone, hone, hone, or_and_right, or_and_right]
  · intro hno
    rw [lists_iff, h4, h6, hn] at hno
    have hne : ∀ a, x = a → some a = some x := fun a h => congrArg some h.symm
    rw [if_neg fun h => hno (.inl (hne a4 h)), if_neg fun h => hno (.inr (.inl (hne a6 h))),
      if_neg fun h => hno (.inr (.inr (hne an h))), ← h4, ← h6, ← hn]

end

/-! ## Removing a virtual address from the reverse map -/

section
variable {conf : VirtaddrConf} {s : AddressMaps} {rev rev' : VirtaddressReversemap} {keyFreed : Bool} {address : Text}
  {ent : AddressmapEntry} {after : Option Text}

/-- What became of the reverse map when the mapping of `address` was released. -/
structure Released (conf : VirtaddrConf) (rev rev' : VirtaddressReversemap) (address : Text) (ent : AddressmapEntry) :
    Prop where
  there : ∀ a, rev' a ≠ some .freed
  back : ∀ a b, MapsBack rev' a b → MapsBack rev a b
  gone : ∀ target, ent.newAddress = some target → addressIsInVirtualRange conf target = true →
    ¬ MapsBack rev' target address
  others : ∀ a, ¬ (ent.newAddress = some a ∧ addressIsInVirtualRange conf a = true ∧ MapsBack rev a address) →
    rev' a = rev a

/-- Nothing changes where the reverse map does not have the address. -/
theorem Released.unchanged (hthere : ∀ a, rev a ≠ some .freed)
    (hno : ∀ target, ent.newAddress = some target → addressIsInVirtualRange conf target = true →
      ¬ MapsBack rev target address) :
    Released conf rev rev address ent :=
  ⟨hthere, fun _ _ h => h, hno, fun _ _ => rfl⟩

theorem Released.cleaned {target : Text} {ve ve' : VirtaddressEntry} (hthere : ∀ a, rev a ≠ some .freed)
    (htarget : ent.newAddress = some target) (hrange : addressIsInVirtualRange conf target = true)
    (hcell : rev target = some (.live ve)) (hlists : ∀ b, ve'.Lists b ↔ ve.Lists b ∧ b ≠ address)
    (hsame : ¬ ve.Lists address → ve' = ve) (hne : ve ≠ ⟨none, none, none⟩) :
    Released conf rev (Function.update rev target ve'.cell) address ent := by
  have hback : ∀ b, MapsBack (Function.update rev target ve'.cell) target b → ve'.Lists b := by
    rintro b ⟨w, hw, hb⟩
    rw [Function.update_self, VirtaddressEntry.cell] at hw
    split at hw
    · cases hw
    · cases hw
      exact hb
  refine ⟨fun a ha => ?_, fun a b hb => ?_, fun t ht _ hb => ?_, fun a ha => ?_⟩
  · by_cases hat : a = target
    · rw [hat, Function.update_self, VirtaddressEntry.cell] at ha
      split at ha <;> cases ha
    · rw [Function.update_of_ne hat] at ha
      exact hthere a ha
  · by_cases hat : a = target
    · subst hat
      exact ⟨ve, hcell, ((hlists b).mp (hback b hb)).1⟩
    · unfold MapsBack at hb
      rwa [Function.update_of_ne hat] at hb
  · rw [htarget] at ht
    cases ht
    exact ((hlists address).mp (hback address hb)).2 rfl
  · by_cases hat : a = target
    · subst hat
      have hno : ¬ ve.Lists address := fun h => ha ⟨htarget, hrange, ve, hcell, h⟩
      rw [Function.update_self, hsame hno, hcell, VirtaddressEntry.cell, if_neg hne]
    · rw [Function.update_of_ne hat]

theorem addressmapVirtaddressRemove_fits (hthere : ∀ a, s.virtaddressReversemap a ≠ some .freed)
    (hfit : ReleaseFits conf s keyFreed address ent after) :
    ∃ rev', addressmapVirtaddressRemove conf s.virtaddressReversemap (if keyFreed then none else some address) ent =
        .ok rev' ∧
      Released conf s.virtaddressReversemap rev' address ent := by
  unfold addressmapVirtaddressRemove
  cases htarget : ent.newAddress with
  | none => exact ⟨_, rfl, .unchanged hthere fun t ht => by rw [htarget] at ht; cases ht⟩
  | some target =>
    have hfit := hfit target htarget
    by_cases hrange : addressIsInVirtualRange conf target = true
    · rw [if_pos hrange] at hfit
      simp only [hrange, Bool.not_true, Bool.false_eq_true, if_false]
      cases hcell : s.virtaddressReversemap target with
      | none =>
        refine ⟨_, rfl, .unchanged hthere ?_⟩
        rintro t ht - ⟨ve, hve, -⟩
        rw [htarget] at ht
        cases ht
        rw [hcell] at hve
        cases hve
      | some cell =>
        cases cell with
        | freed => exact absurd hcell (hthere target)
        | live ve =>
          obtain ⟨rfl, hfull⟩ := hfit ve hcell
          obtain ⟨ve', hve', hlists, hsame⟩ := ve.without_full hfull address
          refine ⟨_, ?_, .cleaned hthere htarget hrange hcell hlists hsame ?_⟩
          · simp only [Bool.false_eq_true, if_false, hve']
            rfl
          · rintro rfl
            exact absurd hfull.1 (by simp)
    · simp only [hrange, Bool.not_false, if_true]
      refine ⟨_, rfl, .unchanged hthere fun t ht hr => ?_⟩
      rw [htarget] at ht
      cases ht
      exact absurd hr hrange

/-- The address map gets `entry` for the address, which maps it to `after`. -/
theorem Documented.released (hd : Documented s) (hent : s.addressmap address = some ent)
    (hfit : ReleaseFits conf s keyFreed address ent after)
    (hrel : Released conf s.virtaddressReversemap rev' address ent) {entry : Option AddressmapEntry}
    (hentry : entry.bind AddressmapEntry.newAddress = after) :
    Documented ⟨Function.update s.addressmap address entry, rev'⟩ := by
  refine ⟨hrel.there, fun a b hb => ?_⟩
  have hold := hrel.back a b hb
  obtain ⟨e, he, hea⟩ := hd.mapped a b hold
  by_cases hba : b = address
  · subst hba
    rw [hent] at he
    cases he
    have hfit := hfit a hea
    split at hfit
    next hrange => exact absurd hb (hrel.gone a hea hrange)
    · obtain ⟨e, rfl, he⟩ := Option.bind_eq_some_iff.mp (hentry.trans (hfit hold))
      exact ⟨e, Function.update_self .., he⟩
  · exact ⟨e, (Function.update_of_ne hba ..).trans he, hea⟩

theorem removeMapping_fits (hd : Documented s) (hent : s.addressmap address = some ent)
    (hfit : ReleaseFits conf s keyFreed address ent none) :
    ∃ rev', removeMapping conf s keyFreed address ent = .ok ⟨Function.update s.addressmap address none, rev'⟩ ∧
      Released conf s.virtaddressReversemap rev' address ent ∧
      Documented ⟨Function.update s.addressmap address none, rev'⟩ := by
  obtain ⟨rev', hrev, hrel⟩ := addressmapVirtaddressRemove_fits hd.there hfit
  refine ⟨rev', ?_, hrel, hd.released hent hfit hrel rfl⟩
  unfold removeMapping addressmapEntRemove
  rw [hrev]
  rfl

end

/-! ## The calls -/

/-- The call keeps the maps as documented, or stops at something else than a bad read. -/
def Keeps : Except Stop AddressMaps → Prop
  | .ok s => Documented s
  | .error stop => stop ≠ .badRead

section
variable {conf : VirtaddrConf} {s : AddressMaps} {keyFreed : Bool} {address : Text} {newAddress : Option Text}
  {expires : Int} {source : AddressmapEntrySource} {wildcardAddr wildcardNewAddr type : Int}
  {removeThis : Text → AddressmapEntry → Except Stop Bool} {keys : List Text} {draws : List (Nat → UInt8)}

theorem unregister_keeps (hd : Documented s)
    (hfit : ∀ ent, s.addressmap address = some ent → ReleaseFits conf s false address ent none) :
    Keeps (unregister conf s address) := by
  unfold unregister
  cases hent : s.addressmap address with
  | none => exact hd
  | some ent =>
    obtain ⟨rev', hs', -, hd'⟩ := removeMapping_fits hd hent (hfit ent hent)
    change Keeps (removeMapping conf s false address ent)
    rw [hs']
    exact hd'

/-- The reverse map does not have an address that is not mapped. -/
theorem Documented.set (hd : Documented s) {new : AddressmapEntry}
    (hfree : ∀ ent, s.addressmap address = some ent → ent.newAddress = none) :
    Documented { s with addressmap := Function.update s.addressmap address (some new) } := by
  refine ⟨hd.there, fun a b hb => ?_⟩
  obtain ⟨e, he, hea⟩ := hd.mapped a b hb
  have hba : b ≠ address := by
    rintro rfl
    rw [hfree e he] at hea
    cases hea
  exact ⟨e, (Function.update_of_ne hba ..).trans he, hea⟩

theorem overwriteMapping_keeps (hd : Documented s) {ent new : AddressmapEntry} {oldAddress : Text}
    (hent : s.addressmap address = some ent) (hold : ent.newAddress = some oldAddress) (hexpires : expires ≤ 1)
    (hfit : ReleaseFits conf s false address ent new.newAddress) :
    Keeps (overwriteMapping conf s address ent oldAddress new expires) := by
  unfold overwriteMapping
  obtain ⟨rev', hrev, hrel⟩ := addressmapVirtaddressRemove_fits hd.there hfit
  have hd' := hd.released hent hfit hrel (show (some new).bind AddressmapEntry.newAddress = _ from rfl)
  by_cases hrange : addressIsInVirtualRange conf oldAddress = true
  · rw [if_pos (by simp only [hrange, Bool.true_and, decide_eq_true_eq]; omega)]
    simp only [Bool.false_eq_true, if_false] at hrev
    rw [hrev]
    exact hd'
  · rw [if_neg (by simp [hrange])]
    have hsame : rev' = s.virtaddressReversemap := by
      funext a
      refine hrel.others a ?_
      rintro ⟨ha, hr, -⟩
      rw [hold] at ha
      cases ha
      exact hrange hr
    rw [hsame] at hd'
    exact hd'

theorem setMapping_keeps (hd : Documented s) {new : AddressmapEntry}
    (hfit : ∀ ent, s.addressmap address = some ent → expires ≤ 1 → ReleaseFits conf s false address ent new.newAddress) :
    Keeps (setMapping conf s address new expires) := by
  unfold setMapping
  cases hent : s.addressmap address with
  | none => exact hd.set fun ent h => by rw [hent] at h; cases h
  | some ent =>
    cases hold : ent.newAddress with
    | none =>
      simp only [hold]
      refine hd.set fun e he => ?_
      rw [hent] at he
      cases he
      exact hold
    | some oldAddress =>
      simp only [hold]
      split
      · exact hd
      next hexpires => exact overwriteMapping_keeps hd hent hold (by omega) (hfit ent hent (by omega))

theorem addressmapRegister_keeps (hd : Documented s)
    (hfit : RegisterFits conf s address newAddress expires wildcardAddr wildcardNewAddr) :
    Keeps (addressmapRegister conf s address newAddress expires source wildcardAddr wildcardNewAddr) := by
  unfold addressmapRegister
  split
  · exact nofun
  next hwild =>
    have hfit := hfit (fun hn ha => hwild ⟨hn, ha⟩)
    cases newAddress with
    | none => exact unregister_keeps hd fun ent hent => (hfit ent hent).1 fun a ha => by cases ha
    | some newAddress =>
      dsimp only
      split
      next hsame =>
        refine unregister_keeps hd fun ent hent => (hfit ent hent).1 ?_
        rintro _ ⟨⟩
        exact hsame
      next hsame =>
        exact setMapping_keeps hd fun ent hent hexpires => (hfit ent hent).2 (fun h => hsame (h _ rfl)) hexpires

/-! ## The loops -/

theorem LoopFits.tail {key : Text} (h : LoopFits conf removeThis keyFreed (key :: keys) s) :
    LoopFits conf removeThis keyFreed keys s :=
  ⟨fun k hk => h.each k (List.mem_cons_of_mem _ hk), (List.pairwise_cons.mp h.apart).2⟩

/-- What is left to remove after the mapping of `key` fits too. -/
theorem LoopFits.removed {key : Text} {ent : AddressmapEntry} {rev' : VirtaddressReversemap}
    (h : LoopFits conf removeThis keyFreed (key :: keys) s) (hent : s.addressmap key = some ent)
    (hremove : removeThis key ent = .ok true) (hrel : Released conf s.virtaddressReversemap rev' key ent) :
    LoopFits conf removeThis keyFreed keys ⟨Function.update s.addressmap key none, rev'⟩ := by
  obtain ⟨hkey, hrest⟩ := List.pairwise_cons.mp h.apart
  have hbefore : ∀ k e, Function.update s.addressmap key none k = some e → k ≠ key ∧ s.addressmap k = some e := by
    intro k e hk
    by_cases hkk : k = key
    · rw [hkk, Function.update_self] at hk
      cases hk
    · rw [Function.update_of_ne hkk] at hk
      exact ⟨hkk, hk⟩
  have hremoves : ∀ k t, Removes removeThis ⟨Function.update s.addressmap key none, rev'⟩ k t → Removes removeThis s k t := by
    rintro k t ⟨e, he, hr, ht⟩
    exact ⟨e, (hbefore k e he).2, hr, ht⟩
  refine ⟨fun k hk e he hr target htarget => ?_, hrest.imp fun hp hne t h1 h2 hrange hb => ?_⟩
  · obtain ⟨hkk, hek⟩ := hbefore k e he
    have hfit := h.each k (List.mem_cons_of_mem _ hk) e hek hr target htarget
    by_cases hrange : addressIsInVirtualRange conf target = true
    · have hsame : rev' target = s.virtaddressReversemap target := by
        refine hrel.others target ?_
        rintro ⟨hent', -, hback⟩
        exact hkey k hk (Ne.symm hkk) target ⟨ent, hent, hremove, hent'⟩ ⟨e, hek, hr, htarget⟩ hrange hback
      rw [if_pos hrange] at hfit ⊢
      simp only [hsame]
      exact hfit
    · rw [if_neg hrange] at hfit ⊢
      exact fun hb => hfit (hrel.back target k hb)
  · exact hp hne t (hremoves _ t h1) (hremoves _ t h2) hrange (hrel.back _ _ hb)

/-- By induction on the keys: the condition goes along with the documented invariant. -/
theorem removeEach_keeps (hremove : ∀ key ent, removeThis key ent ≠ .error .badRead) (hd : Documented s)
    (hfit : LoopFits conf removeThis keyFreed keys s) : Keeps (removeEach conf removeThis keyFreed keys s) := by
  induction keys generalizing s with
  | nil => exact hd
  | cons key keys ih =>
    rw [removeEach]
    cases hent : s.addressmap key with
    | none => exact ih hd hfit.tail
    | some ent =>
      dsimp only
      cases hthis : removeThis key ent with
      | error stop => exact fun h : stop = .badRead => hremove key ent (hthis.trans (congrArg _ h))
      | ok remove =>
        cases remove with
        | false => exact ih hd hfit.tail
        | true =>
          have hkey := hfit.each key List.mem_cons_self ent hent hthis
          obtain ⟨rev', hs', hrel, hd'⟩ := removeMapping_fits hd hent hkey
          change Keeps ((removeMapping conf s keyFreed key ent).bind fun s => removeEach conf removeThis keyFreed keys s)
          rw [hs']
          exact ih hd' (hfit.removed hent hthis hrel)

theorem invalidAutomap_reads (options : AutomapOptions) (key : Text) (ent : AddressmapEntry) :
    invalidAutomap conf options key ent ≠ .error .badRead := by
  unfold invalidAutomap
  repeat' split
  all_goals simp

/-! ## Drawing -/

variable (map : Addressmap)

/-- What was drawn is not mapped, and drawing reads nothing that is not there. -/
def Unused : Except Stop (Option Text) → Prop
  | .ok none => True
  | .ok (some addr) => map addr = none
  | .error stop => stop ≠ .badRead

theorem drawHostname_unused (draws : List (Nat → UInt8)) : Unused map (drawHostname map draws) := by
  induction draws with
  | nil => exact nofun
  | cons draw draws ih =>
    rw [drawHostname]
    split
    · exact nofun
    · dsimp only
      split
      · exact ih
      next hmap => exact Option.not_isSome_iff_eq_none.mp hmap

theorem unusedText_unused {map : Addressmap} {ipv6 : Bool} {addr : TorAddr} {buf : Text}
    (h : unusedText map ipv6 addr = some buf) : map buf = none := by
  unfold unusedText at h
  split at h
  · cases h
  · split at h
    · split at h
      · cases h
      next hmap =>
        cases h
        simp only [Bool.or_eq_true, not_or, Option.not_isSome_iff_eq_none] at hmap
        exact hmap.1
    · cases h

theorem getRandomVirtualAddr_reads (conf : VirtualAddrConf) (draw : Nat → UInt8) :
    getRandomVirtualAddr conf draw ≠ .error .badRead := by
  unfold getRandomVirtualAddr
  dsimp only
  repeat' split
  all_goals simp

theorem drawAddress_unused (conf : VirtualAddrConf) (ipv6 : Bool) (attempts : Nat) (draws : List (Nat → UInt8)) :
    Unused map (drawAddress map conf ipv6 attempts draws) := by
  induction attempts generalizing draws with
  | zero => trivial
  | succ attempts ih =>
    cases draws with
    | nil => exact nofun
    | cons draw draws =>
      rw [drawAddress]
      cases hget : getRandomVirtualAddr conf draw with
      | error stop => exact fun h => getRandomVirtualAddr_reads conf draw (by rw [hget, h])
      | ok addr =>
        dsimp only
        cases htext : unusedText map ipv6 addr with
        | none => exact ih draws
        | some buf => exact unusedText_unused htext

theorem addressmapGetVirtualAddress_unused (type : Int) (draws : List (Nat → UInt8)) :
    Unused map (addressmapGetVirtualAddress conf map type draws) := by
  unfold addressmapGetVirtualAddress
  split
  · exact drawHostname_unused map draws
  · split
    · exact drawAddress_unused ..
    · split
      · exact drawAddress_unused ..
      · trivial

/-! ## Registering a virtual address -/

/-- A mapping of an address that is not mapped, to another address. -/
theorem addressmapRegister_fresh {addr newAddress : Text} (hmap : s.addressmap addr = none)
    (hother : sameCase addr newAddress = false) :
    addressmapRegister conf s addr (some newAddress) 2 .AUTOMAP 0 0 =
      .ok { s with addressmap := Function.update s.addressmap addr (some ⟨some newAddress, 1, .AUTOMAP, false, false⟩) } := by
  unfold addressmapRegister setMapping
  simp [hmap, hother]

/-- The maps are as documented, and where none is returned they are as they were. -/
def KeepsEntries (s : AddressMaps) : Except Stop (Option Text × AddressMaps) → Prop
  | .ok (returned, s') => Documented s' ∧ (returned = none → s' = s)
  | .error stop => stop ≠ .badRead

/-- A drawn address is entered in both maps; `vent` is a new entry or the one in the map. -/
theorem Documented.assigned {addr newAddress : Text} {vent : VirtaddressEntry} {new : AddressmapEntry} (hd : Documented s)
    (hmap : s.addressmap addr = none) (hnew : new.newAddress = some newAddress)
    (hvent : ∀ b, vent.Lists b → MapsBack s.virtaddressReversemap newAddress b) :
    Documented
      { addressmap := Function.update s.addressmap addr (some new)
        virtaddressReversemap :=
          Function.update s.virtaddressReversemap newAddress (some (ReverseCell.live (vent.setAddrp type addr))) } := by
  refine ⟨fun a ha => ?_, fun a b hb => ?_⟩
  · by_cases han : a = newAddress
    · rw [han] at ha
      simp at ha
    · simp only [Function.update_of_ne han] at ha
      exact hd.there a ha
  · have hcases : a = newAddress ∧ b = addr ∨ MapsBack s.virtaddressReversemap a b := by
      obtain ⟨ve, hve, hlists⟩ := hb
      by_cases han : a = newAddress
      · subst han
        simp only [Function.update_self, Option.some.injEq, ReverseCell.live.injEq] at hve
        subst hve
        rcases VirtaddressEntry.lists_setAddrp hlists with rfl | hlists
        · exact .inl ⟨rfl, rfl⟩
        · exact .inr (hvent b hlists)
      · simp only [Function.update_of_ne han] at hve
        exact .inr ⟨ve, hve, hlists⟩
    rcases hcases with ⟨rfl, rfl⟩ | hold
    · exact ⟨new, Function.update_self .., hnew⟩
    · obtain ⟨e, he, hea⟩ := hd.mapped a b hold
      have hba : b ≠ addr := by
        rintro rfl
        rw [hmap] at he
        cases he
      exact ⟨e, (Function.update_of_ne hba ..).trans he, hea⟩

theorem assignVirtualAddress_keeps {newAddress : Text} {vent : VirtaddressEntry} (hd : Documented s)
    (hvent : ∀ b, vent.Lists b → MapsBack s.virtaddressReversemap newAddress b)
    (hnone : addressmapGetVirtualAddress conf s.addressmap type draws = .ok none →
      s.virtaddressReversemap newAddress = none)
    (hother : ∀ addr, addressmapGetVirtualAddress conf s.addressmap type draws = .ok (some addr) →
      sameCase addr newAddress = false) :
    KeepsEntries s (assignVirtualAddress conf s vent type newAddress draws) := by
  have hunused := @addressmapGetVirtualAddress_unused conf s.addressmap type draws
  unfold assignVirtualAddress
  cases hget : addressmapGetVirtualAddress conf s.addressmap type draws with
  | error stop =>
    rw [hget] at hunused
    exact hunused
  | ok drawn =>
    rw [hget] at hunused
    cases drawn with
    | none =>
      have hsame : Function.update s.virtaddressReversemap newAddress
          ((s.virtaddressReversemap newAddress).map fun _ => ReverseCell.freed) = s.virtaddressReversemap := by
        rw [hnone hget, Option.map_none, ← hnone hget, Function.update_eq_self]
      refine (?_ : Documented _ ∧ _)
      rw [hsame]
      exact ⟨hd, fun _ => rfl⟩
    | some addr =>
      have hfresh := @addressmapRegister_fresh conf
        { s with virtaddressReversemap :=
            Function.update s.virtaddressReversemap newAddress (some (ReverseCell.live (vent.setAddrp type addr))) }
        addr newAddress hunused (hother addr hget)
      change KeepsEntries s
        ((addressmapRegister conf _ addr (some newAddress) 2 .AUTOMAP 0 0).bind fun s => .ok (some addr, s))
      rw [hfresh]
      exact ⟨hd.assigned hunused rfl hvent, nofun⟩

theorem addressmapRegisterVirtualAddress_keeps {newAddress : Text} (hd : Documented s)
    (hfit : AssignFits conf s type newAddress draws) :
    KeepsEntries s (addressmapRegisterVirtualAddress conf s type newAddress draws) := by
  unfold addressmapRegisterVirtualAddress
  cases hcell : s.virtaddressReversemap newAddress with
  | none =>
    obtain ⟨hnone, hother⟩ := hfit fun ve hve => by rw [hcell] at hve; cases hve
    exact assignVirtualAddress_keeps hd (fun b hb => absurd hb not_lists_empty) hnone hother
  | some cell =>
    cases cell with
    | freed => exact absurd hcell (hd.there newAddress)
    | live vent =>
      dsimp only
      cases haddr : vent.addrp type with
      | none =>
        obtain ⟨hnone, hother⟩ := hfit fun ve hve => by
          rw [hcell] at hve
          cases hve
          exact haddr
        exact assignVirtualAddress_keeps hd (fun b hb => ⟨vent, hcell, hb⟩) hnone hother
      | some addr =>
        obtain ⟨ent, hent, htarget⟩ := hd.mapped newAddress addr ⟨vent, hcell, type, haddr⟩
        have hmaps : mapsTo s.addressmap addr newAddress = true := by
          simp [mapsTo, hent, htarget, sameCase]
        dsimp only
        rw [if_pos hmaps]
        exact ⟨hd, nofun⟩

end

/-! ## Runs -/

section
variable {s : AddressMaps} {call : Call}

theorem goodCall_of_keeps {r : Except Stop AddressMaps} (hr : perform s call = r.map (none, ·)) (hkeeps : Keeps r)
    (hop : ∀ type newAddress draws, call.op ≠ .registerVirtualAddress type newAddress draws) :
    GoodCall s call ∧ ∀ s', nextMaps s call = some s' → Documented s' := by
  refine ⟨⟨?_, fun type newAddress draws _ h => absurd h (hop type newAddress draws)⟩, fun s' h => ?_⟩
  · rw [hr]
    cases r with
    | ok s' => exact nofun
    | error stop => exact fun h => hkeeps (Except.error.inj h)
  · unfold nextMaps at h
    rw [hr] at h
    cases r with
    | ok t =>
      cases h
      exact hkeeps
    | error stop => cases h

theorem goodCall_of_fits (hd : Documented s) (hfit : Fits s call) :
    GoodCall s call ∧ ∀ s', nextMaps s call = some s' → Documented s' := by
  obtain ⟨conf, op⟩ := call
  cases op with
  | register address newAddress expires source wildcardAddr wildcardNewAddr =>
    exact goodCall_of_keeps rfl (addressmapRegister_keeps hd hfit) nofun
  | registerVirtualAddress type newAddress draws =>
    have hkeeps := addressmapRegisterVirtualAddress_keeps hd hfit
    have hperform : perform s ⟨conf, .registerVirtualAddress type newAddress draws⟩ =
      addressmapRegisterVirtualAddress conf s type newAddress draws := rfl
    refine ⟨⟨fun h => ?_, fun _ _ _ s' _ h a cell hcell => ?_⟩, fun s' h => ?_⟩
    · rw [← hperform, h] at hkeeps
      exact hkeeps rfl
    · rw [← hperform, h] at hkeeps
      rw [hkeeps.2 rfl]
      exact hcell
    · rw [← hperform] at hkeeps
      unfold nextMaps at h
      cases hp : perform s ⟨conf, .registerVirtualAddress type newAddress draws⟩ with
      | ok r =>
        rw [hp] at hkeeps h
        cases h
        exact hkeeps.1
      | error stop =>
        rw [hp] at h
        cases h
  | clean now keys | clearConfigured keys | clearTransient keys =>
    exact goodCall_of_keeps rfl (removeEach_keeps nofun hd hfit) nofun
  | clearInvalidAutomaps options keys =>
    exact goodCall_of_keeps rfl (removeEach_keeps (invalidAutomap_reads options) hd hfit) nofun

end

/-- In a run whose calls all fit, the reverse map maps an address only to what is mapped to it, no call reads a string that
    is not there, and one that returns no virtual address leaves the reverse entries as they are. -/
theorem virtual_address_books_kept (calls : List Call) (hfit : AllSteps nextMaps Fits addressmapInit calls) :
    BooksKept calls := by
  have hstates : AllStates nextMaps Documented addressmapInit calls := by
    intro pre t hpre ht
    refine run_inv_steps (fun s call s' hd hc => (goodCall_of_fits hd hc).2 s') documented_init ?_ ht
    exact fun pre' call s hpre' => hfit pre' call s (hpre'.trans hpre)
  refine ⟨hstates, fun pre call t hpre ht => ?_⟩
  exact (goodCall_of_fits (hstates pre t ((List.prefix_append _ _).trans hpre) ht) (hfit pre call t hpre ht)).1

/-- 127.192.0.0/10 and [FE80::]/10, as they are configured by default. -/
def defaultNetworks : VirtaddrConf :=
  ⟨⟨.inet 0x7fc00000, 10⟩, ⟨.inet6 #v[0xfe, 0x80, 0, 0, 0, 0, 0, 0, 0, 0, 0, 0, 0, 0, 0, 0], 10⟩⟩

def requested : Text := "www.example.com".toList

def drawnIpv4 : Text := "127.193.1.1".toList

def drawnName : Text := "aaaaaaaaaaaaaaaa.virtual".toList

/-- An IPv4 address is drawn, and no mapping is one that expires. -/
theorem virtual_address_books_kept_of_request :
    BooksKept
      [⟨defaultNetworks, .registerVirtualAddress RESOLVED_TYPE_IPV4 requested [fun _ => 1]⟩,
        ⟨defaultNetworks, .clearTransient [drawnIpv4]⟩] := by
  have hget : addressmapGetVirtualAddress defaultNetworks addressmapInit.addressmap RESOLVED_TYPE_IPV4 [fun _ => 1] =
      .ok (some drawnIpv4) := by decide +kernel
  have hnext : nextMaps addressmapInit
        ⟨defaultNetworks, .registerVirtualAddress RESOLVED_TYPE_IPV4 requested [fun _ => 1]⟩ =
      some
        { addressmap :=
            Function.update addressmapInit.addressmap drawnIpv4 (some ⟨some requested, 1, .AUTOMAP, false, false⟩)
          virtaddressReversemap :=
            Function.update addressmapInit.virtaddressReversemap requested (some (.live ⟨some drawnIpv4, none, none⟩)) } := by
    change (match assignVirtualAddress defaultNetworks addressmapInit ⟨none, none, none⟩ RESOLVED_TYPE_IPV4 requested
        [fun _ => 1] with
      | .ok (_, s') => some s'
      | .error _ => none) = _
    unfold assignVirtualAddress
    rw [hget]
    rfl
  refine virtual_address_books_kept _ ((allSteps_cons hnext).mpr ⟨?_, ?_⟩)
  · refine fun _ => ⟨fun _ => rfl, fun addr haddr => ?_⟩
    cases hget.symm.trans haddr
    decide
  · refine (@allSteps_snoc _ _ _ _ [] _ _).mpr ⟨allSteps_nil, fun t ht => ?_⟩
    cases ht
    refine ⟨fun key hkey ent hent hexpires => ?_, List.pairwise_singleton _ _⟩
    rw [List.mem_singleton.mp hkey] at hent
    have hent := (Function.update_self drawnIpv4 _ addressmapInit.addressmap).symm.trans hent
    cases hent
    cases hexpires

theorem not_booksKept_of_state {calls : List Call} (bad : AddressMaps → Bool)
    (hrun : (run nextMaps addressmapInit calls).any bad = true) (hbad : ∀ t, bad t = true → ¬ Documented t) :
    ¬ BooksKept calls := by
  obtain ⟨t, ht, hp⟩ := (Option.any_eq_true ..).mp hrun
  exact fun h => hbad t hp (h.1 calls t (List.prefix_refl _) ht)

theorem not_booksKept_of_call {first call : Call} (bad : AddressMaps → Bool)
    (hrun : (run nextMaps addressmapInit [first]).any bad = true) (hbad : ∀ t, bad t = true → ¬ GoodCall t call) :
    ¬ BooksKept [first, call] := by
  obtain ⟨t, ht, hp⟩ := (Option.any_eq_true ..).mp hrun
  exact fun h => hbad t hp (h.2 [first] call t (List.prefix_refl _) ht)

def stopsAtBadRead : Except Stop (Option Text × AddressMaps) → Bool
  | .error stop => decide (stop = .badRead)
  | .ok _ => false

def freesEntryOf (a : Text) : Except Stop (Option Text × AddressMaps) → Bool
  | .ok (none, s) => decide (s.virtaddressReversemap a = some .freed)
  | _ => false

/-- A controller maps a virtual address to itself; the target was none, or its reverse entry has no address of the
other types. Or a controller asks for an address of another type, and all draws are of .0 addresses. -/
theorem the_reverse_map_keeps_what_is_gone :
    ¬ BooksKept
      [⟨defaultNetworks, .registerVirtualAddress RESOLVED_TYPE_IPV4 requested [fun _ => 1]⟩,
        ⟨defaultNetworks, .register drawnIpv4 (some drawnIpv4) 1 .CONTROLLER 0 0⟩] ∧
    ¬ BooksKept
      [⟨defaultNetworks, .registerVirtualAddress RESOLVED_TYPE_HOSTNAME "www.virtual".toList [fun _ => 0]⟩,
        ⟨defaultNetworks, .register drawnName (some drawnName) 1 .CONTROLLER 0 0⟩] ∧
    ¬ BooksKept
      [⟨defaultNetworks, .registerVirtualAddress RESOLVED_TYPE_IPV6 requested [fun _ => 1]⟩,
        ⟨defaultNetworks, .registerVirtualAddress RESOLVED_TYPE_IPV4 requested (List.replicate 1000 fun _ => 0)⟩] := by
  refine ⟨?_, ?_, ?_⟩
  · refine not_booksKept_of_state (fun t => decide (t.addressmap drawnIpv4 = none ∧
      t.virtaddressReversemap requested = some (.live ⟨some drawnIpv4, none, none⟩))) (by decide +kernel) fun t ht hd => ?_
    obtain ⟨hmap, hrev⟩ := of_decide_eq_true ht
    obtain ⟨ent, hent, -⟩ := hd.mapped requested drawnIpv4 ⟨_, hrev, RESOLVED_TYPE_IPV4, rfl⟩
    rw [hmap] at hent
    cases hent
  · refine not_booksKept_of_call (fun t => stopsAtBadRead (perform t
      ⟨defaultNetworks, .register drawnName (some drawnName) 1 .CONTROLLER 0 0⟩)) (by decide +kernel)
      fun t ht hgood => hgood.reads ?_
    unfold stopsAtBadRead at ht
    split at ht
    next stop hstop => rw [hstop, of_decide_eq_true ht]
    · cases ht
  · refine not_booksKept_of_call (fun t =>
      decide (t.virtaddressReversemap requested =
        some (.live ⟨none, some "[fe81:101:101:101:101:101:101:101]".toList, none⟩)) &&
      freesEntryOf requested (perform t ⟨defaultNetworks, .registerVirtualAddress RESOLVED_TYPE_IPV4 requested
        (List.replicate 1000 fun _ => 0)⟩)) (by decide +kernel) fun t ht hgood => ?_
    obtain ⟨hcell, hfrees⟩ := Bool.and_eq_true_iff.mp ht
    unfold freesEntryOf at hfrees
    split at hfrees
    next s' hperform =>
      have hkept := hgood.intact _ _ _ s' rfl hperform requested _ (of_decide_eq_true hcell)
      rw [of_decide_eq_true hfrees] at hkept
      cases hkept
    · cases hfrees

end Badnet.Client
