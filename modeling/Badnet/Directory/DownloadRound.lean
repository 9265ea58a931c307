/-
  Badnet.Directory.DownloadRound — the files that a download round leaves (`router_download_descriptor_from_blockchain`,
  `relayDecryptSRIs`).

  A round decrypts the SRI of each healthy relay and appends it to NIME-cached, which replaces NIME at the last relay.
  That swap is at the end of the helper that decrypts, which is not called for a relay without an SRI, and returns early
  for one whose SRI is no UTF-8 text. So NIME has the SRIs of the round exactly if the last relay's decrypts
  (`rounds_publish_iff`).

  The cipher is a parameter (`cbc`), `none` where Crypto raises a ValueError. What was downloaded for a relay, and the
  key that `bkem_decryption` found for it, are given; a download that raises an exception ends the process.
-/

import Badnet.Encoding.Base16
import Badnet.Encoding.Decimal
import Badnet.Lib.Run
import Badnet.Directory.Contract

namespace Badnet.Directory.DownloadRound

open Lib Encoding

/-! ## Decryption -/

inductive PyException where
  | valueError
  | unicodeDecodeError
  deriving DecidableEq, Repr

/-- `b'qqqqqqqqqqqqqqqq'` -/
def AES_CBC_IV : Bytes := List.replicate 16 113

abbrev Cbc := Bytes → Bytes → Bytes → Option Bytes

section

variable (cbc : Cbc)

/-- `binascii.a2b_hex` of the text, the cipher, `bytes.decode`, `rstrip('\0')`. -/
def aesDecrypt (cipherText : Text) (key : Bytes) : Except PyException Text :=
  let data := if cipherText.length % 2 = 0 then base16DecodeLoop cipherText else none
  match data.bind (cbc key AES_CBC_IV) with
  | none => .error .valueError
  | some plainText =>
    match (ByteArray.mk plainText.toArray).utf8Decode? with
    | none => .error .unicodeDecodeError
    | some text => .ok (text.toList.reverse.dropWhile (· = '\x00')).reverse

/-! ## The files -/

/-- The two files of the directory lib. -/
structure Files where
  NIME : Option Text := none
  NIMECached : Option Text := none
  deriving DecidableEq

/-- What is written for one relay. -/
def entry (relayID : Nat) (_SRI : Text) : Text := "index ".toList ++ decimal relayID ++ '\n' :: _SRI

variable (f : Files)

/-- `open(.., mode='a')` and `write`. -/
def Files.append (text : Text) : Files := { f with NIMECached := some (f.NIMECached.getD [] ++ text) }

/-- `os.remove` and `os.rename`, each if there is such a file. -/
def Files.swap : Files :=
  match f.NIMECached with
  | none => { f with NIME := none }
  | some text => { NIME := some text, NIMECached := none }

/-- An exception that is not caught goes to `router.c`, which does not look at it. -/
def relayDecryptSRIs (relayID : Nat) (enSRI decKey : Text) (fileEnd : Bool) : Files × Option PyException :=
  match aesDecrypt cbc enSRI ((decKey.take 32).flatMap String.utf8EncodeChar) with
  | .error .unicodeDecodeError => (f, none)
  | .error e => (f, some e)
  | .ok _SRI =>
    let f := f.append (entry relayID _SRI)
    (if fileEnd then f.swap else f, none)

/-! ## Rounds -/

/-- A relay of the set, with what was downloaded for it and the key that was found for it. -/
structure Download where
  relayID : Nat
  enSRI : Text
  decKey : Text
  deriving DecidableEq

/-- The set that `relayGetSet` returned, in its order. -/
structure Round where
  relaySet : List Download
  distinct : (relaySet.map (·.relayID)).Nodup

variable (size : Nat)

/-- The loop of `router_download_descriptor_from_blockchain` at `p = (relaySet[i], i)`. -/
def downloadStep (f : Files) (p : Download × Nat) : Files :=
  if p.1.enSRI.length ≠ 0 then (relayDecryptSRIs cbc f p.1.relayID p.1.enSRI p.1.decKey (p.2 = size - 1)).1 else f

def routerDownload (r : Round) : Files :=
  r.relaySet.zipIdx.foldl (downloadStep cbc r.relaySet.length) f

/-- The SRI of a relay: none if it has not uploaded one, or it does not decrypt to a text. -/
def Download.sri (d : Download) : Option Text :=
  if d.enSRI.length ≠ 0 then (aesDecrypt cbc d.enSRI ((d.decKey.take 32).flatMap String.utf8EncodeChar)).toOption else none

/-- NIME has one entry for each relay of the round whose SRI decrypted, with this SRI, and no other entry; there is no
    NIME-cached. -/
def Published (r : Round) (f : Files) : Prop :=
  (∃ entries : List (Nat × Text), f.NIME = some (entries.flatMap fun e => entry e.1 e.2) ∧ (entries.map (·.1)).Nodup ∧
    ∀ i _SRI, (i, _SRI) ∈ entries ↔ ∃ d ∈ r.relaySet, d.relayID = i ∧ d.sri cbc = some _SRI) ∧
  f.NIMECached = none

def LastDecrypts (r : Round) : Prop := ∃ d, r.relaySet.getLast? = some d ∧ (d.sri cbc).isSome = true

/-! ## One round -/

/-- A relay without an SRI leaves the files alone. -/
theorem downloadStep_eq (f : Files) (d : Download) (i : Nat) :
    downloadStep cbc size f (d, i) =
      match d.sri cbc with
      | none => f
      | some _SRI => if i = size - 1 then (f.append (entry d.relayID _SRI)).swap else f.append (entry d.relayID _SRI) := by
  rw [downloadStep, Download.sri]
  by_cases hempty : d.enSRI.length ≠ 0
  · rw [if_pos hempty, if_pos hempty, relayDecryptSRIs]
    simp only
    rcases aesDecrypt cbc d.enSRI ((d.decKey.take 32).flatMap String.utf8EncodeChar) with e | _SRI
    · cases e <;> rfl
    · simp only [decide_eq_true_eq]
      rfl
  · rw [if_neg hempty, if_neg hempty]

/-- The entries of a list of relays. -/
def entriesOf (l : List Download) : List (Nat × Text) := l.filterMap fun d => (d.sri cbc).map fun _SRI => (d.relayID, _SRI)

/-- What is cached after these entries. -/
def cachedAfter (cached : Option Text) (entries : List (Nat × Text)) : Option Text :=
  if entries = [] then cached else some (cached.getD [] ++ entries.flatMap fun e => entry e.1 e.2)

theorem entriesOf_cons (d : Download) (l : List Download) :
    entriesOf cbc (d :: l) =
      match d.sri cbc with
      | none => entriesOf cbc l
      | some _SRI => (d.relayID, _SRI) :: entriesOf cbc l := by
  rw [entriesOf, List.filterMap_cons]
  rcases d.sri cbc with _ | _SRI <;> rfl

theorem mem_entriesOf {l : List Download} {i : Nat} {_SRI : Text} :
    (i, _SRI) ∈ entriesOf cbc l ↔ ∃ d ∈ l, d.relayID = i ∧ d.sri cbc = some _SRI := by
  rw [entriesOf, List.mem_filterMap]
  refine exists_congr fun d => and_congr_right fun _ => ?_
  rw [Option.map_eq_some_iff]
  constructor
  · rintro ⟨text, ht, he⟩
    cases he
    exact ⟨rfl, ht⟩
  · rintro ⟨rfl, ht⟩
    exact ⟨_SRI, ht, rfl⟩

theorem entriesOf_nodup {l : List Download} (h : (l.map (·.relayID)).Nodup) : ((entriesOf cbc l).map (·.1)).Nodup := by
  refine h.sublist ?_
  induction l with
  | nil => exact List.Sublist.refl _
  | cons d l ih =>
    obtain ⟨-, hl⟩ := List.nodup_cons.mp h
    rw [entriesOf_cons]
    rcases d.sri cbc with _ | _SRI
    · exact (ih hl).cons _
    · exact (ih hl).cons_cons _

/-- The relays before the last one are only cached. -/
theorem download_loop (l : List Download) (k : Nat) (h : k + l.length < size) (f : Files) :
    (l.zipIdx k).foldl (downloadStep cbc size) f = { f with NIMECached := cachedAfter f.NIMECached (entriesOf cbc l) } := by
  induction l generalizing k f with
  | nil => rfl
  | cons d l ih =>
    rw [List.length_cons] at h
    rw [List.zipIdx_cons, List.foldl_cons, downloadStep_eq, ih (k + 1) (by omega), entriesOf_cons]
    rcases d.sri cbc with _ | _SRI
    · rfl
    · have hnotlast : k ≠ size - 1 := by omega
      simp only [if_neg hnotlast, Files.append, cachedAfter]
      rw [if_neg (List.cons_ne_nil _ _), List.flatMap_cons]
      split
      · next hnil => rw [hnil, List.flatMap_nil, List.append_nil]
      · rw [Option.getD_some, List.append_assoc]

/-- A round that starts without a cached file publishes its SRIs exactly if the last one decrypts. -/
theorem round_published_iff {f : Files} (hf : f.NIMECached = none) {r : Round}
    (hsome : ∃ d ∈ r.relaySet, (d.sri cbc).isSome = true) :
    Published cbc r (routerDownload cbc f r) ↔ LastDecrypts cbc r := by
  rcases r with ⟨relaySet, distinct⟩
  rcases relaySet.eq_nil_or_concat with rfl | ⟨before, last, he⟩
  · obtain ⟨d, hd, -⟩ := hsome
    cases hd
  rw [List.concat_eq_append] at he
  subst he
  have hloop : routerDownload cbc f ⟨before ++ [last], distinct⟩ =
      downloadStep cbc (before.length + 1) { f with NIMECached := cachedAfter none (entriesOf cbc before) }
        (last, before.length) := by
    rw [routerDownload]
    simp only [List.zipIdx_append, List.foldl_append, List.length_append, List.length_singleton]
    rw [download_loop cbc _ before 0 (by omega), hf, Nat.zero_add]
    rfl
  have hlast : (before ++ [last]).getLast? = some last := List.getLast?_concat
  rw [hloop, downloadStep_eq, LastDecrypts]
  simp only [hlast, Option.some.injEq, exists_eq_left', Published]
  rcases hsri : last.sri cbc with _ | _SRI
  · -- what the relays before have left stays cached
    refine iff_of_false (fun hp => ?_) (by simp)
    obtain ⟨d, hd, hdec⟩ := hsome
    rcases List.mem_append.mp hd with hd | hd
    · obtain ⟨text, ht⟩ := Option.isSome_iff_exists.mp hdec
      have hmem : (d.relayID, text) ∈ entriesOf cbc before := (mem_entriesOf cbc).mpr ⟨d, hd, rfl, ht⟩
      have hcached := hp.2
      rw [cachedAfter, if_neg (List.ne_nil_of_mem hmem)] at hcached
      cases hcached
    · rw [List.mem_singleton.mp hd, hsri] at hdec
      cases hdec
  · simp only
    rw [if_pos (by omega)]
    refine iff_of_true ⟨⟨entriesOf cbc (before ++ [last]), ?_, entriesOf_nodup cbc distinct, fun i text => ?_⟩, rfl⟩ rfl
    · have hconcat : entriesOf cbc (before ++ [last]) = entriesOf cbc before ++ [(last.relayID, _SRI)] := by
        simp [entriesOf, List.filterMap_append, hsri]
      rw [hconcat, List.flatMap_append, List.flatMap_singleton]
      simp only [Files.append, Files.swap, cachedAfter]
      split
      · next hnil => simp [hnil]
      · simp
    · exact mem_entriesOf cbc

end

/-! ## Sequences of rounds -/

def step (cbc : Cbc) (f : Files) (r : Round) : Option Files := some (routerDownload cbc f r)

/-- Whatever NIME was before, every round publishes its SRIs exactly if in every round the last relay's SRI decrypts. -/
theorem rounds_publish_iff (cbc : Cbc) {rs : List Round}
    (hsome : ∀ r ∈ rs, ∃ d ∈ r.relaySet, (d.sri cbc).isSome = true) (nime : Option Text) :
    AllSteps (step cbc) (fun f r => Published cbc r (routerDownload cbc f r)) ⟨nime, none⟩ rs ↔
      ∀ r ∈ rs, LastDecrypts cbc r := by
  induction rs generalizing nime with
  | nil => exact iff_of_true allSteps_nil (by simp)
  | cons r rs ih =>
    obtain ⟨hr, hrs⟩ := List.forall_mem_cons.mp hsome
    have hone := round_published_iff cbc (f := ⟨nime, none⟩) rfl hr
    rw [allSteps_cons (show step cbc ⟨nime, none⟩ r = some (routerDownload cbc ⟨nime, none⟩ r) from rfl),
      List.forall_mem_cons, ← hone]
    refine and_congr_right fun hp => ?_
    -- without a cached file the next round starts like this one
    obtain ⟨nime', hnext⟩ : ∃ nime', routerDownload cbc ⟨nime, none⟩ r = ⟨nime', none⟩ := by
      have hcached := hp.2
      rcases he : routerDownload cbc ⟨nime, none⟩ r with ⟨nime', cached⟩
      rw [he] at hcached
      exact ⟨nime', congrArg (Files.mk nime') hcached⟩
    rw [hnext]
    exact ih hrs nime'

def keyText : Text := "0123456789ABCDEF0123456789ABCDEF".toList

/-- AES-256 on one block. -/
def oneBlock : Cbc := fun key iv data =>
  if key = keyText.flatMap String.utf8EncodeChar ∧ iv = AES_CBC_IV ∧
      data = [200, 179, 69, 84, 79, 211, 251, 125, 175, 81, 5, 22, 119, 228, 91, 73] then
    some [114, 32, 65, 10, 0, 0, 0, 0, 0, 0, 0, 0, 0, 0, 0, 0]
  else none

variable (relayID : Nat)

def withSri : Download := ⟨relayID, "c8b345544fd3fb7daf51051677e45b49".toList, keyText⟩

def withoutSri : Download := ⟨relayID, [], []⟩

theorem withSri_decrypts : (withSri relayID).sri oneBlock = some ['r', ' ', 'A', '\n'] := by
  have h : (withSri 0).sri oneBlock = some ['r', ' ', 'A', '\n'] := by decide +kernel
  exact h

theorem rounds_publish_iff_new_relay_first :
    AllSteps (step oneBlock) (fun f r => Published oneBlock r (routerDownload oneBlock f r)) ⟨none, none⟩
      [⟨[withoutSri 1, withSri 2], by decide⟩] := by
  refine (rounds_publish_iff oneBlock (fun r hr => ?_) none).mpr fun r hr => ?_
  · rw [List.mem_singleton.mp hr]
    exact ⟨withSri 2, by simp, by rw [withSri_decrypts]; rfl⟩
  · rw [List.mem_singleton.mp hr]
    exact ⟨withSri 2, rfl, by rw [withSri_decrypts]; rfl⟩

/-- The first relay's SRI stays in the cached file, for the next round to append to. -/
theorem a_new_relay_without_an_sri_stops_the_swap :
    ¬ ∀ rs : List Round, (∀ r ∈ rs, ∃ d ∈ r.relaySet, (d.sri oneBlock).isSome = true) →
      AllSteps (step oneBlock) (fun f r => Published oneBlock r (routerDownload oneBlock f r)) ⟨none, none⟩ rs := by
  intro hall
  have hsteps := hall [⟨[withSri 1, withoutSri 2], by decide⟩] fun r hr => by
    rw [List.mem_singleton.mp hr]
    exact ⟨withSri 1, by simp, by rw [withSri_decrypts]; rfl⟩
  have hcached := (hsteps [] _ _ (List.prefix_refl _) rfl).2
  have hleft : (routerDownload oneBlock ⟨none, none⟩ ⟨[withSri 1, withoutSri 2], by decide⟩).NIMECached =
      some (entry 1 ['r', ' ', 'A', '\n']) := by decide +kernel
  cases hleft.symm.trans hcached

end Badnet.Directory.DownloadRound
