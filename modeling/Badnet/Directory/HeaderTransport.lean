/-
  Badnet.Directory.HeaderTransport — the way of a broadcast header from one relay to another.

  `bkem_encryption` prints the entries of the header as one text, which web3 takes for bytes (`toBytes`, `ReadsHex`).
  `relayDownloadSRI` cuts their digits into pieces of 130. `bkem_decryption` scans two digits at a time until the scan
  fails; each scan stores an `unsigned int`, of which the next one overwrites all but the first byte. The receiver has
  the entries of the sender, whatever the buffers held before (`header_transport_lossless`).
-/

import Badnet.Encoding.Base16
import Badnet.Encoding.Decimal
import Badnet.Lib.Run
import Badnet.Directory.Nsd

namespace Badnet.Directory

open Lib Encoding

/-! ## The sender -/

/-- `temp += sprintf(*Hdr + temp, "%02X", b)` -/
def sprintf02X (acc : Text × Nat) (b : UInt8) : Text × Nat := (acc.1.take acc.2 ++ base16Encode [b], acc.2 + 2)

variable (HDR : List Bytes)

/-- The loops of `bkem_encryption` over the entries and their bytes; the first of them all sets `temp`. -/
def bkemEncryptionHdr : Text :=
  (HDR.foldl (fun acc HdrData => HdrData.foldl sprintf02X acc) ([], 0)).1

variable (toBytes : Text → Option Bytes)

/-- `relayUploadSRIAndNSD` with the header `Hdr`, and what else it sends. -/
def relayUploadHdr (wallet : Address) (s : State) (Hdr : Text) (u : Upload) : Option State :=
  (toBytes ('0' :: 'x' :: Hdr)).bind fun bytes => relayUploadSRIAndNSD s wallet { u with Hdr := bytes }

/-- What web3 makes of a text for an argument of type `bytes`: the bytes that its digits after "0x" stand for. -/
def ReadsHex : Prop :=
  ∀ text bytes, text.length % 2 = 0 → base16DecodeLoop text = some bytes → toBytes ('0' :: 'x' :: text) = some bytes

/-! ## The receiver -/

/-- `sscanf(s, "%2X", ..)`: white space is skipped, a sign takes one of the two places. -/
def sscanf2X (s : Text) : Option UInt32 :=
  let s := s.dropWhile isspace
  let neg := s.head? = some '-'
  let sign := s.head? = some '-' ∨ s.head? = some '+'
  let s := if sign then s.tail else s
  let digits := (s.take (if sign then 1 else 2)).takeWhile fun c => (hexDecodeDigit c).isSome
  let v := UInt32.ofNat (digits.foldl (fun v c => v * 16 + (hexDecodeDigit c).getD 0) 0)
  if digits = [] then none else some (if neg then -v else v)

variable (HdrData : Nat → UInt8)

/-- A little-endian `unsigned int` at `&HdrData[j]`. -/
def storeUint (j : Nat) (v : UInt32) : Nat → UInt8 :=
  fun k => if j ≤ k ∧ k < j + 4 then UInt8.ofNat (v.toNat / 256 ^ (k - j)) else HdrData k

/-- The scan loop of `bkem_decryption` on what is left of the piece; `none` if the offset passes its end. -/
def scanLoop : Text → Nat → (Nat → UInt8) → Option (Nat → UInt8)
  | [], _, HdrData => some HdrData
  | [c], _, HdrData => if (sscanf2X [c]).isSome then none else some HdrData
  | c :: d :: s, j, HdrData =>
    match sscanf2X (c :: d :: s) with
    | none => some HdrData
    | some v => scanLoop s (j + 1) (storeUint HdrData j v)

/-- `element_length_in_bytes_compressed` -/
def HdrSize : Nat := 65

/-- The header that `bkem_decryption` reads: `element_from_bytes_compressed` takes `HdrSize` bytes of each buffer
from `pbc_malloc`, with the contents `malloced`. -/
def bkemDecryptionHdr (A : Nat) (malloced : Nat → Nat → UInt8) (Hdr : List Text) : Option (List Bytes) :=
  (List.range (A + 1)).mapM fun i =>
    Hdr[i]?.bind fun piece => (scanLoop piece 0 (malloced i)).map fun HdrData => (List.range HdrSize).map HdrData

/-! ## What is printed -/

theorem sprintf_loop (bs : Bytes) (text : Text) :
    bs.foldl sprintf02X (text, text.length) = (text ++ base16Encode bs, (text ++ base16Encode bs).length) := by
  induction bs generalizing text with
  | nil => simp [base16Encode]
  | cons b bs ih =>
    have hstep : sprintf02X (text, text.length) b = (text ++ base16Encode [b], (text ++ base16Encode [b]).length) := by
      rw [sprintf02X, List.take_length, List.length_append, length_base16Encode]
      rfl
    have hcons : base16Encode (b :: bs) = base16Encode [b] ++ base16Encode bs := by simp [base16Encode]
    rw [List.foldl_cons, hstep, ih, List.append_assoc, ← hcons]

theorem bkemEncryptionHdr_eq : bkemEncryptionHdr HDR = base16Encode HDR.flatten := by
  have hloop : ∀ (HDR : List Bytes) (text : Text),
      (HDR.foldl (fun acc HdrData => HdrData.foldl sprintf02X acc) (text, text.length)).1 =
        text ++ base16Encode HDR.flatten := by
    intro HDR
    induction HDR with
    | nil => simp [base16Encode]
    | cons HdrData HDR ih =>
      intro text
      have happend : base16Encode (HdrData ++ HDR.flatten) = base16Encode HdrData ++ base16Encode HDR.flatten :=
        List.flatMap_append
      rw [List.foldl_cons, sprintf_loop, ih, List.flatten_cons, happend, List.append_assoc]
  exact hloop HDR []

/-! ## The cut -/

theorem findall130_flatten {pieces : List (List Char)} (h : ∀ p ∈ pieces, p.length = 130 ∧ '\n' ∉ p) :
    RelayPy.findall130 pieces.flatten = pieces := by
  induction pieces with
  | nil => simp [RelayPy.findall130]
  | cons p pieces ih =>
    obtain ⟨⟨hlen, hline⟩, h⟩ := List.forall_mem_cons.mp h
    have htake : (p ++ pieces.flatten).take 130 = p := by rw [← hlen, List.take_left]
    have hdrop : (p ++ pieces.flatten).drop 130 = pieces.flatten := by rw [← hlen, List.drop_left]
    have hfits : 130 ≤ (p ++ pieces.flatten).length := by
      rw [List.length_append]
      omega
    rw [List.flatten_cons, RelayPy.findall130.eq_def, htake, hdrop, if_pos ⟨hfits, hline⟩, ih h]

theorem hexlify_flatten : RelayPy.hexlify HDR.flatten = (HDR.map RelayPy.hexlify).flatten := by
  induction HDR with
  | nil => rfl
  | cons bs HDR ih => rw [List.flatten_cons, hexlify_append, ih, List.map_cons, List.flatten_cons]

theorem findall130_hexlify {HDR : List Bytes} (hsize : ∀ bs ∈ HDR, bs.length = HdrSize) :
    RelayPy.findall130 (RelayPy.hexlify HDR.flatten) = HDR.map RelayPy.hexlify := by
  rw [hexlify_flatten]
  refine findall130_flatten fun p hp => ?_
  obtain ⟨bs, hbs, rfl⟩ := List.mem_map.mp hp
  rw [length_hexlify, hsize bs hbs]
  exact ⟨rfl, newline_notMem_hexlify bs⟩

/-! ## The scan -/

theorem sscanf2X_digits (b : UInt8) (s : Text) : sscanf2X (RelayPy.hexlify [b] ++ s) = some b.toUInt32 := by
  have hdigit : ∀ d < 16, isspace (Nat.digitChar d) = false ∧ Nat.digitChar d ≠ '-' ∧ Nat.digitChar d ≠ '+' ∧
      hexDecodeDigit (Nat.digitChar d) = some d := by decide
  have hb := b.toNat_lt
  obtain ⟨hspace, hminus, hplus, hhi⟩ := hdigit (b.toNat / 16) (by omega)
  obtain ⟨-, -, -, hlo⟩ := hdigit (b.toNat % 16) (by omega)
  have hskip : (RelayPy.hexlify [b] ++ s).dropWhile isspace = RelayPy.hexlify [b] ++ s :=
    List.dropWhile_cons_of_neg (by rw [hspace]; exact Bool.false_ne_true)
  have hhead : (RelayPy.hexlify [b] ++ s).head? = some (Nat.digitChar (b.toNat / 16)) := rfl
  have htake : (RelayPy.hexlify [b] ++ s).take 2 =
      [Nat.digitChar (b.toNat / 16), Nat.digitChar (b.toNat % 16)] := rfl
  have hvalue : UInt32.ofNat ((0 * 16 + b.toNat / 16) * 16 + b.toNat % 16) = b.toUInt32 := by
    rw [Nat.zero_mul, Nat.zero_add, Nat.mul_comm, Nat.div_add_mod]
    have hsize : b.toNat < UInt32.size := Nat.lt_trans hb (by decide)
    exact UInt32.toNat_inj.mp (by rw [UInt32.toNat_ofNat_of_lt' hsize, UInt8.toNat_toUInt32])
  rw [sscanf2X]
  simp only [hskip, hhead, Option.some.injEq, hminus, hplus, or_self, if_false, htake, List.takeWhile_cons, hhi, hlo,
    Option.isSome_some, if_true, List.takeWhile_nil, List.foldl_cons, List.foldl_nil, Option.getD_some, hvalue,
    reduceCtorEq]

/-- The first byte of what a scan stores is the byte that was printed, and it stores nothing before it. -/
theorem storeUint_byte (j : Nat) (b : UInt8) :
    storeUint HdrData j b.toUInt32 j = b ∧ ∀ k < j, storeUint HdrData j b.toUInt32 k = HdrData k := by
  constructor
  · rw [storeUint, if_pos ⟨Nat.le_refl j, by omega⟩, Nat.sub_self, Nat.pow_zero, Nat.div_one, UInt8.toNat_toUInt32,
      UInt8.ofNat_toNat]
  · intro k hk
    rw [storeUint, if_neg (by omega)]

theorem scanLoop_hexlify (bs : Bytes) (j : Nat) (HdrData : Nat → UInt8) :
    ∃ HdrData', scanLoop (RelayPy.hexlify bs) j HdrData = some HdrData' ∧ (∀ k < j, HdrData' k = HdrData k) ∧
      ∀ k b, bs[k]? = some b → HdrData' (j + k) = b := by
  induction bs generalizing j HdrData with
  | nil => exact ⟨HdrData, rfl, fun _ _ => rfl, fun k b hb => by simp at hb⟩
  | cons b bs ih =>
    obtain ⟨hstored, hbefore⟩ := storeUint_byte HdrData j b
    obtain ⟨HdrData', hloop, hkeep, hread⟩ := ih (j + 1) (storeUint HdrData j b.toUInt32)
    refine ⟨HdrData', ?_, fun k hk => ?_, fun k c hc => ?_⟩
    · have hscan := sscanf2X_digits b (RelayPy.hexlify bs)
      show scanLoop (Nat.digitChar (b.toNat / 16) :: Nat.digitChar (b.toNat % 16) :: RelayPy.hexlify bs) j HdrData = _
      rw [scanLoop]
      rw [show sscanf2X (Nat.digitChar (b.toNat / 16) :: Nat.digitChar (b.toNat % 16) :: RelayPy.hexlify bs) =
        some b.toUInt32 from hscan]
      exact hloop
    · rw [hkeep k (by omega), hbefore k hk]
    · rcases k with _ | k
      · -- the later scans leave this byte alone
        cases hc
        rw [Nat.add_zero, hkeep j (Nat.lt_succ_self j), hstored]
      · have hk := hread k c hc
        rwa [Nat.add_assoc, Nat.add_comm 1 k] at hk

theorem bkemDecryptionHdr_hexlify {A : Nat} {HDR : List Bytes} (hcount : HDR.length = A + 1)
    (hsize : ∀ bs ∈ HDR, bs.length = HdrSize) (malloced : Nat → Nat → UInt8) :
    bkemDecryptionHdr A malloced (HDR.map RelayPy.hexlify) = some HDR := by
  have hentry : ∀ i ∈ List.range (A + 1), ((HDR.map RelayPy.hexlify)[i]?.bind fun piece =>
      (scanLoop piece 0 (malloced i)).map fun HdrData => (List.range HdrSize).map HdrData) = some (HDR.getD i []) := by
    intro i hi
    obtain ⟨bs, hbs⟩ : ∃ bs, HDR[i]? = some bs :=
      ⟨_, List.getElem?_eq_getElem (by rw [hcount]; exact List.mem_range.mp hi)⟩
    obtain ⟨HdrData, hloop, -, hread⟩ := scanLoop_hexlify bs 0 (malloced i)
    rw [List.getElem?_map, hbs, Option.map_some, Option.bind_some, hloop, Option.map_some, List.getD, hbs,
      Option.getD_some, ← hsize bs (List.mem_of_getElem? hbs)]
    refine congrArg some (List.ext_getElem? fun k => ?_)
    rw [List.getElem?_map]
    by_cases hk : k < bs.length
    · rw [List.getElem?_range hk, Option.map_some, List.getElem?_eq_getElem hk]
      have hb := hread k _ (List.getElem?_eq_getElem hk)
      rw [← hb, Nat.zero_add]
    · rw [List.getElem?_eq_none (by rw [List.length_range]; omega), List.getElem?_eq_none (by omega)]
      rfl
  rw [bkemDecryptionHdr, mapM_some hentry]
  refine congrArg some (List.ext_getElem? fun i => ?_)
  rw [List.getElem?_map]
  by_cases hi : i < HDR.length
  · rw [List.getElem?_range (by omega), Option.map_some, List.getElem?_eq_getElem hi, List.getD,
      List.getElem?_eq_getElem hi]
    rfl
  · rw [List.getElem?_eq_none (by rw [List.length_range]; omega), List.getElem?_eq_none (by omega)]
    rfl

/-! ## The whole way -/

/-- A healthy relay uploads a header, any registered relay downloads it: both calls pass, and the receiver has the entries
    of the sender in their order. -/
theorem header_transport_lossless {toBytes : Text → Option Bytes} (hweb3 : ReadsHex toBytes) {A : Nat} {HDR : List Bytes}
    (hcount : HDR.length = A + 1) (hsize : ∀ bs ∈ HDR, bs.length = HdrSize) {s : State} {up down : Address}
    (hup : (s.relayOf up).healthflag = true) (hdown : (s.relayOf down).registered = true)
    (hindex : s.relayaddr up < s.relayIndex) (u : Upload) (malloced : Nat → Nat → UInt8) :
    ∃ t counter Hdr enSRI, relayUploadHdr toBytes up s (bkemEncryptionHdr HDR) u = some t ∧
      RelayPy.relayDownloadSRIHelper down t (s.relayaddr up) = .ok (counter, Hdr, enSRI) ∧
      bkemDecryptionHdr A malloced (RelayPy.findall130 Hdr) = some HDR := by
  have hbytes : toBytes ('0' :: 'x' :: bkemEncryptionHdr HDR) = some HDR.flatten := by
    rw [bkemEncryptionHdr_eq]
    refine hweb3 _ _ ?_ (base16DecodeLoop_encode _)
    rw [length_base16Encode, Nat.mul_mod_right]
  have hstored : relayUploadHdr toBytes up s (bkemEncryptionHdr HDR) u =
      some (s.uploaded up { u with Hdr := HDR.flatten }) := by
    rw [relayUploadHdr, hbytes, Option.bind_some, relayUploadSRIAndNSD, if_pos hup]
    rfl
  have hreg : ((s.uploaded up { u with Hdr := HDR.flatten }).relayOf down).registered = true := by
    simp only [State.relayOf, State.uploaded]
    by_cases he : s.relayaddr down = s.relayaddr up
    · rw [he, Function.update_self]
      show (s.relay (s.relayaddr up)).registered = true
      rw [← he]
      exact hdown
    · rw [Function.update_of_ne he]
      exact hdown
  have hown : (s.uploaded up { u with Hdr := HDR.flatten }).relay (s.relayaddr up) =
      (s.relayOf up).store { u with Hdr := HDR.flatten } := Function.update_self ..
  have hserved : relayDownloadSRI (s.uploaded up { u with Hdr := HDR.flatten }) down (s.relayaddr up) =
      some (u.counter, HDR.flatten, u.encryptedSRI) := by
    rw [relayDownloadSRI, if_pos hreg, hown, if_pos ⟨hindex, hup⟩]
    rfl
  refine ⟨_, u.counter, RelayPy.hexlify HDR.flatten, RelayPy.hexlify u.encryptedSRI, hstored, ?_, ?_⟩
  · rw [RelayPy.relayDownloadSRIHelper, hserved]
    rfl
  · rw [findall130_hexlify hsize]
    exact bkemDecryptionHdr_hexlify hcount hsize malloced

/-- Two entries of different bytes. -/
theorem header_transport_lossless_two_entries :
    let HDR : List Bytes := [List.replicate 65 171, List.replicate 65 9]
    ∃ t counter Hdr enSRI,
      relayUploadHdr (fun text => base16DecodeLoop (text.drop 2)) 1 ((deploy 0).enrolled 1) (bkemEncryptionHdr HDR) {} = some t ∧
      RelayPy.relayDownloadSRIHelper 1 t 1 = .ok (counter, Hdr, enSRI) ∧
      bkemDecryptionHdr 1 (fun _ _ => 255) (RelayPy.findall130 Hdr) = some HDR :=
  header_transport_lossless (fun _ _ _ h => h) rfl (by simp [HdrSize]) rfl rfl (by decide) _ _

end Badnet.Directory
