/-
  Badnet.Encoding.Pem — PEM blocks (`lib/encoding/pem.c`) and the RSA public keys written
  as such (`crypto_pk_write_public_key_to_string` of `lib/crypt_ops/crypto_rsa.c`).

  RSA keys and their DER form belong to OpenSSL. `Rsa` has the functions the code calls on
  them and `Rsa.Lawful` what OpenSSL documents of these; everything around them is the
  code's.
-/

import Badnet.Encoding.Base64

namespace Badnet.Encoding

open Lib

/-! ## RSA keys -/

structure Rsa where
  Key : Type
  /-- `i2d_RSAPublicKey`. -/
  asn1Encode : Key → Bytes
  /-- `d2i_RSAPublicKey`, behind `crypto_pk_asn1_decode`. -/
  asn1Decode : Bytes → Option Key
  /-- `RSA_bits`, behind `crypto_pk_num_bits`. -/
  numBits : Key → Nat
  /-- `RSA_size`, behind `crypto_pk_keysize`. -/
  keysize : Key → Nat
  /-- `crypto_pk_public_exponent_ok`: the exponent is 65537. -/
  publicExponentOk : Key → Bool
  /-- `crypto_pk_key_is_private`: the prime factors are there. -/
  keyIsPrivate : Key → Bool

/-- Reading undoes writing; the modulus is counted in whole bytes; a 1024-bit modulus and
    the exponent 65537 make a DER sequence of 140 bytes. -/
structure Rsa.Lawful (rsa : Rsa) : Prop where
  decode_encode : ∀ k, rsa.keyIsPrivate k = false → rsa.asn1Decode (rsa.asn1Encode k) = some k
  keysize_eq : ∀ k, rsa.keysize k = (rsa.numBits k + 7) / 8
  length_encode : ∀ k, rsa.numBits k = 1024 → rsa.publicExponentOk k = true → (rsa.asn1Encode k).length = 140

/-! ## PEM -/

/-- `tor_snprintf` of a text: it fails when text and NUL do not fit. -/
def torSnprintf (size : Nat) (text : Text) : Option Text := if text.length ≥ size then none else some text

def dashes : Text := ['-', '-', '-', '-', '-']

def beginTag : Text := ['-', '-', '-', '-', '-', 'B', 'E', 'G', 'I', 'N', ' ']

def endTag : Text := ['-', '-', '-', '-', '-', 'E', 'N', 'D', ' ']

variable (objtype : Text)

def beginLine : Text := beginTag ++ objtype ++ dashes

def endLine : Text := endTag ++ objtype ++ dashes

def pemEncodedSize (srcLen : Nat) (objtype : Text) : Nat :=
  (beginLine [] ++ ['\n']).length + (endLine [] ++ ['\n']).length + objtype.length * 2 + base64EncodeSize srcLen true + 1

def pemEncode (destlen : Nat) (src : Bytes) (objtype : Text) : Option Text := do
  let head ← torSnprintf destlen (beginLine objtype ++ ['\n'])
  let body ← base64Encode (destlen - head.length) src true
  let offset := head.length + body.length
  if offset > destlen then none
  let foot ← torSnprintf (destlen - offset) (endLine objtype ++ ['\n'])
  return head ++ body ++ foot

def RSA_PUBLIC_TAG : Text := ['R', 'S', 'A', ' ', 'P', 'U', 'B', 'L', 'I', 'C', ' ', 'K', 'E', 'Y']

/-- `crypto_pk_asn1_encode` into a buffer of `destLen` bytes. -/
def cryptoPkAsn1Encode (rsa : Rsa) (k : rsa.Key) (destLen : Nat) : Option Bytes :=
  if (rsa.asn1Encode k).length > destLen then none else some (rsa.asn1Encode k)

/-- `PUBLIC_ASN_MAX_OVERHEAD_FACTOR` is 3. -/
def cryptoPkWritePublicKeyToString (rsa : Rsa) (k : rsa.Key) : Option Text := do
  let buf ← cryptoPkAsn1Encode rsa k (rsa.keysize k * 3)
  pemEncode (pemEncodedSize buf.length RSA_PUBLIC_TAG) buf RSA_PUBLIC_TAG

theorem length_beginLine : (beginLine objtype).length = objtype.length + 16 := by
  have h1 : beginTag.length = 11 := rfl
  have h2 : dashes.length = 5 := rfl
  rw [beginLine, List.length_append, List.length_append, h1, h2]
  omega

theorem length_endLine : (endLine objtype).length = objtype.length + 14 := by
  have h1 : endTag.length = 9 := rfl
  have h2 : dashes.length = 5 := rfl
  rw [endLine, List.length_append, List.length_append, h1, h2]
  omega

/-- A buffer of `pem_encoded_size` bytes holds the block. -/
theorem pemEncode_eq (src : Bytes) (objtype : Text) :
    pemEncode (pemEncodedSize src.length objtype) src objtype =
      some ((beginLine objtype ++ ['\n']) ++ encoded true src ++ (endLine objtype ++ ['\n'])) := by
  have hsize : pemEncodedSize src.length objtype =
      17 + 15 + objtype.length * 2 + base64EncodeSize src.length true + 1 := rfl
  have hhead : (beginLine objtype ++ ['\n']).length = objtype.length + 17 := by
    rw [List.length_append, length_beginLine]
    rfl
  have hfoot : (endLine objtype ++ ['\n']).length = objtype.length + 15 := by
    rw [List.length_append, length_endLine]
    rfl
  have hbody := length_encoded true src
  unfold pemEncode torSnprintf base64Encode
  rw [hsize, hhead, if_neg (by omega), Option.bind_eq_bind, Option.bind_some, hhead, if_neg (by omega), Option.bind_eq_bind,
    Option.bind_some, hbody]
  simp only
  rw [if_neg (by omega), hfoot, if_neg (by omega)]
  rfl

/-- A public 1024-bit key with the usual exponent is written. -/
theorem cryptoPkWritePublicKeyToString_eq {rsa : Rsa} (hr : rsa.Lawful) {k : rsa.Key} (hbits : rsa.numBits k = 1024)
    (he : rsa.publicExponentOk k = true) :
    cryptoPkWritePublicKeyToString rsa k = some ((beginLine RSA_PUBLIC_TAG ++ ['\n']) ++
      encoded true (rsa.asn1Encode k) ++ (endLine RSA_PUBLIC_TAG ++ ['\n'])) := by
  have hlen := hr.length_encode k hbits he
  have hkey : rsa.keysize k = 128 := by rw [hr.keysize_eq, hbits]
  unfold cryptoPkWritePublicKeyToString cryptoPkAsn1Encode
  rw [hkey, if_neg (by omega), Option.bind_eq_bind, Option.bind_some]
  exact pemEncode_eq _ _

end Badnet.Encoding
