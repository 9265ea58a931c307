/-
  Badnet.Dirparse.Sri — the router entry a relay uploads (`router_upload_descriptor_to_blockchain` of
  `feature/relay/router.c`) is the entry the consensus reader expects.

  Reading the entries of any relays behind each other gives them back in order (`sri_round_trip`): no line within an
  entry starts with `r ` or with the words that end a directory, because base64 has neither blanks nor dashes.
-/

import Badnet.Dirparse.Routerstatus

namespace Badnet.Dirparse

open Lib Encoding

/-! ## The writer -/

/-- An array of `n` bytes. -/
abbrev BytesN (n : Nat) := { bs : Bytes // bs.length = n }

/-- The fields of `routerinfo_t` that are uploaded; `onionPkey` is the DER form of the RSA
    onion key, `signingKey` that of `cache_info.signing_key_cert`. -/
structure RouterInfo where
  nickname : Text
  identityDigest : BytesN DIGEST_LEN
  ipv4Addr : UInt32
  ipv4Orport : UInt16
  onionPkey : Bytes
  onionCurve25519Pkey : BytesN 32
  signingKey : BytesN DIGEST256_LEN

section

variable (rsa : Rsa)

def routerGetRsaOnionPkey (pkey : Bytes) : Option rsa.Key := if pkey = [] then none else rsa.asn1Decode pkey

def digest256ToBase64 (digest : Bytes) : Option Text := base64EncodeNopad 256 digest

/-- `"r %s %s %s %u\n" "onion-key\n%s" "ntor-onion-key %s" "id ed25519 %s\n"`. -/
def sriFormat (nickname result addr port onionPkey kbuf edFp : Text) : Text :=
  ['r'] ++ [' '] ++ nickname ++ [' '] ++ result ++ [' '] ++ addr ++ [' '] ++ port ++ ['\n'] ++
    onionKeyword ++ ['\n'] ++ onionPkey ++
    ntorKeyword ++ [' '] ++ kbuf ++
    ['i', 'd'] ++ [' '] ++ ed25519Word ++ [' '] ++ edFp ++ ['\n']

section

variable (ri : RouterInfo)

/-- The text the relay hands to the upload; `none` where the code would use a NULL pointer,
    an unset buffer, or more than the 1024 bytes of `str`. -/
def sriEntry : Option Text := do
  let pubkey ← routerGetRsaOnionPkey rsa ri.onionPkey
  let onionPkey ← cryptoPkWritePublicKeyToString rsa pubkey
  let kbuf ← base64Encode 128 ri.onionCurve25519Pkey.1 true
  let edFp ← digest256ToBase64 ri.signingKey.1
  let result ← base64EncodeNopad (base64EncodeSize DIGEST_LEN false + 1) ri.identityDigest.1
  if result.length = 0 then none
  let str := sriFormat ri.nickname result (torInetNtoa ri.ipv4Addr) (decimal ri.ipv4Orport.toNat) onionPkey kbuf edFp
  if str.length ≥ 1024 then none else some str

/-- A record as relays have them: a legal nickname and a public 1024-bit onion key with
    the accepted exponent. -/
structure RouterInfo.Valid (ri : RouterInfo) : Prop where
  nickname : isLegalNickname ri.nickname = true
  onionPkey : ∃ k, ri.onionPkey = rsa.asn1Encode k ∧ rsa.keyIsPrivate k = false ∧ rsa.numBits k = 1024 ∧
    rsa.publicExponentOk k = true

/-- The entry a reader is to get. -/
def RouterInfo.status : RouterStatus where
  nickname := ri.nickname
  identityDigest := ri.identityDigest.1
  ipv4Addr := ri.ipv4Addr
  ipv4Orport := ri.ipv4Orport
  md := { onionPkey := ri.onionPkey, onionCurve25519Pkey := some ri.onionCurve25519Pkey.1,
          ed25519IdentityPkey := some ri.signingKey.1 }

/-! ## The lines of an entry -/

def RouterInfo.rWords : List Text :=
  [ri.nickname, symbols ri.identityDigest.1, torInetNtoa ri.ipv4Addr, decimal ri.ipv4Orport.toNat]

/-- The curve25519 key, padded. -/
def RouterInfo.ntorWord : Text :=
  symbols ri.onionCurve25519Pkey.1 ++ padding ri.onionCurve25519Pkey.1.length

def RouterInfo.idWords : List Text := [ed25519Word, symbols ri.signingKey.1]

/-- The text of an entry. -/
def RouterInfo.entry : Text :=
  ['r'] ++ blanked ri.rWords ++ '\n' :: (onionKeyword ++ blanked [] ++ '\n' :: (beginLine RSA_PUBLIC_TAG ++ '\n' ::
    (encoded true ri.onionPkey ++ (endLine RSA_PUBLIC_TAG ++ '\n' ::
      (ntorKeyword ++ blanked [ri.ntorWord] ++ '\n' :: (['i', 'd'] ++ blanked ri.idWords ++ '\n' :: []))))))

end

variable {rsa}

theorem length_decimal {n k : Nat} (hk : 0 < k) (h : n < 10 ^ k) : (decimal n).length ≤ k :=
  (Nat.length_toDigits_le_iff (by decide) hk).mpr h

theorem length_ntoa (a : UInt32) : (torInetNtoa a).length ≤ 15 := by
  have hoct : ∀ k, (decimal (octet a k)).length ≤ 3 := by
    intro k
    have : octet a k < 256 := Nat.mod_lt _ (by decide)
    exact length_decimal (by decide) (by omega)
  have h0 := hoct 0
  have h1 := hoct 1
  have h2 := hoct 2
  have h3 := hoct 3
  unfold torInetNtoa
  simp only [List.length_append, List.length_cons]
  omega

theorem nickname_length {s : Text} (h : isLegalNickname s = true) : 0 < s.length ∧ s.length ≤ 19 := by
  simp only [isLegalNickname, decide_eq_true_eq] at h
  exact ⟨h.1, h.2.1⟩

theorem length_port (p : UInt16) : (decimal p.toNat).length ≤ 5 := by
  have := p.toNat_lt
  exact length_decimal (by decide) (by omega)

section

variable (ri : RouterInfo)

theorem length_digest64 : (symbols ri.identityDigest.1).length = 27 := by
  rw [length_symbols, ri.identityDigest.2]
  rfl

theorem length_ed64 : (symbols ri.signingKey.1).length = 43 := by
  rw [length_symbols, ri.signingKey.2]
  rfl

theorem length_ntorWord : ri.ntorWord.length = 44 := by
  unfold RouterInfo.ntorWord
  rw [length_padded, ri.onionCurve25519Pkey.2]

theorem encoded_ntor : encoded true ri.onionCurve25519Pkey.1 = ri.ntorWord ++ ['\n'] := by
  have hlen := length_ntorWord ri
  have hne : ri.onionCurve25519Pkey.1 ≠ [] := by
    intro e
    have := ri.onionCurve25519Pkey.2
    rw [e] at this
    cases this
  unfold RouterInfo.ntorWord at hlen ⊢
  exact encoded_short hne (by omega)

theorem sriFormat_eq :
    sriFormat ri.nickname (symbols ri.identityDigest.1) (torInetNtoa ri.ipv4Addr) (decimal ri.ipv4Orport.toNat)
      ((beginLine RSA_PUBLIC_TAG ++ ['\n']) ++ encoded true ri.onionPkey ++ (endLine RSA_PUBLIC_TAG ++ ['\n']))
      (ri.ntorWord ++ ['\n']) (symbols ri.signingKey.1) = ri.entry := by
  unfold sriFormat RouterInfo.entry RouterInfo.rWords RouterInfo.idWords blanked
  generalize beginLine RSA_PUBLIC_TAG = first, encoded true ri.onionPkey = body, endLine RSA_PUBLIC_TAG = last,
    onionKeyword = onion, ntorKeyword = ntor, ed25519Word = ed, symbols ri.identityDigest.1 = digest,
    torInetNtoa ri.ipv4Addr = addr, decimal ri.ipv4Orport.toNat = port, ri.ntorWord = key, symbols ri.signingKey.1 = id
  simp only [List.flatMap_cons, List.flatMap_nil, List.append_assoc, List.append_nil, List.nil_append, List.cons_append]

end

variable {ri : RouterInfo} {rest : Text} {k : rsa.Key} {ls : List Text}

theorem length_rLine (hnick : ri.nickname.length ≤ 19) : (['r'] ++ blanked ri.rWords).length ≤ 71 := by
  have hport := length_port ri.ipv4Orport
  have haddr := length_ntoa ri.ipv4Addr
  simp only [RouterInfo.rWords, blanked, List.flatMap_cons, List.flatMap_nil, List.length_append, List.length_cons,
    List.length_nil, length_digest64]
  generalize (torInetNtoa ri.ipv4Addr).length = m, (decimal ri.ipv4Orport.toNat).length = k at *
  omega

theorem length_ntorLine (ri : RouterInfo) : (ntorKeyword ++ blanked [ri.ntorWord]).length = 59 := by
  have hkw : ntorKeyword.length = 14 := rfl
  simp only [blanked, List.flatMap_cons, List.flatMap_nil, List.length_append, List.length_cons, List.length_nil, hkw,
    length_ntorWord]

theorem length_idLine (ri : RouterInfo) : (['i', 'd'] ++ blanked ri.idWords).length = 54 := by
  have hword : ed25519Word.length = 7 := rfl
  simp only [RouterInfo.idWords, blanked, List.flatMap_cons, List.flatMap_nil, List.length_append, List.length_cons,
    List.length_nil, hword, length_ed64]

theorem length_entry (hnick : ri.nickname.length ≤ 19) (hder : ri.onionPkey.length = 140) :
    ri.entry.length < 1024 := by
  have hr := length_rLine hnick
  have hid := length_idLine ri
  have hntor := length_ntorLine ri
  have hbody : (encoded true ri.onionPkey).length = 191 := by rw [length_encoded, hder]; rfl
  have hbegin : (beginLine RSA_PUBLIC_TAG).length = 30 := rfl
  have hend : (endLine RSA_PUBLIC_TAG).length = 28 := rfl
  have hkw : (onionKeyword ++ blanked []).length = 9 := rfl
  unfold RouterInfo.entry
  generalize ['r'] ++ blanked ri.rWords = l1, onionKeyword ++ blanked [] = l2, beginLine RSA_PUBLIC_TAG = l3,
    encoded true ri.onionPkey = l4, endLine RSA_PUBLIC_TAG = l5, ntorKeyword ++ blanked [ri.ntorWord] = l6,
    ['i', 'd'] ++ blanked ri.idWords = l7 at *
  simp only [List.length_append, List.length_cons, List.length_nil]
  omega

/-- The PEM form of the onion key, the padded and the unpadded keys fill the format. -/
theorem sriEntry_eq (hr : rsa.Lawful) (hv : ri.Valid rsa) : sriEntry rsa ri = some ri.entry := by
  obtain ⟨k, hk, hpublic, hbits, he⟩ := hv.onionPkey
  have hder : ri.onionPkey.length = 140 := by rw [hk]; exact hr.length_encode k hbits he
  have hne : ri.onionPkey ≠ [] := fun e => absurd hder (by rw [e]; decide)
  have hget : routerGetRsaOnionPkey rsa ri.onionPkey = some k := by
    rw [routerGetRsaOnionPkey, if_neg hne, hk]
    exact hr.decode_encode k hpublic
  have hkbuf : base64Encode 128 ri.onionCurve25519Pkey.1 true = some (ri.ntorWord ++ ['\n']) := by
    rw [base64Encode, ri.onionCurve25519Pkey.2, if_neg (by decide), encoded_ntor]
  have hed : digest256ToBase64 ri.signingKey.1 = some (symbols ri.signingKey.1) :=
    base64EncodeNopad_eq (by rw [ri.signingKey.2]; decide)
  have hdigest : base64EncodeNopad (base64EncodeSize DIGEST_LEN false + 1) ri.identityDigest.1 =
      some (symbols ri.identityDigest.1) := base64EncodeNopad_eq (by rw [ri.identityDigest.2]; decide)
  have hpos : (symbols ri.identityDigest.1).length ≠ 0 := by
    rw [length_symbols, ri.identityDigest.2]
    decide
  have hpem := cryptoPkWritePublicKeyToString_eq hr hbits he
  rw [← hk] at hpem
  have hfits : ¬ ri.entry.length ≥ 1024 := Nat.not_le_of_lt (length_entry (nickname_length hv.nickname).2 hder)
  unfold sriEntry
  simp only [hget, hpem, hkbuf, hed, hdigest, Option.bind_eq_bind, Option.bind_some, hpos, if_false, sriFormat_eq, hfits]

/-! ## Words -/

theorem isWordChar_of {p : Char → Bool} {c : Char} (hc : p c = true)
    (hp : ['\x00', '#', ' ', '\r', '\n', '\t'].any p = false) : isWordChar c = true := by
  by_contra hw
  simp only [isWordChar, decide_eq_true_eq, not_not] at hw
  have hmem : c ∈ ['\x00', '#', ' ', '\r', '\n', '\t'] := by simpa using hw
  exact List.any_eq_false.mp hp c hmem hc

theorem isWordChar_base64 : ∀ c ∈ '=' :: base64EncodeTable, isWordChar c = true := List.all_eq_true.mp (by decide)

theorem word_symbols {bs : Bytes} (h : bs ≠ []) : Word (symbols bs) where
  ne_nil := by
    have hpos := List.length_pos_of_ne_nil h
    intro e
    have hlen := length_symbols bs
    rw [e, List.length_nil] at hlen
    omega
  chars := fun c hc => isWordChar_base64 c (mem_padded (List.mem_append_left _ hc))

theorem word_ntor (ri : RouterInfo) : Word ri.ntorWord where
  ne_nil := fun e => absurd (length_ntorWord ri) (by rw [e]; decide)
  chars := fun c hc => isWordChar_base64 c (mem_padded hc)

theorem word_decimal (n : Nat) : Word (decimal n) where
  ne_nil := decimal_ne_nil n
  chars := fun c hc => isWordChar_of (isDigit_decimal c hc) (by decide)

theorem word_ntoa (a : UInt32) : Word (torInetNtoa a) where
  ne_nil := by simp [torInetNtoa]
  chars := by
    intro c hc
    have hdec : ∀ {n : Nat}, c ∈ decimal n → isWordChar c = true := fun h => (word_decimal _).chars c h
    have hdot : c = '.' → isWordChar c = true := fun e => by rw [e]; decide
    simp only [torInetNtoa, List.mem_append, List.mem_cons] at hc
    rcases hc with h | h | h | h | h | h | h
    · exact hdec h
    · exact hdot h
    · exact hdec h
    · exact hdot h
    · exact hdec h
    · exact hdot h
    · exact hdec h

theorem word_nickname {s : Text} (h : isLegalNickname s = true) : Word s where
  ne_nil := List.ne_nil_of_length_pos (nickname_length h).1
  chars := by
    simp only [isLegalNickname, decide_eq_true_eq] at h
    intro c hc
    have hchar : isNicknameChar c = true := List.all_eq_true.mp h.2.2 c hc
    exact isWordChar_of hchar (by decide)

theorem word_rWords (h : isLegalNickname ri.nickname = true) : ∀ w ∈ ri.rWords, Word w := by
  have hdigest : ri.identityDigest.1 ≠ [] := fun e => absurd ri.identityDigest.2 (by rw [e]; decide)
  intro w hw
  simp only [RouterInfo.rWords, List.mem_cons, List.not_mem_nil, or_false] at hw
  rcases hw with rfl | rfl | rfl | rfl
  · exact word_nickname h
  · exact word_symbols hdigest
  · exact word_ntoa _
  · exact word_decimal _

theorem word_idWords (ri : RouterInfo) : ∀ w ∈ ri.idWords, Word w := by
  have hkey : ri.signingKey.1 ≠ [] := fun e => absurd ri.signingKey.2 (by rw [e]; decide)
  intro w hw
  simp only [RouterInfo.idWords, List.mem_cons, List.not_mem_nil, or_false] at hw
  rcases hw with rfl | rfl
  · exact ⟨by decide, List.all_eq_true.mp (by decide)⟩
  · exact word_symbols hkey

/-! ## Tokens of an entry -/

theorem admits_r (h : isLegalNickname ri.nickname = true) : Admits rtrstatusTokenTable rRule ['r'] ri.rWords where
  find := rfl
  concat := rfl
  keyword := ⟨by decide, List.all_eq_true.mp (by decide)⟩
  opt := by decide
  words := word_rWords h
  minArgs := show 4 ≤ 4 by decide
  maxArgs := show 4 ≤ INT_MAX by decide
  maxWords := show 4 ≤ MAX_ARGS by decide
  length := le_trans (length_rLine (nickname_length h).2) (by decide)

theorem admits_onionKey : Admits rtrstatusTokenTable onionKeyRule onionKeyword [] where
  find := rfl
  concat := rfl
  keyword := ⟨by decide, List.all_eq_true.mp (by decide)⟩
  opt := by decide
  words := nofun
  minArgs := by decide
  maxArgs := by decide
  maxWords := by decide
  length := by decide

theorem admits_ntor (ri : RouterInfo) : Admits rtrstatusTokenTable ntorKeyRule ntorKeyword [ri.ntorWord] where
  find := rfl
  concat := rfl
  keyword := ⟨by decide, List.all_eq_true.mp (by decide)⟩
  opt := by decide
  words := fun w hw => by rw [List.mem_singleton.mp hw]; exact word_ntor ri
  minArgs := show 1 ≤ 1 by decide
  maxArgs := show 1 ≤ INT_MAX by decide
  maxWords := show 1 ≤ MAX_ARGS by decide
  length := le_trans (le_of_eq (length_ntorLine ri)) (by decide)

theorem admits_id (ri : RouterInfo) : Admits rtrstatusTokenTable idRule ['i', 'd'] ri.idWords where
  find := rfl
  concat := rfl
  keyword := ⟨by decide, List.all_eq_true.mp (by decide)⟩
  opt := by decide
  words := word_idWords ri
  minArgs := show 2 ≤ 2 by decide
  maxArgs := show 2 ≤ INT_MAX by decide
  maxWords := show 2 ≤ MAX_ARGS by decide
  length := le_trans (le_of_eq (length_idLine ri)) (by decide)

/-- The characters of the base64 body of a key. -/
theorem mem_encoded {bs : Bytes} {c : Char} (h : c ∈ encoded true bs) : c ∈ '\n' :: '=' :: base64EncodeTable := by
  obtain ⟨ls, hls, hflat, -, -⟩ := encoded_multiline bs
  rw [hls] at h
  obtain ⟨l, hl, h⟩ := List.mem_flatMap.mp h
  rcases List.mem_append.mp h with h | h
  · exact List.mem_cons_of_mem _ (mem_padded (hflat ▸ List.mem_flatten_of_mem hl h))
  · rw [List.mem_singleton.mp h]
    exact List.mem_cons_self

variable (rsa)

/-- What the four items of an entry are read as. -/
def RouterInfo.tokens (ri : RouterInfo) (k : rsa.Key) : List (Token rsa) :=
  [{ tp := .K_R, args := ri.rWords },
   { tp := .K_ONION_KEY, args := [], objectType := some RSA_PUBLIC_TAG, objectBody := some ri.onionPkey, key := some k },
   { tp := .K_ONION_KEY_NTOR, args := [ri.ntorWord] },
   { tp := .K_ID, args := ri.idWords }]

variable {rsa}

/-- A line, then text whose first character does not start an object. -/
theorem tokenizeLoop_line {r : TokenRule} {kw : Text} {ws : List Text} (h : Admits rtrstatusTokenTable r kw ws)
    (hos : r.os = .NO_OBJ) (hrest : ∀ c ∈ rest.head?, isWordChar c = true ∧ c ≠ '-') :
    tokenizeLoop rsa rtrstatusTokenTable (kw ++ blanked ws ++ '\n' :: rest) =
      (tokenizeLoop rsa rtrstatusTokenTable rest).map ({ tp := r.v, args := ws } :: ·) := by
  have hword : ∀ c ∈ rest.head?, isWordChar c = true := fun c hc => (hrest c hc).1
  have hobj : ¬ beginTag <+: rest := by
    rintro ⟨t, rfl⟩
    exact (hrest '-' rfl).2 rfl
  rw [tokenizeLoop_cons (getNextToken_line h hos hword hobj), eatWhitespaceEos_word hword]

theorem head_line {kw : Text} (hkw : Word kw) (hdash : '-' ∉ kw.head?) (args rest : Text) :
    ∀ c ∈ (kw ++ args ++ rest).head?, isWordChar c = true ∧ c ≠ '-' := by
  intro c hc
  rw [List.append_assoc, List.head?_append_of_ne_nil _ hkw.ne_nil] at hc
  exact ⟨hkw.chars c (List.mem_of_mem_head? hc), fun e => hdash (e ▸ hc)⟩

theorem tokenizeLoop_entry (hnick : isLegalNickname ri.nickname = true)
    (hlen : ri.onionPkey.length = 140) (hder : rsa.asn1Decode ri.onionPkey = some k)
    (hbits : rsa.numBits k = 1024) (hpublic : rsa.keyIsPrivate k = false) :
    tokenizeLoop rsa rtrstatusTokenTable ri.entry = .ok (ri.tokens rsa k) := by
  have hsize : (encoded true ri.onionPkey).length = 191 := by rw [length_encoded, hlen]; rfl
  have hdash : '-' ∉ encoded true ri.onionPkey := fun h => absurd (mem_encoded h) (by decide)
  have hbody : base64Decode (base64DecodeMaxsize (encoded true ri.onionPkey).length) (encoded true ri.onionPkey) =
      some ri.onionPkey := by
    rw [hsize]
    exact base64Decode_encode (by decide) (by rw [hlen]; decide) true
  have hkey := fun rest => getNextToken_key admits_onionKey rfl hdash (by rw [hsize]; decide) hbody hder hbits hpublic rest
  have hafter : ∀ args rest : Text, eatWhitespaceEos ('\n' :: (ntorKeyword ++ args ++ rest)) = ntorKeyword ++ args ++ rest := by
    intro args rest
    exact eatWhitespaceEos_word fun c hc => (head_line (admits_ntor ri).keyword (by decide) args rest c hc).1
  unfold RouterInfo.entry
  rw [tokenizeLoop_line (admits_r hnick) rfl (head_line admits_onionKey.keyword (by decide) _ _),
    tokenizeLoop_cons (hkey _), hafter,
    tokenizeLoop_line (admits_ntor ri) rfl (head_line (admits_id ri).keyword (by decide) _ _),
    tokenizeLoop_line (admits_id ri) rfl fun c hc => (by cases hc), tokenizeLoop_nil]
  rfl

/-- No character of an entry is a NUL. -/
theorem nul_notMem_entry (hnick : isLegalNickname ri.nickname = true) : '\x00' ∉ ri.entry := by
  have hblanked : ∀ {ws : List Text}, (∀ w ∈ ws, Word w) → '\x00' ∉ blanked ws := by
    intro ws hws h
    obtain ⟨w, hw, h⟩ := List.mem_flatMap.mp h
    rcases List.mem_cons.mp h with h | h
    · exact absurd h (by decide)
    · exact absurd ((hws w hw).chars _ h) (by decide)
  have hbody : '\x00' ∉ encoded true ri.onionPkey := fun h => absurd (mem_encoded h) (by decide)
  have happ : ∀ {l s : Text}, '\x00' ∉ l → '\x00' ∉ s → '\x00' ∉ l ++ s := by
    intro l s hl hs h
    rcases List.mem_append.mp h with h | h
    · exact hl h
    · exact hs h
  have hline : ∀ {l s : Text}, '\x00' ∉ l → '\x00' ∉ s → '\x00' ∉ l ++ '\n' :: s :=
    fun hl hs => happ hl (List.not_mem_cons_of_ne_of_not_mem (by decide) hs)
  have hid := hline (happ (l := ['i', 'd']) (by decide) (hblanked (word_idWords ri))) (List.not_mem_nil (a := '\x00'))
  have hntor := hline (happ (l := ntorKeyword) (by decide) (hblanked (admits_ntor ri).words)) hid
  have hkey := happ hbody (hline (l := endLine RSA_PUBLIC_TAG) (by decide) hntor)
  have honion := hline (l := onionKeyword ++ blanked []) (by decide) (hline (l := beginLine RSA_PUBLIC_TAG) (by decide) hkey)
  exact hline (happ (l := ['r']) (by decide) (hblanked (word_rWords hnick))) honion

theorem tokenizeString_entry (hnick : isLegalNickname ri.nickname = true)
    (hlen : ri.onionPkey.length = 140) (hder : rsa.asn1Decode ri.onionPkey = some k)
    (hbits : rsa.numBits k = 1024) (hpublic : rsa.keyIsPrivate k = false) :
    tokenizeString rsa rtrstatusTokenTable ri.entry = .ok (ri.tokens rsa k) := by
  unfold tokenizeString
  rw [if_neg (nul_notMem_entry hnick), tokenizeLoop_entry hnick hlen hder hbits hpublic]
  rfl

/-! ## Where an entry ends -/

/-- The lines after the `r` line; `ls` are those of the key. -/
def RouterInfo.restLines (ri : RouterInfo) (ls : List Text) : List Text :=
  [onionKeyword ++ blanked [], beginLine RSA_PUBLIC_TAG] ++ ls ++
    [endLine RSA_PUBLIC_TAG, ntorKeyword ++ blanked [ri.ntorWord], ['i', 'd'] ++ blanked ri.idWords]

theorem entry_unlines (h : encoded true ri.onionPkey = unlines '\n' ls) :
    ri.entry = unlines '\n' ((['r'] ++ blanked ri.rWords) :: ri.restLines ls) := by
  unfold RouterInfo.entry RouterInfo.restLines
  rw [h]
  simp only [List.cons_append, List.nil_append, unlines_cons, unlines_append, unlines_nil]

/-- What `find_start_of_next_routerstatus` looks for at the start of a line. -/
def entryEnds : List Text := [['r', ' '], directoryFooter, directorySignature]

/-- A line of base64 has neither blanks nor dashes, the others start with another letter. -/
theorem restLines_start (hls : ∀ l ∈ ls, ∀ c ∈ l, c ∈ '=' :: base64EncodeTable)
    {needle : Text} (hneedle : needle ∈ entryEnds) : ∀ l ∈ ri.restLines ls, ¬ needle <+: l := by
  have hhead : ∀ n ∈ entryEnds, n.head? = some 'r' ∨ n.head? = some 'd' := by decide
  have hforeign : ∀ n ∈ entryEnds, n.any (fun c => c ∉ '=' :: base64EncodeTable) = true := by decide
  have hother : ∀ {c : Char} {l : Text}, c ≠ 'r' → c ≠ 'd' → ¬ needle <+: c :: l := by
    intro c l hr hd hp
    cases needle with
    | nil => exact absurd (hhead _ hneedle) (by decide)
    | cons d needle =>
      have hdc := (List.cons_prefix_cons.mp hp).1
      rcases hhead _ hneedle with h | h
      · exact hr (hdc ▸ Option.some.inj h)
      · exact hd (hdc ▸ Option.some.inj h)
  intro l hl
  unfold RouterInfo.restLines at hl
  rcases List.mem_append.mp hl with hl | hl
  · rcases List.mem_append.mp hl with hl | hl
    · rcases List.mem_pair.mp hl with rfl | rfl
      · exact hother (by decide) (by decide)
      · exact hother (by decide) (by decide)
    · obtain ⟨c, hc, hout⟩ := List.any_eq_true.mp (hforeign _ hneedle)
      exact fun hp => of_decide_eq_true hout (hls l hl c (hp.subset hc))
  · simp only [List.mem_cons, List.not_mem_nil, or_false] at hl
    rcases hl with rfl | rfl | rfl
    · exact hother (by decide) (by decide)
    · exact hother (by decide) (by decide)
    · exact hother (by decide) (by decide)

theorem newline_notMem_lines (hnick : isLegalNickname ri.nickname = true)
    (hls : ∀ l ∈ ls, ∀ c ∈ l, c ∈ '=' :: base64EncodeTable) :
    ∀ l ∈ (['r'] ++ blanked ri.rWords) :: ri.restLines ls, '\n' ∉ l := by
  intro l hl
  unfold RouterInfo.restLines at hl
  rcases List.mem_cons.mp hl with rfl | hl
  · exact (admits_r hnick).newline_notMem
  · rcases List.mem_append.mp hl with hl | hl
    · rcases List.mem_append.mp hl with hl | hl
      · rcases List.mem_pair.mp hl with rfl | rfl
        · decide
        · decide
      · exact fun h => absurd (hls l hl _ h) (by decide)
    · simp only [List.mem_cons, List.not_mem_nil, or_false] at hl
      rcases hl with rfl | rfl | rfl
      · decide
      · exact (admits_ntor ri).newline_notMem
      · exact (admits_id ri).newline_notMem

theorem search_entry (hnick : isLegalNickname ri.nickname = true) {needle : Text}
    (hneedle : needle ∈ entryEnds) (rest : Text) :
    search ('\n' :: needle) (ri.entry ++ rest) =
      if needle <+: rest then some (ri.entry.length - 1)
      else (search ('\n' :: needle) rest).map (· + ri.entry.length) := by
  obtain ⟨ls, hls, hflat, -, -⟩ := encoded_multiline ri.onionPkey
  have hchars : ∀ l ∈ ls, ∀ c ∈ l, c ∈ '=' :: base64EncodeTable := by
    intro l hl c hc
    exact mem_padded (hflat ▸ List.mem_flatten_of_mem hl hc)
  have hnl : ∀ n ∈ entryEnds, '\n' ∉ n := by decide
  rw [entry_unlines hls]
  exact search_unlines (hnl _ hneedle) rest _ _ (newline_notMem_lines hnick hchars) (restLines_start hchars hneedle)

theorem findStart_entry (hnick : isLegalNickname ri.nickname = true)
    (hrest : rest = [] ∨ ['r', ' '] <+: rest) : findStartOfNextRouterstatus (ri.entry ++ rest) = ri.entry.length := by
  have hpos : ri.entry.length - 1 + 1 = ri.entry.length := Nat.sub_add_cancel (Nat.succ_pos _)
  have hnone : ∀ needle ∈ entryEnds, search ('\n' :: needle) ri.entry = none := by
    intro needle hneedle
    have hne : ∀ n ∈ entryEnds, ¬ n <+: [] := by decide
    have h := search_entry hnick hneedle []
    rw [if_neg (hne _ hneedle), List.append_nil] at h
    exact h
  have hfooter := hnone directoryFooter (by decide)
  have hsig := hnone directorySignature (by decide)
  unfold findStartOfNextRouterstatus
  rcases hrest with rfl | hrest
  · rw [List.append_nil, hnone ['r', ' '] (by decide)]
    simp only [List.take_length, hfooter, hsig]
  · rw [search_entry hnick (by decide) rest, if_pos hrest]
    simp only [hpos, List.take_left, hfooter, hsig]

/-! ## Reading the tokens -/

theorem digestFromBase64_symbols {n : Nat} (hn : n ≤ INT_MAX) (bs : BytesN n) :
    digestFromBase64 n (symbols bs.1) = some bs.1 := by
  unfold digestFromBase64
  rw [base64Decode_nopad hn (le_of_eq bs.2)]
  exact Option.filter_some_pos (by simpa using bs.2)

theorem curve25519_ntorWord (ri : RouterInfo) :
    curve25519PublicFromBase64 ri.ntorWord = some ri.onionCurve25519Pkey.1 := by
  have hdecode : base64Decode (CURVE25519_BASE64_PADDED_LEN + 1) ri.ntorWord = some ri.onionCurve25519Pkey.1 :=
    base64Decode_symbols (by decide) (by rw [ri.onionCurve25519Pkey.2]; decide) (head_padding _)
  unfold curve25519PublicFromBase64
  rw [length_ntorWord, if_neg (by decide), if_pos (by decide), hdecode]
  exact Option.filter_some_pos (by simpa using ri.onionCurve25519Pkey.2)

theorem microdescOf_tokens (he : rsa.publicExponentOk k = true) :
    microdescOf rsa (ri.tokens rsa k) = .ok ri.status.md := by
  have hid : ed25519PublicFromBase64 (symbols ri.signingKey.1) = some ri.signingKey.1 :=
    digestFromBase64_symbols (by decide) ri.signingKey
  unfold microdescOf
  simp [RouterInfo.tokens, findByKeyword, he, ok_bind, curve25519_ntorWord, idLine, RouterInfo.idWords, hid, RouterInfo.status]

theorem routerstatusOf_tokens (hnick : isLegalNickname ri.nickname = true)
    (he : rsa.publicExponentOk k = true) : routerstatusOf rsa .MICRODESC (ri.tokens rsa k) = .ok ri.status := by
  have hdigest : digestFromBase64 DIGEST_LEN (symbols ri.identityDigest.1) = some ri.identityDigest.1 :=
    digestFromBase64_symbols (by decide) ri.identityDigest
  have hport : torParseLong (decimal ri.ipv4Orport.toNat) 0 65535 = some (ri.ipv4Orport.toNat : Int) := by
    have := ri.ipv4Orport.toNat_lt
    exact torParseLong_decimal (by omega) (by unfold LONG_MAX; omega)
  have htake : ri.nickname.take MAX_NICKNAME_LEN = ri.nickname := List.take_of_length_le (nickname_length hnick).2
  have htok : findByKeyword rsa (ri.tokens rsa k) .K_R = .ok { tp := .K_R, args := ri.rWords } := rfl
  have hmd : microdescOf rsa (ri.tokens rsa k) = .ok ri.status.md := microdescOf_tokens he
  have hlen : ¬ (ri.tokens rsa k).length < 1 := by simp [RouterInfo.tokens]
  unfold routerstatusOf
  rw [htok, hmd, if_neg hlen]
  simp [ok_bind, RouterInfo.rWords, hnick, hdigest, torInetAton_ntoa, hport, htake, RouterInfo.status]

/-! ## Reading the entries -/

/-- An entry at the start of a text is read, and the text after it is left. -/
theorem routerstatusParse_entry (hr : rsa.Lawful) (hv : ri.Valid rsa) (hrest : rest = [] ∨ ['r', ' '] <+: rest) :
    routerstatusParseEntryFromString rsa (ri.entry ++ rest) 29 .MICRODESC = (.ok ri.status, rest) := by
  obtain ⟨k, hk, hpublic, hbits, he⟩ := hv.onionPkey
  have hlen : ri.onionPkey.length = 140 := by rw [hk]; exact hr.length_encode k hbits he
  have hder : rsa.asn1Decode ri.onionPkey = some k := by rw [hk]; exact hr.decode_encode k hpublic
  unfold routerstatusParseEntryFromString
  simp only [findStart_entry hv.nickname hrest, List.take_left, List.drop_left]
  rw [tokenizeString_entry hv.nickname hlen hder hbits hpublic, if_neg (by decide)]
  simp only [routerstatusOf_tokens hv.nickname he]

theorem entry_starts (ri : RouterInfo) (rest : Text) : ['r', ' '] <+: ri.entry ++ rest := ⟨_, rfl⟩

theorem entries_start (ris : List RouterInfo) : ris.flatMap RouterInfo.entry = [] ∨ ['r', ' '] <+: ris.flatMap RouterInfo.entry := by
  cases ris with
  | nil => exact .inl rfl
  | cons ri ris => exact .inr (entry_starts ri _)

/-- One record after the other. -/
theorem routerstatusLoop_entries (hr : rsa.Lawful) {ris : List RouterInfo} (hv : ∀ ri ∈ ris, ri.Valid rsa) :
    routerstatusLoop rsa 29 .MICRODESC (ris.flatMap RouterInfo.entry) = .ok (ris.map RouterInfo.status) := by
  induction ris with
  | nil =>
    rw [routerstatusLoop, dif_neg (by decide)]
    rfl
  | cons ri ris ih =>
    have hentry := routerstatusParse_entry hr (hv ri List.mem_cons_self) (entries_start ris)
    have ih := ih fun x hx => hv x (List.mem_cons_of_mem _ hx)
    rw [List.flatMap_cons, routerstatusLoop, dif_pos (entry_starts ri _)]
    simp only [hentry, ih]
    rfl

theorem mapM_sriEntry (hr : rsa.Lawful) {ris : List RouterInfo} (hv : ∀ ri ∈ ris, ri.Valid rsa) :
    ris.mapM (sriEntry rsa) = some (ris.map RouterInfo.entry) := by
  induction ris with
  | nil => rfl
  | cons ri ris ih =>
    rw [List.mapM_cons, sriEntry_eq hr (hv ri List.mem_cons_self), ih fun x hx => hv x (List.mem_cons_of_mem _ hx)]
    rfl

/-- The entries that relays print, behind each other, are a consensus, and reading it gives
    the records back in order. -/
theorem sri_round_trip (rsa : Rsa) (hr : rsa.Lawful) (ris : List RouterInfo) (hv : ∀ ri ∈ ris, ri.Valid rsa) :
    ∃ texts, ris.mapM (sriEntry rsa) = some texts ∧
      ∃ ns, networkstatusParseVoteFromString rsa texts.flatten .CONSENSUS = .ok ns ∧
        ns.routerstatusList = ris.map RouterInfo.status := by
  refine ⟨ris.map RouterInfo.entry, mapM_sriEntry hr hv, ?_⟩
  rw [← List.flatMap_def, networkstatusParse_eq, routerstatusLoop_entries hr hv]
  exact ⟨_, rfl, rfl⟩

/-- DER of public keys with a modulus of 128 bytes, the highest bit set, and the exponent
    65537. -/
def derFirst : Bytes := [0x30, 0x81, 0x89, 0x02, 0x81, 0x81, 0x00]

def derLast : Bytes := [0x02, 0x03, 0x01, 0x00, 0x01]

def IsModulus (m : Bytes) : Prop := m.length = 128 ∧ ∃ b ∈ m.head?, (128 : UInt8) ≤ b

instance (m : Bytes) : Decidable (IsModulus m) := inferInstanceAs (Decidable (_ ∧ _))

/-- OpenSSL on these keys. -/
def rsa1024 : Rsa where
  Key := { m : Bytes // IsModulus m }
  asn1Encode := fun k => derFirst ++ k.1 ++ derLast
  asn1Decode := fun der =>
    if h : der = derFirst ++ (der.drop 7).take 128 ++ derLast ∧ IsModulus ((der.drop 7).take 128) then
      some ⟨(der.drop 7).take 128, h.2⟩
    else none
  numBits := fun _ => 1024
  keysize := fun _ => 128
  publicExponentOk := fun _ => true
  keyIsPrivate := fun _ => false

theorem rsa1024_lawful : rsa1024.Lawful where
  decode_encode := by
    intro k _
    have hlen : k.1.length = 128 := k.2.1
    have hm : ((derFirst ++ k.1 ++ derLast).drop 7).take 128 = k.1 := by
      rw [List.append_assoc]
      show (k.1 ++ derLast).take 128 = k.1
      rw [← hlen, List.take_left]
    have hmodulus : IsModulus (((derFirst ++ k.1 ++ derLast).drop 7).take 128) := by
      rw [hm]
      exact k.2
    have hder : derFirst ++ k.1 ++ derLast =
        derFirst ++ ((derFirst ++ k.1 ++ derLast).drop 7).take 128 ++ derLast := by rw [hm]
    exact (dif_pos ⟨hder, hmodulus⟩).trans (congrArg some (Subtype.ext hm))
  keysize_eq := fun _ => show 128 = (1024 + 7) / 8 from rfl
  length_encode := by
    intro k _ _
    have hlen : k.1.length = 128 := k.2.1
    show (derFirst ++ k.1 ++ derLast).length = 140
    rw [List.length_append, List.length_append, hlen]
    rfl

def relayRecord (nickname : Text) (port : UInt16) : RouterInfo where
  nickname := nickname
  identityDigest := ⟨List.replicate 20 0xa7, rfl⟩
  ipv4Addr := 0xc0000201
  ipv4Orport := port
  onionPkey := derFirst ++ List.replicate 128 0xd3 ++ derLast
  onionCurve25519Pkey := ⟨List.replicate 32 0x5c, rfl⟩
  signingKey := ⟨List.replicate 32 0x1f, rfl⟩

theorem sri_round_trip_two_relays :
    ∃ texts, [relayRecord ['r'] 9001, relayRecord ['d', 'i', 'r', '2'] 443].mapM (sriEntry rsa1024) = some texts ∧
      ∃ ns, networkstatusParseVoteFromString rsa1024 texts.flatten .CONSENSUS = .ok ns ∧
        ns.routerstatusList = [relayRecord ['r'] 9001, relayRecord ['d', 'i', 'r', '2'] 443].map RouterInfo.status := by
  have hkey : ∃ k : rsa1024.Key, derFirst ++ List.replicate 128 0xd3 ++ derLast = rsa1024.asn1Encode k :=
    ⟨⟨List.replicate 128 0xd3, List.length_replicate, 0xd3, rfl, by decide⟩, rfl⟩
  obtain ⟨k, hk⟩ := hkey
  refine sri_round_trip rsa1024 rsa1024_lawful _ fun ri hri => ?_
  rcases List.mem_pair.mp hri with rfl | rfl
  · exact ⟨by decide, k, hk, rfl, rfl, rfl⟩
  · exact ⟨by decide, k, hk, rfl, rfl, rfl⟩

end

end Badnet.Dirparse
