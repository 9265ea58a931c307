/-
  Badnet.Socks.Handling — what handling a message depends on.

  For SOCKS5 messages more bytes change nothing once `parse_socks` has said something else than truncated
  (`parseSocks_append`), and 513 bytes are always enough. A SOCKS4 request that is not complete within 512 bytes is
  invalid, and so is a SOCKS4a request with more than 256 bytes behind its username, whatever these are
  (`handleSocks4_ok`).
-/

import Badnet.Socks.ProtoSocks

namespace Badnet.Socks

open Lib Net Encoding

variable {set : Settings} {req : SocksRequest} {d more rest : List UInt8}

/-! ## SOCKS5 messages -/

theorem drain_append (d rest more : List UInt8) : (d ++ more).length - (rest ++ more).length = d.length - rest.length := by
  simp only [List.length_append]
  omega

theorem handleSocks5UserpassAuth_append (h : (handleSocks5UserpassAuth d req).res ≠ .TRUNCATED) (more : List UInt8) :
    handleSocks5UserpassAuth (d ++ more) req = handleSocks5UserpassAuth d req := by
  unfold handleSocks5UserpassAuth parseSocks5UserpassAuth at h ⊢
  rcases hread : socks5ClientUserpassAuthParse d with (_ | _) | ⟨t, rest⟩
  · simp [hread] at h
  · rw [socks5ClientUserpassAuthParse_steady.bad hread more]
  · rw [socks5ClientUserpassAuthParse_steady.append hread more]
    simp only [drain_append]

theorem handleSocks5Methods_append (h : (handleSocks5Methods d req).res ≠ .TRUNCATED) (more : List UInt8) :
    handleSocks5Methods (d ++ more) req = handleSocks5Methods d req := by
  unfold handleSocks5Methods parseSocks5MethodsRequest at h ⊢
  rcases hread : socks5ClientVersionParse d with (_ | _) | ⟨t, rest⟩
  · have hlen := socks5ClientVersionParse_within.short hread
    have hmax : ¬ d.length > MAX_SOCKS_MESSAGE_LEN := fun hgt => absurd (Nat.lt_trans hgt hlen) (by decide)
    simp [hread, hmax] at h
  · rw [socks5ClientVersionParse_steady.bad hread more]
  · rw [socks5ClientVersionParse_steady.append hread more]
    simp only [drain_append]

theorem handleSocks5ClientRequest_append (h : (handleSocks5ClientRequest set d req).res ≠ .TRUNCATED) (more : List UInt8) :
    handleSocks5ClientRequest set (d ++ more) req = handleSocks5ClientRequest set d req := by
  unfold handleSocks5ClientRequest parseSocks5ClientRequest at h ⊢
  rcases hread : socks5ClientRequestParse d with (_ | _) | ⟨t, rest⟩
  · simp [hread] at h
  · rw [socks5ClientRequestParse_steady.bad hread more]
  · rw [socks5ClientRequestParse_steady.append hread more]
    simp only [drain_append]

/-! ## Which message -/

theorem parseSocks_socks4 (hd : 2 ≤ d.length) (hfirst : d.head? = some SOCKS_VER_4) :
    parseSocks set d req =
      if d.length < SOCKS4_NETWORK_LEN then ⟨.TRUNCATED, req, 0, none⟩ else handleSocks4 set d req := by
  have hversion : (if d.head? = some SOCKS_AUTH then some SOCKS_VER_5 else d.head?) = some SOCKS_VER_4 := by
    rw [hfirst]
    decide
  rw [parseSocks, if_neg (Nat.not_lt.mpr hd), if_pos (.inr (.inl hfirst)), handleSocksMessage]
  simp only [hversion, if_true]

theorem parseSocks_socks5 (hd : 2 ≤ d.length) (hfirst : d.head? = some SOCKS_VER_5 ∨ d.head? = some SOCKS_AUTH) :
    parseSocks set d req =
      if ¬ req.gotAuth ∧ (d.head? = some 1 ∨ req.authType = SOCKS_USER_PASS) then handleSocks5UserpassAuth d req
      else if req.socksVersion ≠ SOCKS_VER_5 then handleSocks5Methods d req
      else handleSocks5ClientRequest set d req := by
  have hversion : (if d.head? = some SOCKS_AUTH then some SOCKS_VER_5 else d.head?) = some SOCKS_VER_5 := by
    split
    next => rfl
    next hne => exact hfirst.resolve_right hne
  have hknown : d.head? = some SOCKS_VER_5 ∨ d.head? = some SOCKS_VER_4 ∨ d.head? = some SOCKS_AUTH :=
    hfirst.imp_right .inr
  have hne : some SOCKS_VER_5 ≠ some SOCKS_VER_4 := by decide
  rw [parseSocks, if_neg (Nat.not_lt.mpr hd), if_pos hknown, handleSocksMessage]
  simp only [hversion, if_neg hne, if_true, if_neg (Nat.not_lt.mpr hd)]

theorem parseSocks_unknown (hd : 2 ≤ d.length) (h4 : d.head? ≠ some SOCKS_VER_4)
    (h5 : ¬ (d.head? = some SOCKS_VER_5 ∨ d.head? = some SOCKS_AUTH)) :
    parseSocks set d req = ⟨.INVALID, req, 0, httpReply d.head?⟩ := by
  have hunknown : ¬ (d.head? = some SOCKS_VER_5 ∨ d.head? = some SOCKS_VER_4 ∨ d.head? = some SOCKS_AUTH) := by
    intro h
    rcases h with h | h | h
    · exact h5 (.inl h)
    · exact h4 h
    · exact h5 (.inr h)
  rw [parseSocks, if_neg (Nat.not_lt.mpr hd), if_neg hunknown]

theorem head?_append_of_le (hd : 2 ≤ d.length) (more : List UInt8) : (d ++ more).head? = d.head? := by
  cases d with
  | nil => cases hd
  | cons b d => rfl

theorem parseSocks_socks4_append (hfirst : d.head? = some SOCKS_VER_4) (hnet : ¬ d.length < SOCKS4_NETWORK_LEN)
    (more : List UInt8) : parseSocks set (d ++ more) req = handleSocks4 set (d ++ more) req := by
  have hnet' : ¬ (d ++ more).length < SOCKS4_NETWORK_LEN := by
    rw [List.length_append]
    omega
  have hd : 2 ≤ d.length := Nat.le_trans (by decide) (Nat.not_lt.mp hnet)
  have hd' : 2 ≤ (d ++ more).length := Nat.le_trans (by decide) (Nat.not_lt.mp hnet')
  rw [parseSocks_socks4 hd' (by rw [head?_append_of_le hd, hfirst]), if_neg hnet']

/-- But for SOCKS4 requests, what is not truncated is decided, whatever follows. -/
theorem parseSocks_append (hd : 2 ≤ d.length) (h4 : d.head? ≠ some SOCKS_VER_4)
    (hres : (parseSocks set d req).res ≠ .TRUNCATED) (more : List UInt8) :
    parseSocks set (d ++ more) req = parseSocks set d req := by
  have hhead := head?_append_of_le hd more
  have hd' : 2 ≤ (d ++ more).length := by
    rw [List.length_append]
    omega
  by_cases h5 : d.head? = some SOCKS_VER_5 ∨ d.head? = some SOCKS_AUTH
  · rw [parseSocks_socks5 hd' (by rwa [hhead]), hhead]
    rw [parseSocks_socks5 hd h5] at hres ⊢
    split at hres
    next huser =>
      rw [if_pos huser, if_pos huser]
      exact handleSocks5UserpassAuth_append hres more
    next huser =>
      rw [if_neg huser, if_neg huser]
      split at hres
      next hversion =>
        rw [if_pos hversion, if_pos hversion]
        exact handleSocks5Methods_append hres more
      next hversion =>
        rw [if_neg hversion, if_neg hversion]
        exact handleSocks5ClientRequest_append hres more
  · rw [parseSocks_unknown hd' (by rwa [hhead]) (by rwa [hhead]), parseSocks_unknown hd h4 h5, hhead]

/-! ## SOCKS4 requests -/

/-- The request that a SOCKS4 message makes when it is accepted. -/
def socks4Filled (req : SocksRequest) (t : Socks4ClientRequest) : SocksRequest :=
  { req with
    socksVersion := SOCKS_VER_4
    command := t.command
    port := t.port
    gotAuth := req.gotAuth || t.username ≠ []
    username := if t.username = [] then req.username else t.username
    address := (t.hostname.map (strlcpy MAX_SOCKS_ADDR_LEN)).getD (torInetNtoa t.addr) }

/-- The fields of a SOCKS4 message are such that it is parsed. -/
structure Socks4Fields (t : Socks4ClientRequest) : Prop where
  port : t.port = 0 → t.command = SOCKS_COMMAND_RESOLVE
  addr : t.addr ≠ 0
  username : t.username.length ≤ MAX_SOCKS_MESSAGE_LEN
  hostname : ∀ name ∈ t.hostname, name.length < MAX_SOCKS_ADDR_LEN

/-- A SOCKS4 message passes every check that is about the message alone. -/
def Socks4Accepts (set : Settings) (t : Socks4ClientRequest) : Prop :=
  Socks4Fields t ∧ processSocks4Request set (socks4Filled (socksRequestNew false) t) t.hostname.isSome = .DONE

/-- Of the bytes from the message on that have come, no more than 256 are behind the username of a SOCKS4a request. -/
def Socks4Fits (t : Socks4ClientRequest) (len : Nat) : Prop :=
  t.hostname.isSome → len ≤ SOCKS4_NETWORK_LEN + t.username.length + 1 + MAX_SOCKS_ADDR_LEN

theorem shift_eq_zero_iff {addr : UInt32} (h : addr ≠ 0) : addr >>> 8 = 0 ↔ 1 ≤ addr ∧ addr ≤ 255 := by
  have hmod : (8 : UInt32).toNat % 32 = 8 := by decide
  have hzero : (0 : UInt32).toNat = 0 := rfl
  have hone : (1 : UInt32).toNat = 1 := rfl
  have hmax : (255 : UInt32).toNat = 255 := rfl
  rw [Ne, ← UInt32.toNat_inj, hzero] at h
  rw [← UInt32.toNat_inj, UInt32.le_iff_toNat_le, UInt32.le_iff_toNat_le, UInt32.toNat_shiftRight,
    Nat.shiftRight_eq_div_pow, hmod, hzero, hone, hmax]
  omega

variable {t : Socks4ClientRequest}

theorem parseSocks4Request_ok (req : SocksRequest) (h : socks4ClientRequestParse d = .ok (t, rest)) :
    (parseSocks4Request d req = (.DONE, socks4Filled req t, t.hostname.isSome, d.length - rest.length) ∧
      Socks4Fields t ∧ Socks4Fits t d.length) ∨
    ((parseSocks4Request d req).1 = .INVALID ∧ ¬ (Socks4Fields t ∧ Socks4Fits t d.length)) := by
  obtain ⟨hlen, -, hhost⟩ := socks4_length h
  unfold parseSocks4Request
  simp only [h]
  by_cases hzero : (t.port = 0 ∧ t.command ≠ SOCKS_COMMAND_RESOLVE) ∨ t.addr = 0
  · refine .inr ⟨by rw [if_pos hzero], fun hok => ?_⟩
    rcases hzero with hport | haddr
    · exact hport.2 (hok.1.port hport.1)
    · exact hok.1.addr haddr
  have hport : t.port = 0 → t.command = SOCKS_COMMAND_RESOLVE := fun hp => by_contra fun hc => hzero (.inl ⟨hp, hc⟩)
  have haddr : t.addr ≠ 0 := fun ha => hzero (.inr ha)
  have h4a : decide (t.addr >>> 8 = 0) = t.hostname.isSome := by
    rw [Bool.eq_iff_iff, decide_eq_true_iff, shift_eq_zero_iff haddr, hhost]
  rw [if_neg hzero, h4a]
  by_cases hname : t.username.length > MAX_SOCKS_MESSAGE_LEN
  · exact .inr ⟨by rw [if_pos hname], fun hok => absurd hok.1.username (Nat.not_le.mpr hname)⟩
  rw [if_neg hname]
  have hname := Nat.not_lt.mp hname
  cases hhostname : t.hostname with
  | none =>
    refine .inl ⟨?_, ⟨hport, haddr, hname, by simp [hhostname]⟩, by simp [Socks4Fits, hhostname]⟩
    simp only [torAddrToStr, Option.isSome_none, Bool.false_eq_true, if_false, socks4Filled, hhostname, Option.map_none,
      Option.getD_none]
    split <;> simp_all
  | some name =>
    rw [Socks4ClientRequest.hostnameSize, hhostname, Option.elim_some] at hlen
    by_cases hfits : d.length - (SOCKS4_NETWORK_LEN + t.username.length + 1) ≤ MAX_SOCKS_ADDR_LEN
    · refine .inl ⟨?_, ⟨hport, haddr, hname, ?_⟩, fun _ => by omega⟩
      · simp only [Option.isSome_some, if_true, if_pos hfits, socks4Filled, hhostname, Option.map_some, Option.getD_some]
        split <;> simp_all
      · intro name' hname'
        rw [hhostname] at hname'
        cases hname'
        unfold SOCKS4_NETWORK_LEN at hfits
        omega
    · refine .inr ⟨by simp only [Option.isSome_some, if_true, if_neg hfits], fun hok => hfits ?_⟩
      have hle := hok.2 (by simp [hhostname])
      omega

theorem processSocks4Request_congr {req' : SocksRequest} (hcommand : req.command = req'.command)
    (haddress : req.address = req'.address) (isSocks4a : Bool) :
    processSocks4Request set req isSocks4a = processSocks4Request set req' isSocks4a := by
  rw [processSocks4Request, processSocks4Request, hcommand, haddress]

theorem processSocks4Request_invalid {isSocks4a : Bool} (h : processSocks4Request set req isSocks4a ≠ .DONE) :
    processSocks4Request set req isSocks4a = .INVALID := by
  unfold processSocks4Request at h ⊢
  split
  · rfl
  split
  · rfl
  split
  · rfl
  · simp_all

theorem processSocks4Request_command {isSocks4a : Bool} (h : processSocks4Request set req isSocks4a = .DONE) :
    req.command = SOCKS_COMMAND_CONNECT ∨ req.command = SOCKS_COMMAND_RESOLVE := by
  by_contra hnot
  have hboth : req.command ≠ SOCKS_COMMAND_CONNECT ∧ req.command ≠ SOCKS_COMMAND_RESOLVE := not_or.mp hnot
  rw [processSocks4Request, if_pos hboth, ite_self] at h
  cases h

theorem Socks4Fields.hostnameSize_le (h : Socks4Fields t) : t.hostnameSize ≤ MAX_SOCKS_ADDR_LEN := by
  cases hhost : t.hostname with
  | none => simp [Socks4ClientRequest.hostnameSize, hhost]
  | some name =>
    rw [Socks4ClientRequest.hostnameSize, hhost]
    exact h.hostname name hhost

/-- A complete SOCKS4 request is accepted exactly if it passes the checks and what has come fits. -/
theorem handleSocks4_ok (h : socks4ClientRequestParse d = .ok (t, rest)) :
    (handleSocks4 set d req = ⟨.DONE, socks4Filled req t, d.length - rest.length, none⟩ ∧
      Socks4Accepts set t ∧ Socks4Fits t d.length) ∨
    ((handleSocks4 set d req).res = .INVALID ∧ ¬ (Socks4Accepts set t ∧ Socks4Fits t d.length)) := by
  unfold handleSocks4
  rcases parseSocks4Request_ok req h with ⟨hparse, hfields, hfits⟩ | ⟨hparse, hnot⟩
  · have hprocess : processSocks4Request set (socks4Filled req t) t.hostname.isSome =
        processSocks4Request set (socks4Filled (socksRequestNew false) t) t.hostname.isSome :=
      processSocks4Request_congr rfl rfl _
    simp only [hparse, ne_eq, not_true_eq_false, if_false, hprocess]
    by_cases hdone : processSocks4Request set (socks4Filled (socksRequestNew false) t) t.hostname.isSome = .DONE
    · exact .inl ⟨by rw [hdone], ⟨hfields, hdone⟩, hfits⟩
    · exact .inr ⟨processSocks4Request_invalid hdone, fun hok => hdone hok.1.2⟩
  · refine .inr ⟨?_, fun hok => hnot ⟨hok.1.1, hok.2⟩⟩
    simp only [hparse]
    rfl

theorem handleSocks4_bad (h : socks4ClientRequestParse d = .error .bad) : (handleSocks4 set d req).res = .INVALID := by
  simp [handleSocks4, parseSocks4Request, h]

theorem handleSocks4_short (h : socks4ClientRequestParse d = .error .short) :
    handleSocks4 set d req =
      ⟨if d.length ≥ MAX_SOCKS_MESSAGE_LEN then .INVALID else .TRUNCATED, { req with socksVersion := SOCKS_VER_4 }, 0, none⟩ := by
  simp only [handleSocks4, parseSocks4Request, h]
  split <;> rfl

theorem handleSocks4_ne_more : (handleSocks4 set d req).res ≠ .MORE_EXPECTED := by
  rcases hread : socks4ClientRequestParse d with (_ | _) | ⟨t, rest⟩
  · rw [handleSocks4_short hread]
    split <;> nofun
  · rw [handleSocks4_bad hread]
    nofun
  · rcases handleSocks4_ok hread with ⟨h, -⟩ | ⟨h, -⟩ <;> rw [h] <;> nofun

/-! ## Complete SOCKS5 messages -/

/-- The request with the username and password of a message. -/
def userpassFilled (req : SocksRequest) (t : Socks5ClientUserpassAuth) : SocksRequest :=
  { req with
    username := if t.username = [] then req.username else t.username
    password := if t.passwd = [] then req.password else t.passwd
    gotAuth := true }

/-- Method selection has come before. -/
def Negotiated (req : SocksRequest) : Prop :=
  req.socksVersion = SOCKS_VER_5 ∧ (req.authType = SOCKS_USER_PASS ∨ req.authType = SOCKS_NO_AUTH)

theorem processSocks5UserpassAuth_spec (req : SocksRequest) :
    (Negotiated req ∧ processSocks5UserpassAuth req = (.DONE, some [SOCKS_AUTH, 0])) ∨
    (¬ Negotiated req ∧ processSocks5UserpassAuth req = (.INVALID, none)) := by
  unfold processSocks5UserpassAuth
  by_cases hversion : req.socksVersion = SOCKS_VER_5
  · by_cases hauth : req.authType = SOCKS_USER_PASS ∨ req.authType = SOCKS_NO_AUTH
    · exact .inl ⟨⟨hversion, hauth⟩, by rw [if_neg (not_not.mpr hversion), if_neg fun h => hauth.elim h.1 h.2]⟩
    · exact .inr ⟨fun h => hauth h.2, by simp [hversion, not_or.mp hauth]⟩
  · exact .inr ⟨fun h => hversion h.1, by simp [hversion]⟩

theorem handleSocks5UserpassAuth_ok {t : Socks5ClientUserpassAuth} (h : socks5ClientUserpassAuthParse d = .ok (t, rest)) :
    (Negotiated req ∧ handleSocks5UserpassAuth d req =
      ⟨.MORE_EXPECTED, userpassFilled req t, d.length - rest.length, some [SOCKS_AUTH, 0]⟩) ∨
    (¬ Negotiated req ∧ (handleSocks5UserpassAuth d req).res = .INVALID) := by
  have hparse : parseSocks5UserpassAuth d req = (.DONE, userpassFilled req t, d.length - rest.length) := by
    simp only [parseSocks5UserpassAuth, h, userpassFilled]
    by_cases hu : t.username = [] <;> by_cases hp : t.passwd = [] <;> simp [hu, hp]
  unfold handleSocks5UserpassAuth
  simp only [hparse, ne_eq, not_true_eq_false, if_false]
  rcases processSocks5UserpassAuth_spec (userpassFilled req t) with ⟨hneg, hprocess⟩ | ⟨hneg, hprocess⟩
  · exact .inl ⟨hneg, by rw [hprocess]; rfl⟩
  · exact .inr ⟨hneg, by rw [hprocess]; rfl⟩

/-- A method that we know is among those offered. -/
def OffersMethod (t : Socks5ClientVersion) : Prop := SOCKS_USER_PASS ∈ t.methods ∨ SOCKS_NO_AUTH ∈ t.methods

theorem handleSocks5Methods_ok {t : Socks5ClientVersion} (h : socks5ClientVersionParse d = .ok (t, rest)) :
    (OffersMethod t ∧ ∃ req' reply, Negotiated req' ∧ req'.gotAuth = req.gotAuth ∧ handleSocks5Methods d req =
      ⟨.MORE_EXPECTED, req', d.length - rest.length, some reply⟩) ∨
    (¬ OffersMethod t ∧ (handleSocks5Methods d req).res = .INVALID) := by
  unfold handleSocks5Methods parseSocks5MethodsRequest processSocks5MethodsRequest
  simp only [h]
  by_cases hnone : t.methods.length = 0
  · have hnil := List.length_eq_zero_iff.mp hnone
    exact .inr ⟨by simp [OffersMethod, hnil], by simp [hnone]⟩
  simp only [if_neg hnone, ne_eq, not_true_eq_false, if_false, decide_eq_true_eq]
  by_cases huser : SOCKS_USER_PASS ∈ t.methods ∧ ¬ (SOCKS_NO_AUTH ∈ t.methods ∧ req.socksPreferNoAuth = true)
  · rw [if_pos huser]
    exact .inl ⟨.inl huser.1, { req with authType := SOCKS_USER_PASS, socksVersion := SOCKS_VER_5 }, _, ⟨rfl, .inl rfl⟩, rfl, rfl⟩
  rw [if_neg huser]
  by_cases hno : SOCKS_NO_AUTH ∈ t.methods
  · rw [if_pos hno]
    exact .inl ⟨.inr hno, { req with authType := SOCKS_NO_AUTH, socksVersion := SOCKS_VER_5 }, _, ⟨rfl, .inr rfl⟩, rfl, rfl⟩
  · rw [if_neg hno]
    refine .inr ⟨fun hoffers => ?_, rfl⟩
    exact hoffers.elim (fun hu => huser ⟨hu, fun hboth => hno hboth.1⟩) hno

theorem handleSocks5ClientRequest_ok {t : Socks5ClientRequest} (h : socks5ClientRequestParse d = .ok (t, rest)) :
    (handleSocks5ClientRequest set d req).res = .DONE ∨ (handleSocks5ClientRequest set d req).res = .INVALID := by
  unfold handleSocks5ClientRequest parseSocks5ClientRequest
  simp only [h]
  by_cases hversion : t.version ≠ 5
  · exact .inr (by rw [if_pos hversion]; rfl)
  rw [if_neg hversion]
  simp only [ne_eq, not_true_eq_false, if_false]
  unfold processSocks5ClientRequest
  split
  · exact .inr rfl
  split
  · exact .inr rfl
  split
  · exact .inr rfl
  split
  · exact .inr rfl
  · exact .inl rfl

/-! ## Truncated messages -/

theorem handleSocks4_truncated (h : (handleSocks4 set d req).res = .TRUNCATED) :
    socks4ClientRequestParse d = .error .short ∧ d.length < MAX_SOCKS_MESSAGE_LEN ∧
    (handleSocks4 set d req).req = { req with socksVersion := SOCKS_VER_4 } := by
  rcases hread : socks4ClientRequestParse d with (_ | _) | ⟨t, rest⟩
  · rw [handleSocks4_short hread] at h ⊢
    split at h
    next => cases h
    next hlt => exact ⟨rfl, Nat.not_le.mp hlt, rfl⟩
  · rw [handleSocks4_bad hread] at h
    cases h
  · rcases handleSocks4_ok hread with ⟨heq, -⟩ | ⟨heq, -⟩ <;> rw [heq] at h <;> cases h

theorem handleSocks5UserpassAuth_truncated (h : (handleSocks5UserpassAuth d req).res = .TRUNCATED) :
    socks5ClientUserpassAuthParse d = .error .short ∧ (handleSocks5UserpassAuth d req).req = req := by
  rcases hread : socks5ClientUserpassAuthParse d with (_ | _) | ⟨t, rest⟩
  · exact ⟨rfl, by simp [handleSocks5UserpassAuth, parseSocks5UserpassAuth, hread]⟩
  · simp [handleSocks5UserpassAuth, parseSocks5UserpassAuth, hread] at h
  · rcases handleSocks5UserpassAuth_ok hread with ⟨-, heq⟩ | ⟨-, heq⟩ <;> rw [heq] at h <;> cases h

theorem handleSocks5Methods_truncated (h : (handleSocks5Methods d req).res = .TRUNCATED) :
    socks5ClientVersionParse d = .error .short ∧ (handleSocks5Methods d req).req = req := by
  rcases hread : socks5ClientVersionParse d with (_ | _) | ⟨t, rest⟩
  · have hlen := socks5ClientVersionParse_within.short hread
    have hmax : ¬ d.length > MAX_SOCKS_MESSAGE_LEN := fun hgt => absurd (Nat.lt_trans hgt hlen) (by decide)
    exact ⟨rfl, by simp [handleSocks5Methods, parseSocks5MethodsRequest, hread, hmax]⟩
  · simp [handleSocks5Methods, parseSocks5MethodsRequest, hread] at h
  · rcases handleSocks5Methods_ok hread with ⟨-, req', reply, -, -, heq⟩ | ⟨-, heq⟩ <;> rw [heq] at h <;> cases h

theorem handleSocks5ClientRequest_truncated (h : (handleSocks5ClientRequest set d req).res = .TRUNCATED) :
    socks5ClientRequestParse d = .error .short ∧ (handleSocks5ClientRequest set d req).req = req := by
  rcases hread : socks5ClientRequestParse d with (_ | _) | ⟨t, rest⟩
  · exact ⟨rfl, by simp [handleSocks5ClientRequest, parseSocks5ClientRequest, hread]⟩
  · simp [handleSocks5ClientRequest, parseSocks5ClientRequest, hread] at h
  · rcases handleSocks5ClientRequest_ok hread with heq | heq <;> rw [heq] at h <;> cases h

/-- A username and password message that has come up to here. -/
def UserpassStarted (req : SocksRequest) (d : List UInt8) : Prop :=
  req.gotAuth = false ∧ d.head? = some SOCKS_AUTH ∧ socks5ClientUserpassAuthParse d = .error .short

section

variable (hd : 2 ≤ d.length)
include hd

theorem userpass_head (h : socks5ClientUserpassAuthParse d = .error .short) : d.head? = some SOCKS_AUTH := by
  obtain ⟨b, tail, rfl⟩ : ∃ b tail, d = b :: tail := List.exists_cons_of_length_pos (by omega)
  by_contra hne
  have hb : ¬ b = 1 := fun hb => hne (by rw [hb]; rfl)
  simp [socks5ClientUserpassAuthParse, Reader.bind_apply, u8, Reader.item, Reader.check, hb] at h

/-- What is truncated has fewer than 512 bytes, or is a username and password message. -/
theorem parseSocks_truncated (h : (parseSocks set d req).res = .TRUNCATED) :
    d.length < MAX_SOCKS_MESSAGE_LEN ∨ UserpassStarted req d := by
  by_cases h4 : d.head? = some SOCKS_VER_4
  · rw [parseSocks_socks4 hd h4] at h
    split at h
    next hlt => exact .inl (Nat.lt_trans hlt (by decide))
    next => exact .inl (handleSocks4_truncated h).2.1
  by_cases h5 : d.head? = some SOCKS_VER_5 ∨ d.head? = some SOCKS_AUTH
  · rw [parseSocks_socks5 hd h5] at h
    split at h
    next huser =>
      have hshort := (handleSocks5UserpassAuth_truncated h).1
      exact .inr ⟨Bool.not_eq_true _ ▸ huser.1, userpass_head hd hshort, hshort⟩
    next =>
      split at h
      next =>
        exact .inl (Nat.lt_trans (socks5ClientVersionParse_within.short (handleSocks5Methods_truncated h).1) (by decide))
      next =>
        exact .inl (Nat.lt_trans (socks5ClientRequestParse_within.short (handleSocks5ClientRequest_truncated h).1) (by decide))
  · rw [parseSocks_unknown hd h4 h5] at h
    cases h

theorem parseSocks_truncated_le (h : (parseSocks set d req).res = .TRUNCATED) : d.length ≤ MAX_SOCKS_MESSAGE_LEN := by
  rcases parseSocks_truncated hd h with hlt | ⟨-, -, hshort⟩
  · exact Nat.le_of_lt hlt
  · exact Nat.le_of_lt_succ (socks5ClientUserpassAuthParse_within.short hshort)

/-- What is truncated was so before the last bytes came. -/
theorem parseSocks_truncated_of_append (h : (parseSocks set (d ++ more) req).res = .TRUNCATED) :
    (parseSocks set d req).res = .TRUNCATED := by
  by_cases h4 : d.head? = some SOCKS_VER_4
  · rw [parseSocks_socks4 hd h4]
    by_cases hnet : d.length < SOCKS4_NETWORK_LEN
    · rw [if_pos hnet]
    rw [parseSocks_socks4_append h4 hnet] at h
    rw [if_neg hnet]
    obtain ⟨hshort, hlen, -⟩ := handleSocks4_truncated h
    rw [List.length_append] at hlen
    rcases hread : socks4ClientRequestParse d with (_ | _) | ⟨t, rest⟩
    · rw [handleSocks4_short hread]
      exact if_neg (by omega)
    · rw [socks4ClientRequestParse_steady.bad hread more] at hshort
      cases hshort
    · rw [socks4ClientRequestParse_steady.append hread more] at hshort
      cases hshort
  · by_contra hne
    rw [parseSocks_append hd h4 hne more] at h
    exact hne h

/-- A truncated message leaves the request as it is, but for the version of a SOCKS4 request. -/
theorem parseSocks_truncated_req (h : (parseSocks set d req).res = .TRUNCATED) :
    (parseSocks set d req).req = req ∨ (d.head? = some SOCKS_VER_4 ∧ ¬ d.length < SOCKS4_NETWORK_LEN ∧
      (parseSocks set d req).req = { req with socksVersion := SOCKS_VER_4 }) := by
  by_cases h4 : d.head? = some SOCKS_VER_4
  · rw [parseSocks_socks4 hd h4] at h ⊢
    split at h
    next hnet =>
      rw [if_pos hnet]
      exact .inl rfl
    next hnet =>
      rw [if_neg hnet]
      exact .inr ⟨h4, hnet, (handleSocks4_truncated h).2.2⟩
  by_cases h5 : d.head? = some SOCKS_VER_5 ∨ d.head? = some SOCKS_AUTH
  · rw [parseSocks_socks5 hd h5] at h ⊢
    split at h
    next huser =>
      rw [if_pos huser]
      exact .inl (handleSocks5UserpassAuth_truncated h).2
    next huser =>
      rw [if_neg huser]
      split at h
      next hversion =>
        rw [if_pos hversion]
        exact .inl (handleSocks5Methods_truncated h).2
      next hversion =>
        rw [if_neg hversion]
        exact .inl (handleSocks5ClientRequest_truncated h).2
  · rw [parseSocks_unknown hd h4 h5] at h
    cases h

/-- A truncated message may leave a mark on the request, but none that the next try sees. -/
theorem parseSocks_again (h : (parseSocks set d req).res = .TRUNCATED) :
    (parseSocks set d req).req.gotAuth = req.gotAuth ∧
    ∀ more, parseSocks set (d ++ more) (parseSocks set d req).req = parseSocks set (d ++ more) req := by
  rcases parseSocks_truncated_req hd h with hreq | ⟨h4, hnet, hreq⟩
  · rw [hreq]
    exact ⟨rfl, fun _ => rfl⟩
  · rw [hreq]
    refine ⟨rfl, fun more => ?_⟩
    rw [parseSocks_socks4_append h4 hnet, parseSocks_socks4_append h4 hnet]
    rfl

end

/-! ## Messages with more to come -/

theorem handleSocks5UserpassAuth_more (h : (handleSocks5UserpassAuth d req).res = .MORE_EXPECTED) :
    ∃ t rest, socks5ClientUserpassAuthParse d = .ok (t, rest) ∧ Negotiated req ∧ handleSocks5UserpassAuth d req =
      ⟨.MORE_EXPECTED, userpassFilled req t, d.length - rest.length, some [SOCKS_AUTH, 0]⟩ := by
  rcases hread : socks5ClientUserpassAuthParse d with (_ | _) | ⟨t, rest⟩
  · simp [handleSocks5UserpassAuth, parseSocks5UserpassAuth, hread] at h
  · simp [handleSocks5UserpassAuth, parseSocks5UserpassAuth, hread] at h
  · rcases handleSocks5UserpassAuth_ok hread with ⟨hneg, heq⟩ | ⟨-, heq⟩
    · exact ⟨t, rest, rfl, hneg, heq⟩
    · rw [heq] at h
      cases h

theorem handleSocks5Methods_more (h : (handleSocks5Methods d req).res = .MORE_EXPECTED) :
    ∃ t rest req' reply, socks5ClientVersionParse d = .ok (t, rest) ∧ OffersMethod t ∧ Negotiated req' ∧
      req'.gotAuth = req.gotAuth ∧ handleSocks5Methods d req = ⟨.MORE_EXPECTED, req', d.length - rest.length, some reply⟩ := by
  rcases hread : socks5ClientVersionParse d with (_ | _) | ⟨t, rest⟩
  · simp only [handleSocks5Methods, parseSocks5MethodsRequest, hread] at h
    split at h <;> simp_all
  · simp [handleSocks5Methods, parseSocks5MethodsRequest, hread] at h
  · rcases handleSocks5Methods_ok hread with ⟨hoffers, req', reply, hneg, hauth, heq⟩ | ⟨-, heq⟩
    · exact ⟨t, rest, req', reply, rfl, hoffers, hneg, hauth, heq⟩
    · rw [heq] at h
      cases h

theorem handleSocks5ClientRequest_ne_more : (handleSocks5ClientRequest set d req).res ≠ .MORE_EXPECTED := by
  rcases hread : socks5ClientRequestParse d with (_ | _) | ⟨t, rest⟩
  · simp [handleSocks5ClientRequest, parseSocks5ClientRequest, hread]
  · simp [handleSocks5ClientRequest, parseSocks5ClientRequest, hread]
  · rcases handleSocks5ClientRequest_ok hread with heq | heq <;> rw [heq] <;> nofun

theorem parseSocks_more_head (hd : 2 ≤ d.length) (h : (parseSocks set d req).res = .MORE_EXPECTED) :
    d.head? ≠ some SOCKS_VER_4 := by
  intro h4
  rw [parseSocks_socks4 hd h4] at h
  split at h
  next => cases h
  next => exact handleSocks4_ne_more h

/-- A message after which more are expected: method selection, or a username and password. -/
theorem parseSocks_more (hd : 2 ≤ d.length) (h : (parseSocks set d req).res = .MORE_EXPECTED) :
    (∃ t rest req' reply, req.socksVersion ≠ SOCKS_VER_5 ∧ socks5ClientVersionParse d = .ok (t, rest) ∧ OffersMethod t ∧
      Negotiated req' ∧ req'.gotAuth = req.gotAuth ∧
      parseSocks set d req = ⟨.MORE_EXPECTED, req', d.length - rest.length, some reply⟩) ∨
    (∃ t rest, req.gotAuth = false ∧ socks5ClientUserpassAuthParse d = .ok (t, rest) ∧ Negotiated req ∧
      parseSocks set d req = ⟨.MORE_EXPECTED, userpassFilled req t, d.length - rest.length, some [SOCKS_AUTH, 0]⟩) := by
  have h4 := parseSocks_more_head hd h
  by_cases h5 : d.head? = some SOCKS_VER_5 ∨ d.head? = some SOCKS_AUTH
  · rw [parseSocks_socks5 hd h5] at h ⊢
    split at h
    next huser =>
      rw [if_pos huser]
      obtain ⟨t, rest, hread, hneg, heq⟩ := handleSocks5UserpassAuth_more h
      exact .inr ⟨t, rest, Bool.not_eq_true _ ▸ huser.1, hread, hneg, heq⟩
    next huser =>
      rw [if_neg huser]
      split at h
      next hversion =>
        rw [if_pos hversion]
        obtain ⟨t, rest, req', reply, hread, hoffers, hneg, hauth, heq⟩ := handleSocks5Methods_more h
        exact .inl ⟨t, rest, req', reply, hversion, hread, hoffers, hneg, hauth, heq⟩
      next => exact absurd h handleSocks5ClientRequest_ne_more
  · rw [parseSocks_unknown hd h4 h5] at h
    cases h

/-- Which SOCKS5 message is expected is seen from its first bytes. -/
theorem parseSocks_socks5_append (hd : 2 ≤ d.length) (hfirst : d.head? = some SOCKS_VER_5 ∨ d.head? = some SOCKS_AUTH)
    (x : List UInt8) : parseSocks set (d ++ x) req =
      if ¬ req.gotAuth ∧ (d.head? = some 1 ∨ req.authType = SOCKS_USER_PASS) then handleSocks5UserpassAuth (d ++ x) req
      else if req.socksVersion ≠ SOCKS_VER_5 then handleSocks5Methods (d ++ x) req
      else handleSocks5ClientRequest set (d ++ x) req := by
  have hhead := head?_append_of_le hd x
  have hd' : 2 ≤ (d ++ x).length := by
    rw [List.length_append]
    omega
  rw [parseSocks_socks5 hd' (by rwa [hhead]), hhead]

/-- Such a message is taken off and has two bytes at least; what follows it does not matter. -/
theorem parseSocks_more_used (hd : 2 ≤ d.length) (h : (parseSocks set d req).res = .MORE_EXPECTED) :
    ∃ used rest, d = used ++ rest ∧ 2 ≤ used.length ∧ (parseSocks set d req).drain = used.length ∧
      ∀ x, parseSocks set (used ++ x) req = parseSocks set d req := by
  rcases parseSocks_more hd h with ⟨t, rest, req', reply, hversion, hread, -, -, -, heq⟩ | ⟨t, rest, hauth, hread, -, heq⟩
  · obtain ⟨hlen, hhead⟩ := methods_length hread
    obtain ⟨used, rfl, htakes⟩ := socks5ClientVersionParse_steady.ok hread
    rw [List.length_append] at hlen
    have hused : 2 ≤ used.length := by omega
    have h5 : used.head? = some SOCKS_VER_5 := by rw [← head?_append_of_le hused rest, hhead]; rfl
    have hnot : (handleSocks5Methods used req).res ≠ .TRUNCATED := by
      intro htrunc
      have hshort := (handleSocks5Methods_truncated htrunc).1
      rw [← List.append_nil used, htakes.ok] at hshort
      cases hshort
    -- with the method user/pass chosen and no authentication yet, this would be refused
    have huser : ¬ (¬ req.gotAuth ∧ (used.head? = some 1 ∨ req.authType = SOCKS_USER_PASS)) := by
      intro huser
      rw [parseSocks_socks5_append hused (.inl h5), if_pos huser] at h
      obtain ⟨t', rest', hread', -⟩ := handleSocks5UserpassAuth_more h
      rw [(userpass_length hread').2.1] at hhead
      cases hhead
    refine ⟨used, rest, rfl, hused, by rw [heq]; simp, fun x => ?_⟩
    rw [parseSocks_socks5_append hused (.inl h5), parseSocks_socks5_append hused (.inl h5), if_neg huser, if_pos hversion,
      if_neg huser, if_pos hversion, handleSocks5Methods_append hnot, handleSocks5Methods_append hnot]
  · obtain ⟨hlen, hhead, -⟩ := userpass_length hread
    obtain ⟨used, rfl, htakes⟩ := socks5ClientUserpassAuthParse_steady.ok hread
    rw [List.length_append] at hlen
    have hused : 2 ≤ used.length := by omega
    have h1 : used.head? = some SOCKS_AUTH := by rw [← head?_append_of_le hused rest, hhead]; rfl
    have hnot : (handleSocks5UserpassAuth used req).res ≠ .TRUNCATED := by
      intro htrunc
      have hshort := (handleSocks5UserpassAuth_truncated htrunc).1
      rw [← List.append_nil used, htakes.ok] at hshort
      cases hshort
    have huser : ¬ req.gotAuth ∧ (used.head? = some 1 ∨ req.authType = SOCKS_USER_PASS) := ⟨by simp [hauth], .inl h1⟩
    refine ⟨used, rest, rfl, hused, by rw [heq]; simp, fun x => ?_⟩
    rw [parseSocks_socks5_append hused (.inr h1), parseSocks_socks5_append hused (.inr h1), if_pos huser, if_pos huser,
      handleSocks5UserpassAuth_append hnot, handleSocks5UserpassAuth_append hnot]

/-! ## Requests that are done -/

theorem handleSocks5ClientRequest_done (h : (handleSocks5ClientRequest set d req).res = .DONE) :
    (handleSocks5ClientRequest set d req).drain ≤ d.length := by
  unfold handleSocks5ClientRequest parseSocks5ClientRequest at h ⊢
  rcases hread : socks5ClientRequestParse d with (_ | _) | ⟨t, rest⟩
  · simp [hread] at h
  · simp [hread] at h
  · by_cases hversion : t.version ≠ 5
    · simp [hread, hversion] at h
    · simp [hversion]

theorem handleSocks5UserpassAuth_ne_done : (handleSocks5UserpassAuth d req).res ≠ .DONE := by
  rcases hread : socks5ClientUserpassAuthParse d with (_ | _) | ⟨t, rest⟩
  · simp [handleSocks5UserpassAuth, parseSocks5UserpassAuth, hread]
  · simp [handleSocks5UserpassAuth, parseSocks5UserpassAuth, hread]
  · rcases handleSocks5UserpassAuth_ok hread with ⟨-, heq⟩ | ⟨-, heq⟩ <;> rw [heq] <;> nofun

theorem handleSocks5Methods_ne_done : (handleSocks5Methods d req).res ≠ .DONE := by
  rcases hread : socks5ClientVersionParse d with (_ | _) | ⟨t, rest⟩
  · simp only [handleSocks5Methods, parseSocks5MethodsRequest, hread]
    split <;> simp_all
  · simp [handleSocks5Methods, parseSocks5MethodsRequest, hread]
  · rcases handleSocks5Methods_ok hread with ⟨-, req', reply, -, -, heq⟩ | ⟨-, heq⟩ <;> rw [heq] <;> nofun

/-- No more is drained than was looked at. -/
theorem parseSocks_done (hd : 2 ≤ d.length) (h : (parseSocks set d req).res = .DONE) :
    (parseSocks set d req).drain ≤ d.length := by
  by_cases h4 : d.head? = some SOCKS_VER_4
  · rw [parseSocks_socks4 hd h4] at h ⊢
    split at h
    next => cases h
    next hlt =>
      rw [if_neg hlt]
      rcases hread : socks4ClientRequestParse d with (_ | _) | ⟨t, rest⟩
      · rw [handleSocks4_short hread]
        exact Nat.zero_le _
      · rw [handleSocks4_bad hread] at h
        cases h
      · rcases handleSocks4_ok hread with ⟨heq, -⟩ | ⟨heq, -⟩
        · rw [heq]
          exact Nat.sub_le ..
        · rw [heq] at h
          cases h
  by_cases h5 : d.head? = some SOCKS_VER_5 ∨ d.head? = some SOCKS_AUTH
  · rw [parseSocks_socks5 hd h5] at h ⊢
    split at h
    next => exact absurd h handleSocks5UserpassAuth_ne_done
    next huser =>
      rw [if_neg huser]
      split at h
      next => exact absurd h handleSocks5Methods_ne_done
      next hversion =>
        rw [if_neg hversion]
        exact handleSocks5ClientRequest_done h
  · rw [parseSocks_unknown hd h4 h5] at h
    cases h

end Badnet.Socks
