/-
  Badnet.Dirparse.Tokens — the tokenizer of directory documents (`feature/dirparse/parsecommon.c`, with the scanning
  functions of `lib/string/util_string.c`).

  A document is a sequence of items: a line with a keyword and arguments, and after it an optional object between
  `-----BEGIN` and `-----END` lines. A function takes the text from `*s` to `eos` and returns what is left of it.
  `tokenize_string` refuses a text with a NUL first, so the copies the code makes of a line are the line.
-/

import Mathlib.Data.List.TakeWhile
import Badnet.Encoding.Pem

namespace Badnet.Dirparse

open Lib Encoding

/-! ## Scanning -/

def isWhitespace (c : Char) : Bool := c = ' ' ∨ c = '\t' ∨ c = '\n' ∨ c = '\r'

/-- `eat_whitespace_eos` and, on a text up to its NUL, `eat_whitespace`. In a comment
    everything up to the end of the line is skipped. -/
def eatFrom (comment : Bool) : Text → Text
  | [] => []
  | c :: s =>
    if comment ∧ c ≠ '\x00' ∧ c ≠ '\n' then eatFrom true s
    else if isWhitespace c then eatFrom false s
    else if c = '#' then eatFrom true s
    else c :: s

def eatWhitespaceEos (s : Text) : Text := eatFrom false s

def eatWhitespaceEosNoNl (s : Text) : Text := s.dropWhile fun c => c = ' ' ∨ c = '\t' ∨ c = '\r'

/-- What `find_whitespace` and `find_whitespace_eos` run over. -/
def isWordChar (c : Char) : Bool :=
  ¬ (c = '\x00' ∨ c = '#' ∨ c = ' ' ∨ c = '\r' ∨ c = '\n' ∨ c = '\t')

/-! ## Rules and tokens -/

inductive Keyword where
  | K_R
  | K_ONION_KEY
  | K_ONION_KEY_NTOR
  | K_ID
  | K_OPT
  | A_UNKNOWN_
  deriving DecidableEq, Repr

inductive ObjSyntax where
  | NO_OBJ
  | NEED_OBJ
  | NEED_KEY_1024
  | NEED_KEY
  | OBJ_OK
  deriving DecidableEq, Repr

structure TokenRule where
  t : Text
  v : Keyword
  minArgs : Nat
  maxArgs : Nat
  concatArgs : Bool
  os : ObjSyntax
  minCnt : Nat
  maxCnt : Nat
  atStart : Bool := false
  atEnd : Bool := false

structure Token (rsa : Rsa) where
  tp : Keyword
  args : List Text
  objectType : Option Text := none
  objectBody : Option Bytes := none
  key : Option rsa.Key := none

/-- `get_token_arguments`, with `MAX_ARGS - j` for its counter. -/
def argumentsFrom : Nat → Text → Option (List Text)
  | _, [] => some []
  | 0, _ :: _ => none
  | j + 1, cp =>
    match cp.dropWhile isWordChar with
    | [] => some [cp.takeWhile isWordChar]
    | _ :: rest => (argumentsFrom j (eatWhitespaceEos rest)).map (cp.takeWhile isWordChar :: ·)

def MAX_ARGS : Nat := 512

def getTokenArguments (s : Text) : Option (List Text) := argumentsFrom MAX_ARGS s

def MAX_LINE_LENGTH : Nat := 128 * 1024

def MAX_UNPARSED_OBJECT_SIZE : Nat := 128 * 1024

section

variable (rsa : Rsa) (table : List TokenRule)

/-- The keyword line: the rule's keyword, its object syntax, and the token so far. A
    keyword the table does not have makes an item with anything in it. -/
def lineToken (line : Text) : Except String (Text × ObjSyntax × Token rsa) :=
  match table.find? fun r => r.t = line.takeWhile isWordChar with
  | some r => do
    let s := eatWhitespaceEosNoNl (line.dropWhile isWordChar)
    let args ← if r.concatArgs then .ok [s]
      else (getTokenArguments s).elim (.error ("Far too many arguments to " ++ String.ofList r.t)) .ok
    if args.length < r.minArgs then .error ("Too few arguments to " ++ String.ofList r.t)
    else if args.length > r.maxArgs then .error ("Too many arguments to " ++ String.ofList r.t)
    else .ok (r.t, r.os, { tp := r.v, args := args })
  | none => .ok ([], .OBJ_OK, { tp := if line.head? = some '@' then .A_UNKNOWN_ else .K_OPT, args := [line] })

/-- The object of the token `tok`, if one stands at the start of the text. -/
def readObject (o_syn : ObjSyntax) (tok : Token rsa) (s : Text) : Except String (Token rsa × Text) :=
  let line := s.takeWhile (· ≠ '\n')
  if '\n' ∉ s ∨ line.length < 11 ∨ ¬ beginTag <+: s then .ok (tok, s)
  else if line.length ≤ 16 ∨ '\x00' ∈ (line.drop 11).take (line.length - 16) ∨ line.drop (line.length - 5) ≠ dashes ∨
      line.length > MAX_UNPARSED_OBJECT_SIZE then .error "Malformed object: bad begin line"
  else
    let objectType := (line.drop 11).take (line.length - 16)
    let s := s.drop (line.length + 1)
    match search endTag s with
    | none => .error "Malformed object: missing object end line"
    | some next =>
      let line := (s.drop next).takeWhile (· ≠ '\n')
      if line.length ≠ 9 + objectType.length + 5 ∨ (line.drop 9).take objectType.length ≠ objectType ∨
          line.drop (line.length - 5) ≠ dashes then
        .error ("Malformed object: mismatched end tag " ++ String.ofList objectType)
      else if (s.take next).length > MAX_UNPARSED_OBJECT_SIZE then
        .error "Couldn't parse object: missing footer or object much too big."
      else
        match base64Decode (base64DecodeMaxsize (s.take next).length) (s.take next) with
        | none => .error "Malformed object: bad base64-encoded data"
        | some objectBody =>
          let tok := { tok with objectType := some objectType, objectBody := some objectBody }
          let rest := (s.drop next).dropWhile (· ≠ '\n')
          if objectType = RSA_PUBLIC_TAG then
            if o_syn ≠ .NEED_KEY ∧ o_syn ≠ .NEED_KEY_1024 ∧ o_syn ≠ .OBJ_OK then .error "Unexpected public key."
            else
              match rsa.asn1Decode objectBody with
              | none => .error "Couldn't parse public key."
              | some key => .ok ({ tok with key := some key }, rest)
          else .ok (tok, rest)

/-- The key checks that `NEED_KEY` has and `NEED_KEY_1024` falls through to. -/
def checkKey (kwd : Text) (tok : Token rsa) : Except String Unit :=
  match tok.key with
  | none => .error ("Missing public key for " ++ String.ofList kwd)
  | some key =>
    if rsa.keyIsPrivate key then
      .error ("Private key given for " ++ String.ofList kwd ++ ", which wants a public key")
    else .ok ()

def tokenCheckObject (kwd : Text) (tok : Token rsa) : ObjSyntax → Except String Unit
  | .NO_OBJ =>
    if tok.objectBody.isSome then .error ("Unexpected object for " ++ String.ofList kwd)
    else if tok.key.isSome then .error ("Unexpected public key for " ++ String.ofList kwd)
    else .ok ()
  | .NEED_OBJ => if tok.objectBody.isNone then .error ("Missing object for " ++ String.ofList kwd) else .ok ()
  | .NEED_KEY_1024 =>
    match tok.key with
    | some key =>
      if rsa.numBits key ≠ 1024 then
        .error ("Wrong size on key for " ++ String.ofList kwd ++ ": " ++ toString (rsa.numBits key) ++ " bits")
      else checkKey rsa kwd tok
    | none => checkKey rsa kwd tok
  | .NEED_KEY => checkKey rsa kwd tok
  | .OBJ_OK => .ok ()

/-- `get_next_token` from the first character that is not white space on. -/
def tokenAt (s : Text) : Except String (Token rsa × Text) :=
  let line := s.takeWhile (· ≠ '\n')
  let opt := line.takeWhile isWordChar = ['o', 'p', 't']
  if line.length > MAX_LINE_LENGTH then .error "Line far too long"
  else if ¬ opt ∧ s = [] then .error "Unexpected EOF"
  else do
    let (kwd, o_syn, tok) ← lineToken rsa table
      (if opt then eatWhitespaceEosNoNl (line.dropWhile isWordChar) else line)
    let (tok, rest) ← readObject rsa o_syn tok (eatWhitespaceEos (s.dropWhile (· ≠ '\n')))
    tokenCheckObject rsa kwd tok o_syn
    return (tok, rest)

/-- The next token and the text after it. -/
def getNextToken (s : Text) : Except String (Token rsa × Text) := tokenAt rsa table (eatWhitespaceEos s)

/-! ## Progress -/

theorem length_eatFrom (s : Text) : ∀ comment, (eatFrom comment s).length ≤ s.length := by
  induction s with
  | nil => intro _; exact Nat.le_refl _
  | cons c s ih =>
    intro comment
    unfold eatFrom
    split
    · exact Nat.le_succ_of_le (ih true)
    · split
      · exact Nat.le_succ_of_le (ih false)
      · split
        · exact Nat.le_succ_of_le (ih true)
        · exact Nat.le_refl _

theorem head_eatFrom (s : Text) : ∀ comment, ∀ c ∈ (eatFrom comment s).head?, c ≠ '\n' := by
  induction s with
  | nil => intro _ c hc; cases hc
  | cons d s ih =>
    intro comment
    unfold eatFrom
    split
    · exact ih true
    · split
      · exact ih false
      · split
        · exact ih true
        · intro c hc e
          cases hc
          subst e
          exact absurd (by decide) ‹¬ isWhitespace '\n' = true›

variable {rsa table}

theorem ok_bind {α β : Type} (a : α) (f : α → Except String β) : (Except.ok a >>= f) = f a := rfl

theorem bind_ok {α β : Type} {x : Except String α} {f : α → Except String β} {b : β} :
    (x >>= f) = .ok b ↔ ∃ a, x = .ok a ∧ f a = .ok b := by
  cases x with
  | error e => exact ⟨nofun, fun ⟨_, h, _⟩ => (by cases h)⟩
  | ok a => exact ⟨fun h => ⟨a, rfl, h⟩, fun ⟨_, h, hf⟩ => (by cases h; exact hf)⟩

variable {tok : Token rsa} {s rest kw : Text} {ws : List Text} {r : TokenRule}

theorem length_readObject {o_syn : ObjSyntax} {tok' : Token rsa}
    (h : readObject rsa o_syn tok s = .ok (tok', rest)) : rest.length ≤ s.length := by
  have hcut : ∀ (k m : Nat), (((s.drop k).drop m).dropWhile (· ≠ '\n')).length ≤ s.length := by
    intro k m
    exact le_trans (List.length_dropWhile_le _ _) (by simp)
  unfold readObject at h
  simp only at h
  repeat' split at h
  all_goals first
    | cases h; exact Nat.le_refl _
    | cases h; exact hcut _ _
    | cases h

theorem length_tokenAt (hs : ∀ c ∈ s.head?, c ≠ '\n')
    (h : tokenAt rsa table s = .ok (tok, rest)) : rest.length < s.length := by
  unfold tokenAt at h
  simp only at h
  split at h
  · cases h
  · split at h
    · cases h
    · next hopt =>
      obtain ⟨⟨kwd, o_syn, tok1⟩, -, h⟩ := bind_ok.mp h
      obtain ⟨⟨tok2, rest2⟩, hobj, h⟩ := bind_ok.mp h
      obtain ⟨-, -, h⟩ := bind_ok.mp h
      cases h
      have hrest := le_trans (length_readObject hobj) (length_eatFrom _ false)
      cases s with
      | nil => exact absurd ⟨by decide, rfl⟩ hopt
      | cons c s =>
        have hc : c ≠ '\n' := hs c rfl
        rw [List.dropWhile_cons_of_pos (by simpa using hc)] at hrest
        have := List.length_dropWhile_le (· ≠ '\n') s
        show rest2.length < s.length + 1
        omega

/-- A token takes at least its keyword line away. -/
theorem length_getNextToken (h : getNextToken rsa table s = .ok (tok, rest)) : rest.length < s.length :=
  lt_of_lt_of_le (length_tokenAt (head_eatFrom s false) h) (length_eatFrom s false)

/-! ## Documents -/

variable (rsa table)

/-- The loop of `tokenize_string`. -/
def tokenizeLoop (s : Text) : Except String (List (Token rsa)) :=
  if s = [] then .ok []
  else
    match _h : getNextToken rsa table s with
    | .error e => .error ("parse error: " ++ e)
    | .ok (tok, rest) => (tokenizeLoop (eatWhitespaceEos rest)).map (tok :: ·)
termination_by s.length
decreasing_by exact lt_of_le_of_lt (length_eatFrom rest false) (length_getNextToken _h)

/-- The checks of one rule over all tokens. -/
def checkRule (out : List (Token rsa)) (r : TokenRule) : Except String Unit :=
  let count := out.countP fun tok => tok.tp = r.v
  if count < r.minCnt then .error ("Parse error: missing " ++ String.ofList r.t ++ " element.")
  else if count > r.maxCnt then .error ("Parse error: too many " ++ String.ofList r.t ++ " elements.")
  else if r.atStart ∧ (out.head?.map Token.tp) ≠ some r.v then
    .error ("Parse error: first item is not " ++ String.ofList r.t ++ ".")
  else if r.atEnd ∧ (out.getLast?.map Token.tp) ≠ some r.v then
    .error ("Parse error: last item is not " ++ String.ofList r.t ++ ".")
  else .ok ()

/-- `tokenize_string` into an empty list and with no flags, as router entries are read. -/
def tokenizeString (s : Text) : Except String (List (Token rsa)) :=
  if '\x00' ∈ s then .error "parse error: internal NUL character."
  else do
    let out ← tokenizeLoop rsa table s
    if out.any fun tok => tok.tp = .A_UNKNOWN_ then .error "parse error: no annotations allowed."
    table.forM (checkRule rsa out)
    return out

/-! ## Reading back -/

variable {rsa table}

structure Word (w : Text) : Prop where
  ne_nil : w ≠ []
  chars : ∀ c ∈ w, isWordChar c = true

/-- Words behind each other, a blank before each. -/
def blanked (ws : List Text) : Text := ws.flatMap (' ' :: ·)

theorem eatWhitespaceEos_word (h : ∀ c ∈ s.head?, isWordChar c = true) : eatWhitespaceEos s = s := by
  cases s with
  | nil => rfl
  | cons c s =>
    have hc := h c rfl
    simp only [isWordChar, decide_eq_true_eq] at hc
    push Not at hc
    obtain ⟨-, h1, h2, h3, h4, h5⟩ := hc
    simp [eatWhitespaceEos, eatFrom, isWhitespace, h1, h2, h3, h4, h5]

theorem head_word_append {w : Text} (hw : Word w) (s : Text) : ∀ c ∈ (w ++ s).head?, isWordChar c = true := by
  intro c hc
  rw [List.head?_append_of_ne_nil _ hw.ne_nil] at hc
  exact hw.chars c (List.mem_of_mem_head? hc)

theorem head_blanked (ws : List Text) : ∀ c ∈ (blanked ws).head?, isWordChar c = false := by
  intro c hc
  cases ws with
  | nil => cases hc
  | cons w ws =>
    rw [← Option.some.inj hc]
    decide

theorem argumentsFrom_succ {cp : Text} (h : cp ≠ []) (j : Nat) :
    argumentsFrom (j + 1) cp =
      match cp.dropWhile isWordChar with
      | [] => some [cp.takeWhile isWordChar]
      | _ :: rest => (argumentsFrom j (eatWhitespaceEos rest)).map (cp.takeWhile isWordChar :: ·) := by
  cases cp with
  | nil => exact absurd rfl h
  | cons c cp =>
    rw [argumentsFrom]
    exact h

theorem argumentsFrom_words (ws : List Text) : ∀ {w : Text} {j : Nat}, Word w → (∀ w ∈ ws, Word w) → ws.length < j →
    argumentsFrom j (w ++ blanked ws) = some (w :: ws) := by
  induction ws with
  | nil =>
    intro w j hw _ hj
    obtain ⟨i, rfl⟩ := Nat.exists_eq_succ_of_ne_zero (Nat.ne_of_gt hj)
    have htake := takeWhile_run hw.chars (head_blanked [])
    have hdrop := dropWhile_run hw.chars (head_blanked [])
    rw [argumentsFrom_succ (by simp [hw.ne_nil]), htake, hdrop]
    rfl
  | cons v ws ih =>
    intro w j hw hws hj
    obtain ⟨i, rfl⟩ := Nat.exists_eq_succ_of_ne_zero (Nat.ne_of_gt (Nat.zero_lt_of_lt hj))
    have hv := hws v List.mem_cons_self
    have htake := takeWhile_run hw.chars (head_blanked (v :: ws))
    have hdrop := dropWhile_run hw.chars (head_blanked (v :: ws))
    have ih := ih (j := i) hv (fun x hx => hws x (List.mem_cons_of_mem _ hx)) (Nat.lt_of_succ_lt_succ hj)
    rw [argumentsFrom_succ (by simp [hw.ne_nil]), htake, hdrop]
    show (argumentsFrom i (eatWhitespaceEos (v ++ blanked ws))).map _ = _
    rw [eatWhitespaceEos_word (head_word_append hv _), ih]
    rfl

/-- The words behind a keyword are its arguments. -/
theorem getTokenArguments_blanked (hws : ∀ w ∈ ws, Word w) (hargs : ws.length ≤ MAX_ARGS) :
    getTokenArguments (eatWhitespaceEosNoNl (blanked ws)) = some ws := by
  cases ws with
  | nil => rfl
  | cons w ws =>
    have hw := hws w List.mem_cons_self
    have hblank : ∀ c ∈ (w ++ blanked ws).head?, decide (c = ' ' ∨ c = '\t' ∨ c = '\r') = false := by
      intro c hc
      have hword := head_word_append hw _ c hc
      by_contra hne
      simp only [Bool.not_eq_false, decide_eq_true_eq] at hne
      rcases hne with rfl | rfl | rfl <;> exact absurd hword (by decide)
    have heat : eatWhitespaceEosNoNl (blanked (w :: ws)) = w ++ blanked ws := by
      show ([' '] ++ (w ++ blanked ws)).dropWhile _ = _
      exact dropWhile_run (List.all_eq_true.mp (by decide)) hblank
    rw [heat]
    exact argumentsFrom_words ws hw (fun x hx => hws x (List.mem_cons_of_mem _ hx)) hargs

/-- A line of a keyword and words is the rule's token with the words as arguments. -/
theorem lineToken_words (hfind : table.find? (fun r => r.t = kw) = some r)
    (hkw : ∀ c ∈ kw, isWordChar c = true) (hws : ∀ w ∈ ws, Word w) (hconcat : r.concatArgs = false)
    (hmin : r.minArgs ≤ ws.length) (hmax : ws.length ≤ r.maxArgs) (hargs : ws.length ≤ MAX_ARGS) :
    lineToken rsa table (kw ++ blanked ws) = .ok (r.t, r.os, { tp := r.v, args := ws }) := by
  have htake := takeWhile_run hkw (head_blanked ws)
  have hdrop := dropWhile_run hkw (head_blanked ws)
  have hwords := getTokenArguments_blanked hws hargs
  unfold lineToken
  rw [htake, hfind, hdrop]
  simp only [hconcat, hwords]
  show (if ws.length < r.minArgs then _ else if ws.length > r.maxArgs then _ else _) = _
  rw [if_neg (by omega), if_neg (by omega)]

/-- The parts of `get_next_token` on a line that does not start with `opt`. -/
theorem getNextToken_eq {line : Text} (hhead : ∀ c ∈ line.head?, isWordChar c = true) (hne : line ≠ []) (hnl : '\n' ∉ line)
    (hlen : line.length ≤ MAX_LINE_LENGTH) (hopt : line.takeWhile isWordChar ≠ ['o', 'p', 't']) (rest : Text) :
    getNextToken rsa table (line ++ '\n' :: rest) = (do
      let (kwd, o_syn, tok) ← lineToken rsa table line
      let (tok, rest) ← readObject rsa o_syn tok (eatWhitespaceEos rest)
      tokenCheckObject rsa kwd tok o_syn
      return (tok, rest)) := by
  have hin : ∀ c ∈ line, decide (c ≠ '\n') = true := by
    intro c hc
    simp only [decide_eq_true_eq]
    intro e
    exact hnl (e ▸ hc)
  have hout : ∀ c ∈ ('\n' :: rest).head?, decide (c ≠ '\n') = false := by
    intro c hc
    rw [← Option.some.inj hc]
    decide
  have htake := takeWhile_run hin hout
  have hdrop := dropWhile_run hin hout
  have hhead' : ∀ c ∈ (line ++ '\n' :: rest).head?, isWordChar c = true := by
    intro c hc
    rw [List.head?_append_of_ne_nil _ hne] at hc
    exact hhead c hc
  have heat : eatWhitespaceEos ('\n' :: rest) = eatWhitespaceEos rest := rfl
  unfold getNextToken tokenAt
  rw [eatWhitespaceEos_word hhead', htake, hdrop, heat]
  simp only
  rw [if_neg (by omega), if_neg fun h => absurd h.2 (by simp), if_neg hopt]

/-- The rule `r` admits a line with the keyword `kw` and the arguments `ws`. -/
structure Admits (table : List TokenRule) (r : TokenRule) (kw : Text) (ws : List Text) : Prop where
  find : table.find? (fun r => r.t = kw) = some r
  concat : r.concatArgs = false
  keyword : Word kw
  opt : kw ≠ ['o', 'p', 't']
  words : ∀ w ∈ ws, Word w
  minArgs : r.minArgs ≤ ws.length
  maxArgs : ws.length ≤ r.maxArgs
  maxWords : ws.length ≤ MAX_ARGS
  length : (kw ++ blanked ws).length ≤ MAX_LINE_LENGTH

theorem newline_notMem_word {w : Text} (hw : ∀ c ∈ w, isWordChar c = true) : '\n' ∉ w :=
  fun h => absurd (hw _ h) (by decide)

theorem newline_notMem_blanked (hws : ∀ w ∈ ws, Word w) : '\n' ∉ blanked ws := by
  intro h
  obtain ⟨w, hw, h⟩ := List.mem_flatMap.mp h
  rcases List.mem_cons.mp h with h | h
  · exact absurd h (by decide)
  · exact newline_notMem_word (hws w hw).chars h

theorem Admits.newline_notMem (h : Admits table r kw ws) : '\n' ∉ kw ++ blanked ws := by
  intro hm
  rcases List.mem_append.mp hm with hm | hm
  · exact newline_notMem_word h.keyword.chars hm
  · exact newline_notMem_blanked h.words hm

theorem getNextToken_admitted (h : Admits table r kw ws) (rest : Text) :
    getNextToken rsa table (kw ++ blanked ws ++ '\n' :: rest) = (do
      let (tok, rest) ← readObject rsa r.os { tp := r.v, args := ws } (eatWhitespaceEos rest)
      tokenCheckObject rsa r.t tok r.os
      return (tok, rest)) := by
  have hopt : (kw ++ blanked ws).takeWhile isWordChar ≠ ['o', 'p', 't'] := by
    rw [takeWhile_run h.keyword.chars (head_blanked ws)]
    exact h.opt
  rw [getNextToken_eq (head_word_append h.keyword _) (by simp [h.keyword.ne_nil]) h.newline_notMem h.length hopt,
    lineToken_words h.find h.keyword.chars h.words h.concat h.minArgs h.maxArgs h.maxWords]
  rfl

/-- A line without an object, then text that does not start with one. -/
theorem getNextToken_line (h : Admits table r kw ws) (hos : r.os = .NO_OBJ)
    (hrest : ∀ c ∈ rest.head?, isWordChar c = true) (hobj : ¬ beginTag <+: rest) :
    getNextToken rsa table (kw ++ blanked ws ++ '\n' :: rest) = .ok ({ tp := r.v, args := ws }, rest) := by
  have hread : ∀ tok : Token rsa, readObject rsa .NO_OBJ tok rest = .ok (tok, rest) := by
    intro tok
    unfold readObject
    rw [if_pos (.inr (.inr hobj))]
  rw [getNextToken_admitted h, hos, eatWhitespaceEos_word hrest, hread]
  rfl

/-- A PEM block with a public key. -/
theorem readObject_key {body : Text} {der : Bytes} {k : rsa.Key} (hdash : '-' ∉ body)
    (hlen : body.length ≤ MAX_UNPARSED_OBJECT_SIZE)
    (hbody : base64Decode (base64DecodeMaxsize body.length) body = some der) (hder : rsa.asn1Decode der = some k)
    (rest : Text) :
    readObject rsa .NEED_KEY_1024 tok
      (beginLine RSA_PUBLIC_TAG ++ '\n' :: (body ++ (endLine RSA_PUBLIC_TAG ++ '\n' :: rest))) =
      .ok ({ tok with objectType := some RSA_PUBLIC_TAG, objectBody := some der, key := some k }, '\n' :: rest) := by
  have hout : ∀ s : Text, ∀ c ∈ ('\n' :: s).head?, decide (c ≠ '\n') = false := by
    intro s c hc
    rw [← Option.some.inj hc]
    decide
  have hbegin : ∀ c ∈ beginLine RSA_PUBLIC_TAG, decide (c ≠ '\n') = true := List.all_eq_true.mp (by decide)
  have hend : ∀ c ∈ endLine RSA_PUBLIC_TAG, decide (c ≠ '\n') = true := List.all_eq_true.mp (by decide)
  have hsearch : search endTag (body ++ (endLine RSA_PUBLIC_TAG ++ '\n' :: rest)) = some body.length := by
    have hpre : endTag <+: endLine RSA_PUBLIC_TAG ++ '\n' :: rest := ⟨RSA_PUBLIC_TAG ++ dashes ++ '\n' :: rest, rfl⟩
    show search ('-' :: endTag.tail) _ = _
    rw [search_append _ hdash]
    show (search endTag _).map _ = _
    rw [search_at_start hpre, Option.map_some, Nat.zero_add]
  have hskip : (beginLine RSA_PUBLIC_TAG ++ '\n' :: (body ++ (endLine RSA_PUBLIC_TAG ++ '\n' :: rest))).drop
      ((beginLine RSA_PUBLIC_TAG).length + 1) = body ++ (endLine RSA_PUBLIC_TAG ++ '\n' :: rest) := by
    rw [← List.drop_drop, List.drop_left]
    rfl
  have hobj : ¬ ('\n' ∉ beginLine RSA_PUBLIC_TAG ++ '\n' :: (body ++ (endLine RSA_PUBLIC_TAG ++ '\n' :: rest)) ∨
      (beginLine RSA_PUBLIC_TAG).length < 11 ∨
      ¬ beginTag <+: beginLine RSA_PUBLIC_TAG ++ '\n' :: (body ++ (endLine RSA_PUBLIC_TAG ++ '\n' :: rest))) := by
    intro h
    rcases h with h | h | h
    · exact h (by simp)
    · exact absurd h (by decide)
    · exact h ⟨RSA_PUBLIC_TAG ++ dashes ++ '\n' :: (body ++ (endLine RSA_PUBLIC_TAG ++ '\n' :: rest)), rfl⟩
  have hname : ((beginLine RSA_PUBLIC_TAG).drop 11).take ((beginLine RSA_PUBLIC_TAG).length - 16) = RSA_PUBLIC_TAG := rfl
  unfold readObject
  simp only
  rw [takeWhile_run hbegin (hout _), if_neg hobj, if_neg (by decide), hskip, hsearch, hname]
  simp only [List.drop_left, List.take_left]
  rw [takeWhile_run hend (hout _), dropWhile_run hend (hout _), if_neg (by decide), if_neg (by omega), hbody]
  simp only
  rw [if_pos trivial, if_neg (by decide), hder]

/-- A line with a 1024-bit public key after it. -/
theorem getNextToken_key (h : Admits table r kw ws) (hos : r.os = .NEED_KEY_1024)
    {body : Text} {der : Bytes} {k : rsa.Key} (hdash : '-' ∉ body) (hlen : body.length ≤ MAX_UNPARSED_OBJECT_SIZE)
    (hbody : base64Decode (base64DecodeMaxsize body.length) body = some der) (hder : rsa.asn1Decode der = some k)
    (hbits : rsa.numBits k = 1024) (hpublic : rsa.keyIsPrivate k = false) (rest : Text) :
    getNextToken rsa table (kw ++ blanked ws ++ '\n' :: (beginLine RSA_PUBLIC_TAG ++ '\n' ::
      (body ++ (endLine RSA_PUBLIC_TAG ++ '\n' :: rest)))) =
      .ok ({ tp := r.v, args := ws, objectType := some RSA_PUBLIC_TAG, objectBody := some der, key := some k },
        '\n' :: rest) := by
  have hword : ∀ s : Text, ∀ c ∈ (beginLine RSA_PUBLIC_TAG ++ s).head?, isWordChar c = true := by
    intro s c hc
    rw [← Option.some.inj hc]
    decide
  rw [getNextToken_admitted h, hos, eatWhitespaceEos_word (hword _), readObject_key hdash hlen hbody hder, ok_bind]
  simp only [tokenCheckObject, checkKey, hbits, hpublic]
  rfl

/-! ## Whole documents -/

theorem tokenizeLoop_nil : tokenizeLoop rsa table [] = .ok [] := by
  rw [tokenizeLoop, if_pos rfl]

theorem tokenizeLoop_cons (h : getNextToken rsa table s = .ok (tok, rest)) :
    tokenizeLoop rsa table s = (tokenizeLoop rsa table (eatWhitespaceEos rest)).map (tok :: ·) := by
  have hne : s ≠ [] := by
    intro e
    have := length_getNextToken h
    rw [e] at this
    exact absurd this (Nat.not_lt_zero _)
  rw [tokenizeLoop, if_neg hne]
  split
  · next he => rw [h] at he; cases he
  · next he => rw [h] at he; cases he; rfl

end

end Badnet.Dirparse
