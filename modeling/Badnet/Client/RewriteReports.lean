/-
  Badnet.Client.RewriteReports — what `addressmap_rewrite` says of its effect.

  A turn that rewrites nothing leaves the buffer alone, with one exception: an entry that replaces the domain was found,
  the address was cut for it, and then the flags refuse the entry. So a rewriting reports its effect unless it comes to
  rest at such an entry (`rewrite_reports_its_effect`).
-/

import Badnet.Client.Addressmap
import Badnet.Lib.Settle

namespace Badnet.Client

open Encoding Net Lib

section
variable (map : Addressmap) (flags : AmrFlags) (maxlen : Nat)

/-! ## Which entry is for an address -/

variable (address : Text) (ent : AddressmapEntry)

def ExactEntry (newAddress : Text) : Prop :=
  map address = some ent ∧ ent.newAddress = some newAddress

/-- A rule like "rewrite *.example.com to example.com", for "example.com". -/
def Complete (newAddress : Text) : Prop :=
  ent.srcWildcard = true ∧ ent.dstWildcard = false ∧ sameCase address newAddress = true

/-- The entry that the matcher of suffixes finds, and the part of the address that it leaves in the buffer. -/
def SuffixEntry (front : Text) : Prop :=
  (∀ e newAddress, ¬ ExactEntry map address e newAddress) ∧ addressmapMatchSuperdomains map address = (some ent, front)

variable (address' : Text)

def ByExact : Prop :=
  ∃ ent newAddress, ExactEntry map address ent newAddress ∧ ¬ Complete address ent newAddress ∧
    mappingAllowed flags ent.source newAddress = true ∧ address' = strlcpy address newAddress maxlen

def BySuffix : Prop :=
  ∃ ent newAddress front, SuffixEntry map address ent front ∧ ent.newAddress = some newAddress ∧
    mappingAllowed flags ent.source newAddress = true ∧
    address' = if ent.dstWildcard then strlcat (strlcat front ['.'] maxlen) newAddress maxlen
      else strlcpy front newAddress maxlen

/-- The address is to be rewritten. -/
def Applies : Prop := ByExact map flags maxlen address address' ∨ BySuffix map flags maxlen address address'

/-- The first entry for a suffix replaces the domain but is not used; `front` is what stands before the domain. -/
def RefusedDouble (front : Text) : Prop :=
  ∃ ent, SuffixEntry map address ent front ∧ ent.dstWildcard = true ∧
    ∀ newAddress, ent.newAddress = some newAddress → mappingAllowed flags ent.source newAddress = false

/-- Nothing is to be done with the address. -/
def AtRest : Prop :=
  (∀ address', ¬ Applies map flags maxlen address address') ∧ ∀ front, ¬ RefusedDouble map flags address front

/-- `k` rewrites from one address to another. -/
inductive Rewrites : Nat → Text → Text → Prop
  | refl (address : Text) : Rewrites 0 address address
  | step {k : Nat} {a a' b : Text} : Applies map flags maxlen a a' → Rewrites k a' b → Rewrites (k + 1) a b

end

section
variable {map : Addressmap} {flags : AmrFlags} {maxlen : Nat}

/-! ## One turn -/

/-- The matcher cuts the address only for an entry that replaces the domain. -/
theorem superdomainsFrom_cases (before cp : Text) :
    superdomainsFrom map before cp = (none, before ++ cp) ∨
    ∃ ent front rest, superdomainsFrom map before cp = (some ent, if ent.dstWildcard then front else before ++ cp) ∧
      before ++ cp = front ++ '.' :: rest := by
  induction cp generalizing before with
  | nil => exact .inl (by rw [superdomainsFrom, List.append_nil])
  | cons c cp ih =>
    have hshift : before ++ c :: cp = (before ++ [c]) ++ cp := by rw [List.append_assoc, List.singleton_append]
    by_cases hdot : c = '.'
    · subst hdot
      have hskip := ih (before ++ ['.'])
      rw [← hshift] at hskip
      cases hmap : map (torStrlower cp) with
      | none =>
        simp only [superdomainsFrom, hmap, if_true]
        exact hskip
      | some val =>
        by_cases hsrc : val.srcWildcard = true
        · refine .inr ⟨val, before, cp, ?_, rfl⟩
          simp only [superdomainsFrom, hmap, hsrc, if_true]
        · simp only [superdomainsFrom, hmap, hsrc, if_true, Bool.false_eq_true, if_false]
          exact hskip
    · have hskip := ih (before ++ [c])
      rw [← hshift] at hskip
      simp only [superdomainsFrom, if_neg hdot]
      exact hskip

variable {address buffer newAddress front a a' : Text} {ent e : AddressmapEntry}

theorem matchSuperdomains_none (h : addressmapMatchSuperdomains map address = (none, buffer)) :
    buffer = address := by
  rcases @superdomainsFrom_cases map [] address with hnone | ⟨ent, front, rest, hsome, -⟩
  · exact (congrArg Prod.snd (h.symm.trans hnone))
  · cases h.symm.trans hsome

theorem matchSuperdomains_single
    (h : addressmapMatchSuperdomains map address = (some ent, buffer)) (hdst : ent.dstWildcard = false) : buffer = address := by
  rcases @superdomainsFrom_cases map [] address with hnone | ⟨ent', front, rest, hsome, -⟩
  · cases h.symm.trans hnone
  · obtain ⟨hent, hbuffer⟩ := Prod.mk.inj (h.symm.trans hsome)
    obtain rfl := Option.some.inj hent
    rw [hbuffer, hdst]
    rfl

theorem matchSuperdomains_double
    (h : addressmapMatchSuperdomains map address = (some ent, buffer)) (hdst : ent.dstWildcard = true) : buffer ≠ address := by
  rcases @superdomainsFrom_cases map [] address with hnone | ⟨ent', front, rest, hsome, hsplit⟩
  · cases h.symm.trans hnone
  · obtain ⟨hent, hbuffer⟩ := Prod.mk.inj (h.symm.trans hsome)
    obtain rfl := Option.some.inj hent
    rw [hdst, if_pos rfl] at hbuffer
    intro heq
    have hlen := congrArg List.length (hsplit.symm.trans (heq.symm.trans hbuffer))
    simp at hlen

/-- There is an entry with a new address under the address itself, and it counts. -/
theorem rewriteOnce_exact (h : ExactEntry map address ent newAddress) : rewriteOnce map flags maxlen address =
      if ent.srcWildcard && !ent.dstWildcard && sameCase address newAddress then .done address
      else if mappingAllowed flags ent.source newAddress then .rewritten (strlcpy address newAddress maxlen) ent
      else .done address := by
  simp only [rewriteOnce, h.1, h.2, applyEntry]
  cases mappingAllowed flags ent.source newAddress <;> simp

theorem rewriteOnce_suffix (h : ∀ e newAddress, ¬ ExactEntry map address e newAddress) :
    rewriteOnce map flags maxlen address = rewriteBySuperdomain map flags maxlen address := by
  unfold rewriteOnce
  split
  · rfl
  next ent hent =>
    split
    · rfl
    next newAddress hnew => exact absurd ⟨hent, hnew⟩ (h ent newAddress)

theorem not_suffix_of_exact (h : ExactEntry map address ent newAddress) :
    ¬ SuffixEntry map address e front := fun hsuffix => hsuffix.1 ent newAddress h

theorem ExactEntry.unique {n n' : Text} {e' : AddressmapEntry} (h : ExactEntry map address e n)
    (h' : ExactEntry map address e' n') : e = e' ∧ n = n' := by
  obtain rfl := Option.some.inj (h.1.symm.trans h'.1)
  exact ⟨rfl, Option.some.inj (h.2.symm.trans h'.2)⟩

theorem SuffixEntry.unique {f f' : Text} {e' : AddressmapEntry} (h : SuffixEntry map address e f)
    (h' : SuffixEntry map address e' f') : e = e' ∧ f = f' := by
  obtain ⟨he, hf⟩ := Prod.mk.inj (h.2.symm.trans h'.2)
  exact ⟨Option.some.inj he, hf⟩

/-- What a turn does, said without the buffer. -/
inductive TurnSpec (map : Addressmap) (flags : AmrFlags) (maxlen : Nat) (address : Text) : RewriteTurn → Prop
  | rewritten {address' : Text} {ent : AddressmapEntry} :
      Applies map flags maxlen address address' → TurnSpec map flags maxlen address (.rewritten address' ent)
  | rest : AtRest map flags maxlen address → TurnSpec map flags maxlen address (.done address)
  | refused {front : Text} : RefusedDouble map flags address front → TurnSpec map flags maxlen address (.done front)

theorem turnSpec_exact (h : ExactEntry map address ent newAddress) :
    TurnSpec map flags maxlen address (rewriteOnce map flags maxlen address) := by
  have hrefused : ∀ front, ¬ RefusedDouble map flags address front := fun front hrefused =>
    not_suffix_of_exact h hrefused.choose_spec.1
  have hnot : ¬ (¬ Complete address ent newAddress ∧ mappingAllowed flags ent.source newAddress = true) →
      ∀ address', ¬ Applies map flags maxlen address address' := by
    rintro hno address' (⟨e, n, he, hcomplete, hallowed, -⟩ | ⟨e, n, front, he, -⟩)
    · obtain ⟨rfl, rfl⟩ := h.unique he
      exact hno ⟨hcomplete, hallowed⟩
    · exact not_suffix_of_exact h he
  rw [rewriteOnce_exact h]
  by_cases hcomplete : Complete address ent newAddress
  · rw [if_pos (by simp [hcomplete.1, hcomplete.2.1, hcomplete.2.2])]
    exact .rest ⟨hnot fun hno => hno.1 hcomplete, hrefused⟩
  · have hcond : ¬ (ent.srcWildcard && !ent.dstWildcard && sameCase address newAddress) = true := fun hcond =>
      hcomplete (by simpa [Complete, and_assoc] using hcond)
    rw [if_neg hcond]
    by_cases hallowed : mappingAllowed flags ent.source newAddress = true
    · rw [if_pos hallowed]
      exact .rewritten (.inl ⟨ent, newAddress, h, hcomplete, hallowed, rfl⟩)
    · rw [if_neg hallowed]
      exact .rest ⟨hnot fun hno => hallowed hno.2, hrefused⟩

/-- No entry applies where the one for a suffix is not used. -/
theorem SuffixEntry.not_applies (h : SuffixEntry map address ent front)
    (hunused : ∀ newAddress, ent.newAddress = some newAddress → mappingAllowed flags ent.source newAddress = false)
    (address' : Text) : ¬ Applies map flags maxlen address address' := by
  rintro (⟨e, n, he, -⟩ | ⟨e, n, f, he, hnew, hallowed, -⟩)
  · exact h.1 e n he
  · obtain ⟨rfl, rfl⟩ := h.unique he
    rw [hunused n hnew] at hallowed
    cases hallowed

theorem RefusedDouble.not_applies (h : RefusedDouble map flags address front) (address' : Text) :
    ¬ Applies map flags maxlen address address' := by
  obtain ⟨ent, hent, -, hunused⟩ := h
  exact hent.not_applies hunused address'

/-- Only an entry that replaces the domain leaves its mark. -/
theorem turnSpec_unused (h : SuffixEntry map address ent front)
    (hunused : ∀ newAddress, ent.newAddress = some newAddress → mappingAllowed flags ent.source newAddress = false) :
    TurnSpec map flags maxlen address (.done front) := by
  by_cases hdst : ent.dstWildcard = true
  · exact .refused ⟨ent, h, hdst, hunused⟩
  · have hsame := matchSuperdomains_single h.2 (Bool.eq_false_iff.mpr hdst)
    rw [hsame]
    refine .rest ⟨h.not_applies hunused, ?_⟩
    rintro f ⟨e, he, hdst', -⟩
    obtain ⟨rfl, -⟩ := h.unique he
    exact hdst hdst'

theorem turnSpec_suffix (h : ∀ e newAddress, ¬ ExactEntry map address e newAddress) :
    TurnSpec map flags maxlen address (rewriteOnce map flags maxlen address) := by
  rw [rewriteOnce_suffix h, rewriteBySuperdomain]
  split
  next buffer hmatch =>
    rw [matchSuperdomains_none hmatch]
    refine .rest ⟨?_, ?_⟩
    · rintro address' (⟨e, n, he, -⟩ | ⟨e, n, f, he, -⟩)
      · exact h e n he
      · cases hmatch.symm.trans he.2
    · rintro f ⟨e, he, -⟩
      cases hmatch.symm.trans he.2
  next ent front hmatch =>
    have hsuffix : SuffixEntry map address ent front := ⟨h, hmatch⟩
    cases hnew : ent.newAddress with
    | none =>
      simp only [applyEntry, hnew]
      exact turnSpec_unused hsuffix fun newAddress h' => by cases hnew.symm.trans h'
    | some newAddress =>
      by_cases hallowed : mappingAllowed flags ent.source newAddress = true
      · have hby : ∀ {a : Text}, (a = if ent.dstWildcard then strlcat (strlcat front ['.'] maxlen) newAddress maxlen
            else strlcpy front newAddress maxlen) → Applies map flags maxlen address a := fun heq =>
          .inr ⟨ent, newAddress, front, hsuffix, hnew, hallowed, heq⟩
        cases hdst : ent.dstWildcard with
        | true =>
          simp only [applyEntry, hnew, hallowed, hdst, Bool.not_true, Bool.not_false, Bool.and_true, Bool.false_eq_true,
            if_false, if_true]
          exact .rewritten (hby (by rw [hdst, if_pos rfl]))
        | false =>
          simp only [applyEntry, hnew, hallowed, hdst, Bool.not_true, Bool.false_and, Bool.false_eq_true, if_false]
          exact .rewritten (hby (by rw [hdst, if_neg Bool.false_ne_true]))
      · have hrefused : mappingAllowed flags ent.source newAddress = false := Bool.eq_false_iff.mpr hallowed
        simp only [applyEntry, hnew, hrefused, Bool.not_false, if_true]
        refine turnSpec_unused hsuffix fun n hn => ?_
        obtain rfl := Option.some.inj (hnew.symm.trans hn)
        exact hrefused

theorem turnSpec (map : Addressmap) (flags : AmrFlags) (maxlen : Nat) (address : Text) :
    ∃ turn, rewriteOnce map flags maxlen address = turn ∧ TurnSpec map flags maxlen address turn := by
  refine ⟨_, rfl, ?_⟩
  by_cases h : ∃ ent newAddress, ExactEntry map address ent newAddress
  · obtain ⟨ent, newAddress, hexact⟩ := h
    exact turnSpec_exact hexact
  · exact turnSpec_suffix fun ent newAddress hexact => h ⟨ent, newAddress, hexact⟩

theorem Applies.unique (h : Applies map flags maxlen address a)
    (h' : Applies map flags maxlen address a') : a = a' := by
  rcases h with ⟨e, n, he, -, -, rfl⟩ | ⟨e, n, f, he, hn, -, rfl⟩ <;>
    rcases h' with ⟨e', n', he', -, -, rfl⟩ | ⟨e', n', f', he', hn', -, rfl⟩
  · obtain ⟨rfl, rfl⟩ := he.unique he'
    rfl
  · exact absurd he' (not_suffix_of_exact he)
  · exact absurd he (not_suffix_of_exact he')
  · obtain ⟨rfl, rfl⟩ := he.unique he'
    obtain rfl := Option.some.inj (hn.symm.trans hn')
    rfl

theorem RefusedDouble.unique {f f' : Text} (h : RefusedDouble map flags address f)
    (h' : RefusedDouble map flags address f') : f = f' := by
  obtain ⟨e, he, -⟩ := h
  obtain ⟨e', he', -⟩ := h'
  exact (he.unique he').2

/-! ## The loop -/

/-- The turn with what becomes of the buffer only. -/
def rewriteTurn (map : Addressmap) (flags : AmrFlags) (maxlen : Nat) (address : Text) : Turn Text :=
  match rewriteOnce map flags maxlen address with
  | .done address => .rest address
  | .rewritten address _ => .next address

theorem rewriteLoop_settle (addrOrig : Text) (n : Nat) (st : Rewriting) :
    (rewriteLoop map flags maxlen addrOrig n st).address = (settle (rewriteTurn map flags maxlen) n st.address).2 ∧
    (rewriteLoop map flags maxlen addrOrig n st).rewrites =
      st.rewrites + (settle (rewriteTurn map flags maxlen) n st.address).1 := by
  induction n generalizing st with
  | zero => exact ⟨rfl, rfl⟩
  | succ n ih =>
    cases hturn : rewriteOnce map flags maxlen st.address with
    | done address =>
      rw [settle_rest n (by rw [rewriteTurn, hturn]), rewriteLoop, hturn]
      exact ⟨rfl, rfl⟩
    | rewritten address ent =>
      obtain ⟨haddress, hrewrites⟩ := ih (st.byEntry addrOrig address ent)
      rw [settle_next n (by rw [rewriteTurn, hturn]), rewriteLoop, hturn]
      refine ⟨haddress, hrewrites.trans ?_⟩
      rw [Rewriting.byEntry, Nat.add_assoc, Nat.add_comm 1]

theorem rewriteTurn_next : rewriteTurn map flags maxlen a = .next a' ↔ Applies map flags maxlen a a' := by
  obtain ⟨turn, hturn, hspec⟩ := turnSpec map flags maxlen a
  rw [rewriteTurn, hturn]
  cases hspec with
  | rewritten happlies =>
    constructor
    · intro h
      cases h
      exact happlies
    · intro h
      rw [happlies.unique h]
  | rest hrest => exact ⟨nofun, fun h => absurd h (hrest.1 a')⟩
  | refused hrefused => exact ⟨nofun, fun h => absurd h (hrefused.not_applies a')⟩

theorem goesOn_iff {k : Nat} {b : Text} :
    GoesOn (rewriteTurn map flags maxlen) k a b ↔ Rewrites map flags maxlen k a b := by
  constructor
  · intro h
    induction h with
    | refl a => exact .refl a
    | step hnext _ ih => exact .step (rewriteTurn_next.mp hnext) ih
  · intro h
    induction h with
    | refl a => exact .refl a
    | step happlies _ ih => exact .step (rewriteTurn_next.mpr happlies) ih

theorem rewriteTurn_stays : rewriteTurn map flags maxlen a = .rest a ↔ AtRest map flags maxlen a := by
  obtain ⟨turn, hturn, hspec⟩ := turnSpec map flags maxlen a
  rw [rewriteTurn, hturn]
  constructor
  · intro h
    cases hspec with
    | rewritten happlies => cases h
    | rest hrest => exact hrest
    | refused hrefused =>
      cases h
      obtain ⟨ent, hent, hdst, -⟩ := hrefused
      exact absurd rfl (matchSuperdomains_double hent.2 hdst)
  · intro hrest
    cases hspec with
    | rewritten happlies => exact absurd happlies (hrest.1 _)
    | rest _ => rfl
    | refused hrefused => exact absurd hrefused (hrest.2 _)

/-- A rest that leaves another address in the buffer is at a refused entry. -/
theorem rewriteTurn_cut : rewriteTurn map flags maxlen a = .rest a' ∧ a' ≠ a ↔ RefusedDouble map flags a a' := by
  obtain ⟨turn, hturn, hspec⟩ := turnSpec map flags maxlen a
  rw [rewriteTurn, hturn]
  cases hspec with
  | rewritten happlies => exact ⟨fun h => (by cases h.1), fun h => absurd happlies (h.not_applies _)⟩
  | rest hrest =>
    refine ⟨fun h => ?_, fun h => absurd h (hrest.2 a')⟩
    cases h.1
    exact absurd rfl h.2
  | refused hrefused =>
    constructor
    · rintro ⟨h, -⟩
      cases h
      exact hrefused
    · intro hrefused'
      obtain rfl := hrefused.unique hrefused'
      obtain ⟨ent, hent, hdst, -⟩ := hrefused
      exact ⟨rfl, matchSuperdomains_double hent.2 hdst⟩

/-- A result 0 means that the address is unchanged, and a rewriting that stops before the limit has nothing left to do. -/
structure ReportsEffect (map : Addressmap) (flags : AmrFlags) (maxlen : Nat) (address : Text) : Prop where
  unchanged : (addressmapRewrite map flags maxlen address).changed = false →
    (addressmapRewrite map flags maxlen address).address = address
  fixed : (addressmapRewrite map flags maxlen address).rewrites < 16 →
    (addressmapRewrite map flags maxlen (addressmapRewrite map flags maxlen address).address).changed = false ∧
    (addressmapRewrite map flags maxlen (addressmapRewrite map flags maxlen address).address).address =
      (addressmapRewrite map flags maxlen address).address

theorem changed_eq_false {st : Rewriting} : st.changed = false ↔ st.rewrites = 0 := by
  rw [Rewriting.changed, decide_eq_false_iff_not, Nat.not_lt, Nat.le_zero]

theorem reportsEffect_iff :
    ReportsEffect map flags maxlen address ↔ Reports (rewriteTurn map flags maxlen) 16 address := by
  have haddress : ∀ a, (addressmapRewrite map flags maxlen a).address = (settle (rewriteTurn map flags maxlen) 16 a).2 :=
    fun a => (rewriteLoop_settle a 16 _).1
  have hrewrites : ∀ a, (addressmapRewrite map flags maxlen a).rewrites = (settle (rewriteTurn map flags maxlen) 16 a).1 :=
    fun a => (rewriteLoop_settle a 16 _).2.trans (Nat.zero_add _)
  constructor
  · rintro ⟨hsame, hfixed⟩
    simp only [changed_eq_false, haddress, hrewrites] at hsame hfixed
    exact ⟨hsame, fun hearly => Prod.ext (hfixed hearly).1 (hfixed hearly).2⟩
  · rintro ⟨hsame, hfixed⟩
    constructor
    · simpa only [changed_eq_false, haddress, hrewrites] using hsame
    · intro hearly
      rw [hrewrites] at hearly
      simp only [changed_eq_false, haddress, hrewrites, hfixed hearly, and_self]

/-- A rewriting reports its effect unless it comes to rest at an entry that replaces the domain and is refused, after
at least one rewrite and with something left to be done. -/
theorem rewrite_reports_its_effect (map : Addressmap) (flags : AmrFlags) (maxlen : Nat) (address : Text) :
    ReportsEffect map flags maxlen address ↔
    ∀ k < 16, ∀ b front, Rewrites map flags maxlen k address b → RefusedDouble map flags b front →
      0 < k ∧ AtRest map flags maxlen front := by
  rw [reportsEffect_iff, reports_iff (Nat.succ_pos 15)]
  constructor
  · intro h k hk b front hgoes hrefused
    obtain ⟨hrest, hne⟩ := rewriteTurn_cut.mpr hrefused
    obtain ⟨hpos, hagain⟩ := (h k hk b front (goesOn_iff.mpr hgoes) hrest).resolve_left hne
    exact ⟨hpos, rewriteTurn_stays.mp hagain⟩
  · intro h k hk b front hgoes hrest
    by_cases hsame : front = b
    · exact .inl hsame
    · obtain ⟨hpos, hagain⟩ := h k hk b front (goesOn_iff.mp hgoes) (rewriteTurn_cut.mp ⟨hrest, hsame⟩)
      exact .inr ⟨hpos, rewriteTurn_stays.mpr hagain⟩

/-- "*.example.com *.example.net" of the configuration, which a rewriting without that flag is not to use. -/
def exampleMap : Addressmap := fun address =>
  if address = "example.com".toList then some ⟨some "example.net".toList, 0, .TORRC, true, true⟩ else none

def otherFlags : AmrFlags where
  useIpv4Dns := true
  useIpv6Dns := true
  useMapaddress := false
  useAutomap := true
  useTrackexit := true

/-- The result is 0, and the address has lost its domain. -/
theorem a_refused_rule_cuts_the_address :
    (addressmapRewrite exampleMap otherFlags 256 "a.example.com".toList).changed = false ∧
    (addressmapRewrite exampleMap otherFlags 256 "a.example.com".toList).address = "a".toList ∧
    ¬ ReportsEffect exampleMap otherFlags 256 "a.example.com".toList := by
  have hcut : (addressmapRewrite exampleMap otherFlags 256 "a.example.com".toList).address = "a".toList := by decide +kernel
  have hzero : (addressmapRewrite exampleMap otherFlags 256 "a.example.com".toList).changed = false := by decide +kernel
  refine ⟨hzero, hcut, fun h => ?_⟩
  have hsame := h.unchanged hzero
  rw [hcut] at hsame
  exact absurd hsame (by decide)

end

end Badnet.Client
