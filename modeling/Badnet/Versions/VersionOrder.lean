/-
  Badnet.Versions.VersionOrder — when the order of versions is one.

  All numbers of a version but the Subversion revision are below 2^31, where the sign of the wrapped difference is the
  right one. The revision is whatever `strtol` made of the string, cut to 32 bits, and the sign of its difference goes
  around in a circle. `version_order_total_iff` says which sets of strings are ordered; then all sorts of the same
  strings give the same classes in the same order.
-/

import Badnet.Lib.Lexicographic
import Badnet.Protover.Vote
import Badnet.Versions.Versions

namespace Badnet.Versions

open Lib Encoding Dirparse Protover

/-! ## The wrapped difference -/

theorem toInt_toInt32 (u : UInt32) : u.toInt32.toInt = if u.toNat < 2 ^ 31 then (u.toNat : Int) else (u.toNat : Int) - 4294967296 := by
  have h : u.toInt32.toInt = u.toBitVec.toInt := rfl
  rw [h, BitVec.toInt_eq_toNat_cond, UInt32.toNat_toBitVec]
  split <;> split <;> omega

theorem CMP_result (x y : UInt32) :
    (CMP x y < 0 ↔ (x - y).toInt32.toInt < 0) ∧ (0 < CMP x y ↔ 0 < (x - y).toInt32.toInt) := by
  have hzero : (0 : Int32).toInt = 0 := rfl
  simp only [CMP, gt_iff_lt, Int32.lt_iff_toInt_lt, hzero]
  split
  · omega
  split
  · omega
  · omega

/-- How far it is from one number to another, around the circle. -/
def ahead (x y : UInt32) : Nat := (2 ^ 32 - x.toNat + y.toNat) % 2 ^ 32

/-- The sign of CMP, by that. -/
theorem CMP_signs (x y : UInt32) : (CMP x y < 0 ↔ 2 ^ 31 ≤ ahead y x) ∧ (0 < CMP x y ↔ 0 < ahead y x ∧ ahead y x < 2 ^ 31) := by
  obtain ⟨hneg, hpos⟩ := CMP_result x y
  have hdiff := toInt_toInt32 (x - y)
  rw [UInt32.toNat_sub] at hdiff
  have hlt : ahead y x < 2 ^ 32 := Nat.mod_lt _ (by decide)
  rw [show (2 ^ 32 - y.toNat + x.toNat) % 2 ^ 32 = ahead y x from rfl] at hdiff
  rw [hneg, hpos, hdiff]
  split <;> omega

theorem CMP_zero_iff {x y : UInt32} : CMP x y = 0 ↔ x = y := by
  obtain ⟨hneg, hpos⟩ := CMP_signs x y
  have hx := x.toNat_lt
  have hy := y.toNat_lt
  rw [← UInt32.toNat_inj]
  simp only [ahead] at hneg hpos
  omega

/-- Below 2^31 the order is that of the numbers. -/
theorem CMP_orders {x y : UInt32} (hx : x.toNat < 2 ^ 31) (hy : y.toNat < 2 ^ 31) : Orders (CMP x y) x.toNat y.toNat := by
  obtain ⟨hneg, hpos⟩ := CMP_signs x y
  simp only [ahead] at hneg hpos
  exact ⟨by omega, by omega⟩

/-- The comparison of one field. -/
def byField {α : Type} (field : α → UInt32) (x y : α) : Int := CMP (field x) (field y)

theorem byField_totalPreorderOn {α : Type} {D : α → Prop} (field : α → UInt32) (h : ∀ x, D x → (field x).toNat < 2 ^ 31) :
    TotalPreorderOn D (byField field) := by
  have hby : ComparesBy D (byField field) fun x => (field x).toNat := fun x y hx hy => CMP_orders (h x hx) (h y hy)
  exact hby.totalPreorderOn (by omega)

theorem toUInt32_injective {x y : Int32} (h : x.toUInt32 = y.toUInt32) : x = y := by
  cases x
  cases y
  simpa using h

/-! ## Strings and bytes -/

theorem strcmp_swap (a b : Text) : strcmp a b = -strcmp b a := by
  induction a generalizing b with
  | nil => cases b <;> rfl
  | cons x a ih =>
    cases b with
    | nil => rfl
    | cons y b =>
      rw [strcmp_cons, strcmp_cons]
      by_cases h : x = y
      · rw [if_pos h, if_pos h.symm, ih]
      · rw [if_neg h, if_neg (Ne.symm h)]
        omega

theorem strcmp_totalPreorder : TotalPreorder strcmp where
  opposite a b _ _ := by rw [strcmp_swap a b, Int.sign_neg]
  trans _ _ _ _ _ _ := strcmp_trans

theorem strcmp_zero_iff {a b : Text} : strcmp a b = 0 ↔ a = b := by
  constructor
  · intro h
    refine strcmp_antisymm (Int.le_of_eq h) ?_
    rw [strcmp_swap, h]
    decide
  · rintro rfl
    exact TotalPreorderOn.refl strcmp_totalPreorder trivial

/-- Bytes as characters. -/
def chars (bytes : List UInt8) : Text := bytes.map fun b => Char.ofNat b.toNat

theorem toNat_char (b : UInt8) : (Char.ofNat b.toNat).toNat = b.toNat := by
  have hall : ∀ n < 256, (Char.ofNat n).toNat = n := by decide +kernel
  exact hall _ b.toNat_lt

theorem memcmp_eq_strcmp {a b : List UInt8} (h : a.length = b.length) : memcmp a b = strcmp (chars a) (chars b) := by
  induction a generalizing b with
  | nil =>
    obtain rfl := List.eq_nil_of_length_eq_zero h.symm
    rfl
  | cons x a ih =>
    cases b with
    | nil => cases h
    | cons y b =>
      have hchar : Char.ofNat x.toNat = Char.ofNat y.toNat ↔ x = y := by
        rw [← Char.toNat_inj, toNat_char, toNat_char, UInt8.toNat_inj]
      change (if x = y then memcmp a b else (x.toNat : Int) - y.toNat) = strcmp (_ :: _) (_ :: _)
      rw [strcmp_cons, toNat_char, toNat_char, ih (Nat.succ.inj h)]
      simp only [hchar]
      rfl

/-! ## The fields of what is parsed -/

/-- All numbers but the revision are below 2^31, and the tag has as many bytes as it says. -/
structure Parsed (v : TorVersion) : Prop where
  major : v.major.toUInt32.toNat < 2 ^ 31
  minor : v.minor.toUInt32.toNat < 2 ^ 31
  micro : v.micro.toUInt32.toNat < 2 ^ 31
  patchlevel : v.patchlevel.toUInt32.toNat < 2 ^ 31
  gitTagLen : v.gitTagLen.toUInt32.toNat < 2 ^ 31
  gitTag : v.gitTag.length = v.gitTagLen.toUInt32.toNat

theorem parsed_start : Parsed .start := ⟨by decide, by decide, by decide, by decide, by decide, rfl⟩

theorem toNat_ofNat_small {n : Nat} (hn : n ≤ INT32_MAX) : (Int32.ofNat n).toUInt32.toNat = n := by
  unfold INT32_MAX at hn
  rw [Int32.toUInt32_ofNat', UInt32.toNat_ofNat']
  omega

theorem parseNumber_lt {cp rest : Text} {n : Int32} (h : parseNumber cp = some (n, rest)) : n.toUInt32.toNat < 2 ^ 31 := by
  unfold parseNumber at h
  split at h
  · obtain ⟨⟨v, r⟩, hparse, heq⟩ := Option.map_eq_some_iff.mp h
    cases heq
    have hv : v ≤ INT32_MAX := by
      unfold torParseUlongNext at hparse
      simp only at hparse
      split at hparse
      · cases hparse
      next hrange =>
        cases hparse
        by_contra hlt
        exact hrange (by simp only [gt_iff_lt]; omega)
    rw [toNat_ofNat_small hv]
    unfold INT32_MAX at hv
    omega
  · cases h

variable {out v : TorVersion} {cp : Text}

theorem parseGitTag_parsed (hout : Parsed out) (h : parseGitTag out cp = some v) : Parsed v := by
  unfold parseGitTag at h
  simp only at h
  split at h
  · cases h
  split at h
  · cases h
  next hlen =>
    split at h
    · cases h
    split at h
    · cases h
    · split at h
      · cases h
      next hdigest =>
        cases h
        have hsmall : (cp.takeWhile (· ≠ ')')).length / 2 ≤ INT32_MAX := by
          unfold HEX_DIGEST_LEN at hlen
          unfold INT32_MAX
          omega
        refine ⟨hout.major, hout.minor, hout.micro, hout.patchlevel, ?_, ?_⟩
        · rw [toNat_ofNat_small hsmall]
          unfold INT32_MAX at hsmall
          omega
        · rw [toNat_ofNat_small hsmall]
          exact Decidable.not_not.mp hdigest

theorem parseStatusTag_parsed (hout : Parsed out) (h : parseStatusTag out cp = some v) : Parsed v := by
  unfold parseStatusTag at h
  generalize (if cp.head? = some '-' ∨ cp.head? = some '.' then cp.drop 1 else cp) = tail at h
  simp only at h
  split at h
  · cases h
    exact ⟨hout.major, hout.minor, hout.micro, hout.patchlevel, hout.gitTagLen, hout.gitTag⟩
  split at h
  · refine parseGitTag_parsed ?_ h
    exact ⟨hout.major, hout.minor, hout.micro, hout.patchlevel, hout.gitTagLen, hout.gitTag⟩
  · cases h
    exact ⟨hout.major, hout.minor, hout.micro, hout.patchlevel, hout.gitTagLen, hout.gitTag⟩

theorem parseMicro_parsed (hout : Parsed out) (h : parseMicro out cp = some v) : Parsed v := by
  obtain ⟨⟨micro, cp⟩, hmicro, h⟩ := Option.bind_eq_some_iff.mp h
  have hout' : Parsed { out with micro := micro } :=
    ⟨hout.major, hout.minor, parseNumber_lt hmicro, hout.patchlevel, hout.gitTagLen, hout.gitTag⟩
  simp only at h
  split at h
  · cases h
    exact hout'
  split at h
  · exact parseStatusTag_parsed hout' h
  · obtain ⟨⟨status, cp⟩, -, h⟩ := Option.bind_eq_some_iff.mp h
    obtain ⟨⟨patchlevel, cp⟩, hpatchlevel, h⟩ := Option.bind_eq_some_iff.mp h
    refine parseStatusTag_parsed ?_ h
    exact ⟨hout.major, hout.minor, parseNumber_lt hmicro, parseNumber_lt hpatchlevel, hout.gitTagLen, hout.gitTag⟩

theorem torVersionParse_parsed {s : Text} (h : torVersionParse s = some v) : Parsed v := by
  obtain ⟨⟨major, cp⟩, hmajor, h⟩ := Option.bind_eq_some_iff.mp h
  obtain ⟨cp, -, h⟩ := Option.bind_eq_some_iff.mp h
  obtain ⟨⟨minor, cp⟩, hminor, h⟩ := Option.bind_eq_some_iff.mp h
  have hout : Parsed { TorVersion.start with major := major, minor := minor } :=
    ⟨parseNumber_lt hmajor, parseNumber_lt hminor, parsed_start.micro, parsed_start.patchlevel, parsed_start.gitTagLen,
      parsed_start.gitTag⟩
  simp only at h
  split at h
  · cases h
    exact hout
  split at h
  · exact parseStatusTag_parsed hout h
  · obtain ⟨cp, -, h⟩ := Option.bind_eq_some_iff.mp h
    exact parseMicro_parsed hout h

/-! ## The order of versions -/

def byMajor : TorVersion → TorVersion → Int := byField fun v => v.major.toUInt32

def byMinor : TorVersion → TorVersion → Int := byField fun v => v.minor.toUInt32

def byMicro : TorVersion → TorVersion → Int := byField fun v => v.micro.toUInt32

def byStatus : TorVersion → TorVersion → Int := byField fun v => v.status.toUInt32

def byPatchlevel : TorVersion → TorVersion → Int := byField fun v => v.patchlevel.toUInt32

def byTag (a b : TorVersion) : Int := strcmp a.statusTag b.statusTag

def byRevision : TorVersion → TorVersion → Int := byField fun v => v.svnRevision.toUInt32

def byGitTagLen : TorVersion → TorVersion → Int := byField fun v => v.gitTagLen.toUInt32

def byGitTag (a b : TorVersion) : Int := if a.gitTagLen ≠ 0 then memcmp a.gitTag b.gitTag else 0

/-- All that is compared before the revision. -/
def byRelease : TorVersion → TorVersion → Int :=
  andThen byMajor (andThen byMinor (andThen byMicro (andThen byStatus (andThen byPatchlevel byTag))))

/-- And all that is compared behind it. -/
def byCommit : TorVersion → TorVersion → Int := andThen byGitTagLen byGitTag

theorem andThen_eq {α : Type} {c c' : α → α → Int} {x y : α} {r r' : Int} (h : c x y = r) (h' : c' x y = r') :
    andThen c c' x y = if r ≠ 0 then r else r' := by
  subst h h'
  rfl

theorem torVersionCompare_eq : torVersionCompare = andThen byRelease (andThen byRevision byCommit) := by
  simp only [byRelease, byCommit, andThen_assoc]
  funext a b
  symm
  exact andThen_eq rfl (andThen_eq rfl (andThen_eq rfl (andThen_eq rfl (andThen_eq rfl (andThen_eq rfl
    (andThen_eq rfl (andThen_eq rfl rfl)))))))

variable {V : TorVersion → Prop}

theorem strcmp_totalPreorderOn (f : TorVersion → Text) : TotalPreorderOn V fun a b => strcmp (f a) (f b) where
  opposite _ _ _ _ := strcmp_totalPreorder.opposite _ _ trivial trivial
  trans _ _ _ _ _ _ := strcmp_totalPreorder.trans _ _ _ trivial trivial trivial

theorem byRelease_totalPreorderOn (hV : ∀ v, V v → Parsed v) : TotalPreorderOn V byRelease := by
  have hstatus : ∀ v : TorVersion, v.status.toUInt32.toNat < 2 ^ 31 := fun v => by cases v.status <;> decide
  unfold byRelease
  refine (byField_totalPreorderOn _ fun v hv => (hV v hv).major).andThen fun r1 _ => ?_
  refine (byField_totalPreorderOn _ fun v hv => (hV v hv.1).minor).andThen fun r2 _ => ?_
  refine (byField_totalPreorderOn _ fun v hv => (hV v hv.1.1).micro).andThen fun r3 _ => ?_
  refine (byField_totalPreorderOn _ fun v _ => hstatus v).andThen fun r4 _ => ?_
  refine (byField_totalPreorderOn _ fun v hv => (hV v hv.1.1.1.1).patchlevel).andThen fun r5 _ => ?_
  exact strcmp_totalPreorderOn (·.statusTag)

theorem byCommit_totalPreorderOn (hV : ∀ v, V v → Parsed v) : TotalPreorderOn V byCommit := by
  unfold byCommit
  refine (byField_totalPreorderOn _ fun v hv => (hV v hv).gitTagLen).andThen fun r _ => ?_
  -- in a class all tags have the length of that of `r`
  have hlen : ∀ v, ClassOf V byGitTagLen r v → v.gitTagLen = r.gitTagLen ∧ v.gitTag.length = r.gitTagLen.toUInt32.toNat := by
    rintro v ⟨hv, hzero⟩
    have hsame : r.gitTagLen.toUInt32 = v.gitTagLen.toUInt32 := CMP_zero_iff.mp hzero
    exact ⟨toUInt32_injective hsame.symm, by rw [(hV v hv).gitTag, hsame]⟩
  by_cases hnone : r.gitTagLen = 0
  · have hzero : ∀ a b, ClassOf V byGitTagLen r a → ClassOf V byGitTagLen r b → byGitTag a b = 0 := by
      intro a b ha _
      exact if_neg fun hne => hne ((hlen a ha).1.trans hnone)
    exact (totalPreorderOn_congr hzero).mpr ⟨fun _ _ _ _ => rfl, fun _ _ _ _ _ _ _ _ => Int.le_refl 0⟩
  · have htags : ∀ a b, ClassOf V byGitTagLen r a → ClassOf V byGitTagLen r b →
        byGitTag a b = strcmp (chars a.gitTag) (chars b.gitTag) := by
      intro a b ha hb
      rw [byGitTag, if_pos fun heq => hnone ((hlen a ha).1.symm.trans heq)]
      exact memcmp_eq_strcmp ((hlen a ha).2.trans (hlen b hb).2.symm)
    exact (totalPreorderOn_congr htags).mpr (strcmp_totalPreorderOn fun v => chars v.gitTag)

/-! ## Revisions in a circle -/

/-- Two versions that are the same up to the tag. -/
structure SameRelease (a b : TorVersion) : Prop where
  major : a.major = b.major
  minor : a.minor = b.minor
  micro : a.micro = b.micro
  status : a.status = b.status
  patchlevel : a.patchlevel = b.patchlevel
  statusTag : a.statusTag = b.statusTag

theorem andThen_zero_iff {α : Type} {c c' : α → α → Int} {x y : α} : andThen c c' x y = 0 ↔ c x y = 0 ∧ c' x y = 0 := by
  by_cases h : c x y = 0
  · rw [andThen_of_zero h]
    exact ⟨fun h' => ⟨h, h'⟩, fun h' => h'.2⟩
  · rw [andThen_of_ne h]
    exact ⟨fun h' => absurd h' h, fun h' => h'.1⟩

theorem toUInt32_status {a b : VersionStatus} (h : a.toUInt32 = b.toUInt32) : a = b := by
  cases a <;> cases b <;> first | rfl | exact absurd h (by decide)

theorem byRelease_zero_iff {a b : TorVersion} : byRelease a b = 0 ↔ SameRelease a b := by
  simp only [byRelease, andThen_zero_iff, byMajor, byMinor, byMicro, byStatus, byPatchlevel, byTag, byField, CMP_zero_iff,
    strcmp_zero_iff]
  constructor
  · rintro ⟨h1, h2, h3, h4, h5, h6⟩
    exact ⟨toUInt32_injective h1, toUInt32_injective h2, toUInt32_injective h3, toUInt32_status h4, toUInt32_injective h5, h6⟩
  · intro h
    rw [h.major, h.minor, h.micro, h.status, h.patchlevel, h.statusTag]
    exact ⟨rfl, rfl, rfl, rfl, rfl, rfl⟩

/-- How far the revision of one version is ahead of that of another. -/
def revisionsAhead (a b : TorVersion) : Nat := ahead a.svnRevision.toUInt32 b.svnRevision.toUInt32

/-- Less than half the circle ahead. -/
def Before (a b : TorVersion) : Prop := 0 < revisionsAhead a b ∧ revisionsAhead a b < 2 ^ 31

/-- Two versions half the circle apart, or three that go around it. -/
def GoesAround (E : TorVersion → Prop) : Prop :=
  (∃ a b, E a ∧ E b ∧ revisionsAhead a b = 2 ^ 31) ∨
  ∃ a b c, E a ∧ E b ∧ E c ∧ Before a b ∧ Before b c ∧ Before c a

theorem byRevision_signs (a b : TorVersion) :
    (byRevision a b < 0 ↔ 2 ^ 31 ≤ revisionsAhead b a) ∧
      (0 < byRevision a b ↔ 0 < revisionsAhead b a ∧ revisionsAhead b a < 2 ^ 31) :=
  CMP_signs a.svnRevision.toUInt32 b.svnRevision.toUInt32

theorem revisionsAhead_lt (a b : TorVersion) : revisionsAhead a b < 2 ^ 32 := Nat.mod_lt _ (by decide)

/-- The way there and the way back make the whole circle. -/
theorem revisionsAhead_back (a b : TorVersion) :
    (revisionsAhead a b = 0 ∧ revisionsAhead b a = 0) ∨ revisionsAhead a b + revisionsAhead b a = 2 ^ 32 := by
  have ha := a.svnRevision.toUInt32.toNat_lt
  have hb := b.svnRevision.toUInt32.toNat_lt
  simp only [revisionsAhead, ahead]
  omega

theorem revisionsAhead_trans (a b c : TorVersion) :
    revisionsAhead a c = (revisionsAhead a b + revisionsAhead b c) % 2 ^ 32 := by
  have hb := b.svnRevision.toUInt32.toNat_lt
  simp only [revisionsAhead, ahead]
  omega

variable {E : TorVersion → Prop}

theorem byRevision_totalPreorderOn (h : ¬ GoesAround E) : TotalPreorderOn E byRevision where
  opposite a b ha hb := by
    have hhalf : revisionsAhead a b ≠ 2 ^ 31 := fun heq => h (.inl ⟨a, b, ha, hb, heq⟩)
    have hab := byRevision_signs a b
    have hba := byRevision_signs b a
    have hback := revisionsAhead_back a b
    have hlt := revisionsAhead_lt a b
    have hlt' := revisionsAhead_lt b a
    refine sign_opposite_iff.mpr ⟨?_, ?_⟩
    · rw [hab.1, hba.2]
      omega
    · rw [hab.2, hba.1]
      omega
  trans a b c ha hb hc hab hbc := by
    have hhalf : revisionsAhead a b ≠ 2 ^ 31 := fun heq => h (.inl ⟨a, b, ha, hb, heq⟩)
    have hhalf' : revisionsAhead b c ≠ 2 ^ 31 := fun heq => h (.inl ⟨b, c, hb, hc, heq⟩)
    have hround : ¬ (Before a b ∧ Before b c ∧ Before c a) := fun hall => h (.inr ⟨a, b, c, ha, hb, hc, hall⟩)
    have hsab := byRevision_signs a b
    have hsbc := byRevision_signs b c
    have hsac := byRevision_signs a c
    have hback := revisionsAhead_back a b
    have hback' := revisionsAhead_back b c
    have hback'' := revisionsAhead_back a c
    have htrans := revisionsAhead_trans a b c
    simp only [Before] at hround
    by_contra hpos
    have hca := hsac.2.mp (by omega)
    have hnab : ¬ (0 < revisionsAhead b a ∧ revisionsAhead b a < 2 ^ 31) := fun hlt =>
      absurd hab (Int.not_le.mpr (hsab.2.mpr hlt))
    have hnbc : ¬ (0 < revisionsAhead c b ∧ revisionsAhead c b < 2 ^ 31) := fun hlt =>
      absurd hbc (Int.not_le.mpr (hsbc.2.mpr hlt))
    omega

/-- Behind the release, versions are ordered where their revisions do not go around. -/
theorem byRevision_iff (hE : ∀ v, E v → Parsed v) : TotalPreorderOn E (andThen byRevision byCommit) ↔ ¬ GoesAround E := by
  constructor
  · intro h hround
    rcases hround with ⟨a, b, ha, hb, hhalf⟩ | ⟨a, b, c, ha, hb, hc, hab, hbc, hca⟩
    · have hback := revisionsAhead_back a b
      have hlt := (byRevision_signs a b).1.mpr (by omega)
      have hlt' := (byRevision_signs b a).1.mpr (by omega)
      have hopp := sign_opposite_iff.mp (h.opposite a b ha hb)
      rw [andThen_of_ne (Int.ne_of_lt hlt), andThen_of_ne (Int.ne_of_lt hlt')] at hopp
      omega
    · simp only [Before] at hab hbc hca
      have hback := revisionsAhead_back a b
      have hback' := revisionsAhead_back b c
      have hlt := (byRevision_signs a b).1.mpr (by omega)
      have hlt' := (byRevision_signs b c).1.mpr (by omega)
      have hgt := (byRevision_signs a c).2.mpr hca
      have htrans := h.trans a b c ha hb hc
      rw [andThen_of_ne (Int.ne_of_lt hlt), andThen_of_ne (Int.ne_of_lt hlt'), andThen_of_ne (Int.ne_of_gt hgt)] at htrans
      have := htrans (Int.le_of_lt hlt) (Int.le_of_lt hlt')
      omega
  · intro h
    exact (byRevision_totalPreorderOn h).andThen fun r _ => (byCommit_totalPreorderOn hE).mono fun v hv => hv.1

theorem torVersionCompare_iff (hV : ∀ v, V v → Parsed v) :
    TotalPreorderOn V torVersionCompare ↔ ∀ r, V r → ¬ GoesAround fun v => V v ∧ SameRelease r v := by
  rw [torVersionCompare_eq, totalPreorderOn_andThen_iff (byRelease_totalPreorderOn hV)]
  refine forall_congr' fun r => imp_congr_right fun _ => ?_
  have hclass : ClassOf V byRelease r = fun v => V v ∧ SameRelease r v := by
    funext v
    exact propext (and_congr_right fun _ => byRelease_zero_iff)
  rw [hclass]
  exact byRevision_iff fun v hv => hV v hv.1

/-! ## The order of strings -/

/-- The versions that are read from the strings. -/
def VersionsOf (D : Text → Prop) (v : TorVersion) : Prop := ∃ s, D s ∧ torVersionParse s = some v

/-- Among the versions of the strings, some that agree up to the tag have revisions that go around. -/
def HasCircle (D : Text → Prop) : Prop :=
  ∃ r, VersionsOf D r ∧ GoesAround fun v => VersionsOf D v ∧ SameRelease r v

/-- "If one parses, it comes first." -/
def byParsing (a b : Text) : Int :=
  match torVersionParse a, torVersionParse b with
  | some _, none => -1
  | none, some _ => 1
  | _, _ => 0

/-- The version of a string that parses. -/
def versionOf (s : Text) : TorVersion := (torVersionParse s).getD .start

/-- The comparison of two strings that both parse, or neither. -/
def byContents (a b : Text) : Int :=
  if (torVersionParse a).isSome then torVersionCompare (versionOf a) (versionOf b) else strcmp a b

theorem compareTorVersionStrPtr_eq : compareTorVersionStrPtr = andThen byParsing byContents := by
  funext a b
  cases ha : torVersionParse a <;> cases hb : torVersionParse b
  · rw [andThen_of_zero (by simp [byParsing, ha, hb])]
    simp [compareTorVersionStrPtr, byContents, ha, hb]
  · rw [andThen_of_ne (by simp [byParsing, ha, hb])]
    simp [compareTorVersionStrPtr, byParsing, ha, hb]
  · rw [andThen_of_ne (by simp [byParsing, ha, hb])]
    simp [compareTorVersionStrPtr, byParsing, ha, hb]
  · rw [andThen_of_zero (by simp [byParsing, ha, hb])]
    simp [compareTorVersionStrPtr, byContents, versionOf, ha, hb]

theorem byParsing_eq (a b : Text) :
    byParsing a b = (if (torVersionParse a).isSome then 0 else 1) - if (torVersionParse b).isSome then 0 else 1 := by
  unfold byParsing
  cases torVersionParse a <;> cases torVersionParse b <;> rfl

theorem byParsing_totalPreorder (D : Text → Prop) : TotalPreorderOn D byParsing where
  opposite a b _ _ := by
    rw [byParsing_eq, byParsing_eq, sign_opposite_iff]
    omega
  trans a b c _ _ _ := by
    rw [byParsing_eq, byParsing_eq, byParsing_eq]
    omega

variable {D : Text → Prop}

theorem parsed_of_versionsOf : ∀ v, VersionsOf D v → Parsed v := by
  rintro v ⟨s, -, hs⟩
  exact torVersionParse_parsed hs

/-- In a class of strings that parse, the versions are compared, and in the other one the strings. -/
theorem byContents_iff {r : Text} :
    TotalPreorderOn (ClassOf D byParsing r) byContents ↔
      ((torVersionParse r).isSome = true → TotalPreorderOn (VersionsOf D) torVersionCompare) := by
  have hzero : ∀ s, byParsing r s = 0 ↔ (torVersionParse s).isSome = (torVersionParse r).isSome := by
    intro s
    rw [byParsing_eq]
    cases (torVersionParse r).isSome <;> cases (torVersionParse s).isSome <;> simp
  cases hparses : (torVersionParse r).isSome with
  | true =>
    have himage : (fun v => ∃ s, ClassOf D byParsing r s ∧ versionOf s = v) = VersionsOf D := by
      funext v
      refine propext ⟨?_, ?_⟩
      · rintro ⟨s, ⟨hs, hclass⟩, rfl⟩
        obtain ⟨v, hv⟩ := Option.isSome_iff_exists.mp (((hzero s).mp hclass).trans hparses)
        exact ⟨s, hs, by rw [versionOf, hv]; rfl⟩
      · rintro ⟨s, hs, hv⟩
        refine ⟨s, ⟨hs, (hzero s).mpr ?_⟩, by rw [versionOf, hv]; rfl⟩
        rw [hv, hparses]
        rfl
    rw [forall_prop_of_true rfl, ← himage, ← totalPreorderOn_image_iff]
    refine totalPreorderOn_congr fun a b ha _ => if_pos ?_
    rw [(hzero a).mp ha.2, hparses]
  | false =>
    refine ⟨nofun, fun _ => ?_⟩
    have hstrings : ∀ a b, ClassOf D byParsing r a → ClassOf D byParsing r b → byContents a b = strcmp a b := by
      intro a b ha _
      refine if_neg ?_
      rw [(hzero a).mp ha.2, hparses]
      decide
    exact (totalPreorderOn_congr hstrings).mpr (strcmp_totalPreorder.mono fun _ _ => trivial)

theorem compareTorVersionStrPtr_iff (D : Text → Prop) : TotalPreorderOn D compareTorVersionStrPtr ↔ ¬ HasCircle D := by
  rw [compareTorVersionStrPtr_eq, totalPreorderOn_andThen_iff (byParsing_totalPreorder D)]
  have hversions := torVersionCompare_iff (@parsed_of_versionsOf D)
  constructor
  · rintro h ⟨r, ⟨s, hs, hr⟩, hround⟩
    have hparses : (torVersionParse s).isSome = true := by
      rw [hr]
      rfl
    exact hversions.mp (byContents_iff.mp (h s hs) hparses) r ⟨s, hs, hr⟩ hround
  · intro hcircle s hs
    exact byContents_iff.mpr fun _ => hversions.mpr fun r hr hround => hcircle ⟨r, hr, hround⟩

/-! ## Lists of versions -/

section
variable {α : Type} {A : α → Prop} {c : α → α → Int}

/-- What is taken out of the one list is taken out of the other. -/
theorem smartlistUniq_sameClasses (h : TotalPreorderOn A c) {a b : List α} (ha : ∀ x ∈ a, A x) (hb : ∀ x ∈ b, A x)
    (hab : SameClasses c a b) : SameClasses c (smartlistUniq c a) (smartlistUniq c b) := by
  induction hn : a.length generalizing a b with
  | zero =>
    obtain rfl := List.eq_nil_of_length_eq_zero hn
    cases hab
    rw [smartlistUniq]
    exact .nil
  | succ n ih =>
    cases hab with
    | nil => cases hn
    | @cons x x' a b hx hab =>
      cases hab with
      | nil =>
        rw [smartlistUniq, smartlistUniq]
        exact .cons hx .nil
      | @cons y y' a b hy hab =>
        rw [List.forall_mem_cons, List.forall_mem_cons] at ha hb
        rw [smartlistUniq, smartlistUniq]
        have hsame := h.zero_congr ha.1 ha.2.1 hb.1 hb.2.1 hx hy
        by_cases hxy : c x y = 0
        · rw [if_pos hxy, if_pos (hsame.mp hxy)]
          exact ih (List.forall_mem_cons.mpr ⟨ha.1, ha.2.2⟩) (List.forall_mem_cons.mpr ⟨hb.1, hb.2.2⟩) (.cons hx hab)
            (Nat.succ.inj hn)
        · rw [if_neg hxy, if_neg fun hxy' => hxy (hsame.mpr hxy')]
          exact .cons hx (ih (List.forall_mem_cons.mpr ha.2) (List.forall_mem_cons.mpr hb.2) (.cons hy hab) (Nat.succ.inj hn))

end

/-- Lists of the strings that have the same members are sorted into the same classes in the same order. -/
def SortsAlike (D : Text → Prop) : Prop :=
  ∀ (removeDuplicates : Bool) (versions versions' result result' : List Text), (∀ s ∈ versions, D s) →
    versions.Perm versions' → SortVersionList removeDuplicates versions result →
    SortVersionList removeDuplicates versions' result' → SameClasses compareTorVersionStrPtr result result'

theorem sortsAlike_of_totalPreorderOn (h : TotalPreorderOn D compareTorVersionStrPtr) : SortsAlike D := by
  rintro removeDuplicates versions versions' result result' hD hperm ⟨sorted, hsorted, rfl⟩ ⟨sorted', hsorted', rfl⟩
  have hsame := hsorted.sameClasses h hD hperm hsorted'
  cases removeDuplicates with
  | false => exact hsame
  | true =>
    refine smartlistUniq_sameClasses h (fun s hs => ?_) (fun s hs => ?_) hsame
    · exact hD s (hsorted.perm.mem_iff.mp hs)
    · exact hD s (hperm.mem_iff.mpr (hsorted'.perm.mem_iff.mp hs))

/-- The strings of a set are in a total preorder, and all sorts give the same classes, if and only if no versions
that agree up to the tag have revisions that go around. -/
theorem version_order_total_iff (D : Text → Prop) :
    TotalPreorderOn D compareTorVersionStrPtr ∧ SortsAlike D ↔ ¬ HasCircle D := by
  rw [← compareTorVersionStrPtr_iff]
  exact ⟨fun h => h.1, fun h => ⟨h, sortsAlike_of_totalPreorderOn h⟩⟩

/-- Version 0.1.2.3 with some revision. -/
def withRevision (digits : Text) : Text := ['0', '.', '1', '.', '2', '.', '3', ' ', '(', 'r'] ++ digits ++ [')']

/-- Revisions 0 and 2^31 each come before the other, so that both lists of the two are sorted as they are. -/
theorem opposite_revisions_come_before_each_other :
    let a := withRevision ['0']
    let b := withRevision ['2', '1', '4', '7', '4', '8', '3', '6', '4', '8']
    compareTorVersionStrPtr a b = -1 ∧ compareTorVersionStrPtr b a = -1 ∧ SortVersionList false [a, b] [a, b] ∧
      SortVersionList false [b, a] [b, a] ∧ ¬ TotalPreorder compareTorVersionStrPtr ∧ ¬ SortsAlike fun _ => True := by
  intro a b
  have hab : compareTorVersionStrPtr a b = -1 := by decide +kernel
  have hba : compareTorVersionStrPtr b a = -1 := by decide +kernel
  have hsorted : SortVersionList false [a, b] [a, b] :=
    ⟨[a, b], ⟨.refl _, by simp [hab]⟩, rfl⟩
  have hsorted' : SortVersionList false [b, a] [b, a] :=
    ⟨[b, a], ⟨.refl _, by simp [hba]⟩, rfl⟩
  refine ⟨hab, hba, hsorted, hsorted', fun h => ?_, fun h => ?_⟩
  · have hopp := h.opposite a b trivial trivial
    rw [hab, hba] at hopp
    exact absurd hopp (by decide)
  · have hsame := h false [a, b] [b, a] _ _ (fun _ _ => trivial) (List.Perm.swap b a []) hsorted hsorted'
    cases hsame with
    | cons hfirst _ =>
      rw [hab] at hfirst
      exact absurd hfirst (by decide)

end Badnet.Versions
