import NsxManager.Lib.Regex
import NsxManager.Core.SemVerText
import NsxManager.Core.Manifest
import Mathlib.Data.List.Forall2

/-! The patterns a published manifest is checked against, and what the client makes of the texts they match. -/

namespace NsxManager.Release

open NsxManager.Core Lib.Regex RegularExpression
open NsxManager.Core.SemVer

/-- `decimals` are the decimal digits beyond ASCII, in UTF-8: `\d` takes them as well. -/
structure Digits where
  decimals : RegularExpression UInt8
  foreign : Foreign (· < 0x80) decimals

namespace Pattern

/-- `a-b` within a character class. -/
def span (a b : Char) : Bytes := (List.range' a.toNat (b.toNat + 1 - a.toNat)).map UInt8.ofNat

variable (digits : Digits)

/-- `\d` -/
def digit : RegularExpression UInt8 := oneOf (span '0' '9') + digits.decimals

/-- `(0|[1-9]\d*)` -/
def number : RegularExpression UInt8 :=
  char (byte '0') + oneOf (span '1' '9') * (digit digits).star

/-- `(-[0-9A-Za-z.-]+)?` -/
def prerelease : RegularExpression UInt8 :=
  maybe (char (byte '-') * several (oneOf (span '0' '9' ++ span 'A' 'Z' ++ span 'a' 'z' ++ [byte '.', byte '-'])))

def semver : RegularExpression UInt8 :=
  seq [number digits, char (byte '.'), number digits, char (byte '.'), number digits, prerelease]

def tag : RegularExpression UInt8 := char (byte 'v') * semver digits

def isoShape : Bytes := ascii "0000-00-00T00:00:00Z"

/-- `\d{4}-\d{2}-\d{2}T\d{2}:\d{2}:\d{2}Z`: a digit for every zero of the shape. -/
def isoUtc : RegularExpression UInt8 := seq (isoShape.map (fun m => if isDigit m then digit digits else char m))

/-- `[A-Za-z0-9][A-Za-z0-9._+-]*` -/
def assetName : RegularExpression UInt8 :=
  oneOf (span 'A' 'Z' ++ span 'a' 'z' ++ span '0' '9') *
    (oneOf (span 'A' 'Z' ++ span 'a' 'z' ++ span '0' '9' ++
      [byte '.', byte '_', byte '+', byte '-'])).star

/-- `[0-9a-f]{64}` -/
def sha256 : RegularExpression UInt8 := seq (List.replicate 64 (oneOf (span '0' '9' ++ span 'a' 'f')))

/-- `^r$` as `re` matches it: a final line feed is passed over. -/
def line (r : RegularExpression UInt8) (text : Bytes) : Bool := matchesLine (byte '\n') r text

end Pattern

section Classes

lemma forall_byte {P : UInt8 → Prop} (h : ∀ n : Fin 256, P (UInt8.ofNat n)) (c : UInt8) : P c := by
  have hc := h ⟨c.toNat, c.toNat_lt⟩
  rwa [UInt8.ofNat_toNat] at hc

lemma mem_span {a b : Char} {c : UInt8} (hab : a.toNat ≤ b.toNat) (hb : b.toNat < 256) :
    c ∈ Pattern.span a b ↔ byte a ≤ c ∧ c ≤ byte b := by
  have hbyte : ∀ x : Char, x.toNat < 256 → (byte x).toNat = x.toNat := fun x hx => by
    simp [byte]
    omega
  rw [UInt8.le_iff_toNat_le, UInt8.le_iff_toNat_le, hbyte a (by omega), hbyte b hb, Pattern.span, List.mem_map]
  constructor
  · rintro ⟨n, hn, rfl⟩
    rw [List.mem_range'_1] at hn
    rw [UInt8.toNat_ofNat_of_lt' (by simp only [UInt8.size]; omega)]
    omega
  · intro hc
    exact ⟨c.toNat, List.mem_range'_1.mpr (by omega), UInt8.ofNat_toNat⟩

lemma mem_span_upper {c : UInt8} : c ∈ Pattern.span 'A' 'Z' ↔ byte 'A' ≤ c ∧ c ≤ byte 'Z' :=
  mem_span (by decide) (by decide)

lemma mem_span_lower {c : UInt8} : c ∈ Pattern.span 'a' 'z' ↔ byte 'a' ≤ c ∧ c ≤ byte 'z' :=
  mem_span (by decide) (by decide)

lemma mem_digits {c : UInt8} : c ∈ Pattern.span '0' '9' ↔ isDigit c = true := by
  rw [mem_span (by decide) (by decide), isDigit, Bool.and_eq_true, decide_eq_true_eq, decide_eq_true_eq]

lemma mem_nonzero {c : UInt8} : c ∈ Pattern.span '1' '9' ↔ isDigit c = true ∧ c ≠ byte '0' := by
  rw [mem_span (by decide) (by decide), isDigit, Bool.and_eq_true, decide_eq_true_eq, decide_eq_true_eq]
  have h0 : (byte '0').toNat = 48 := rfl
  have h1 : (byte '1').toNat = 49 := rfl
  simp only [UInt8.le_iff_toNat_le, ne_eq, ← UInt8.toNat_inj]
  omega

lemma mem_identifiers {c : UInt8} :
    c ∈ Pattern.span '0' '9' ++ Pattern.span 'A' 'Z' ++ Pattern.span 'a' 'z' ++ [byte '.', byte '-'] ↔
      isIdentifierChar c = true ∨ c = byte '.' := by
  simp only [List.mem_append, mem_digits, mem_span_upper, mem_span_lower, List.mem_cons, List.not_mem_nil, or_false,
    isIdentifierChar, Bool.or_eq_true, Bool.and_eq_true, decide_eq_true_eq, beq_iff_eq]
  tauto

end Classes

section Versions

variable {digits : Digits} {w : Bytes}

lemma mem_number (hw : ∀ c ∈ w, c < 0x80) : w ∈ (Pattern.number digits).matches' ↔ NumericIdentifier w := by
  constructor
  · rintro (rfl | ⟨u, hu, v, hv, rfl⟩)
    · exact ⟨by decide, fun _ => rfl⟩
    · obtain ⟨c, hc, rfl⟩ := mem_oneOf.mp hu
      obtain ⟨hdigit, h0⟩ := mem_nonzero.mp hc
      have hrest := mem_star_oneOf.mp (digits.foreign.mem_star (List.forall_mem_append.mp hw).2 hv)
      refine ⟨isNumericIdentifier_iff.mpr ⟨by simp, ?_⟩, fun hhead => absurd (Option.some.inj hhead) h0⟩
      exact List.forall_mem_cons.mpr ⟨hdigit, fun d hd => mem_digits.mp (hrest d hd)⟩
  · intro hnum
    obtain ⟨hne, hall⟩ := isNumericIdentifier_iff.mp hnum.digits
    obtain ⟨c, rest, rfl⟩ := List.exists_cons_of_ne_nil hne
    obtain ⟨hc, hrest⟩ := List.forall_mem_cons.mp hall
    by_cases h0 : c = byte '0'
    · exact .inl (hnum.unpadded (congrArg some h0))
    · refine .inr ⟨[c], mem_oneOf.mpr ⟨c, mem_nonzero.mpr ⟨hc, h0⟩, rfl⟩, rest, ?_, rfl⟩
      exact mem_star_add_left (mem_star_oneOf.mpr (fun d hd => mem_digits.mpr (hrest d hd)))

def PrereleaseText (p : Bytes) : Prop := ∀ c ∈ p, isIdentifierChar c = true ∨ c = byte '.'

lemma mem_prerelease : w ∈ Pattern.prerelease.matches' ↔ ∃ p, PrereleaseText p ∧ w = marked (byte '-') p := by
  constructor
  · rintro (rfl | ⟨u, rfl, p, hp, rfl⟩)
    · exact ⟨[], fun c hc => absurd hc List.not_mem_nil, rfl⟩
    · obtain ⟨hne, hall⟩ := mem_several_oneOf.mp hp
      exact ⟨p, fun c hc => mem_identifiers.mp (hall c hc), (marked_of_ne_nil hne).symm⟩
  · rintro ⟨p, hp, rfl⟩
    rcases eq_or_ne p [] with rfl | hne
    · exact .inl rfl
    · rw [marked_of_ne_nil hne]
      exact .inr ⟨_, rfl, p, mem_several_oneOf.mpr ⟨hne, fun c hc => mem_identifiers.mpr (hp c hc)⟩, rfl⟩

structure VersionCut (w a b c p : Bytes) : Prop where
  major : NumericIdentifier a
  minor : NumericIdentifier b
  patch : NumericIdentifier c
  prerelease : PrereleaseText p
  text : w = dotted [a, b, c] ++ marked (byte '-') p

lemma mem_semver (hw : ∀ c ∈ w, c < 0x80) :
    w ∈ (Pattern.semver digits).matches' ↔ ∃ a b c p, VersionCut w a b c p := by
  constructor
  · rintro ⟨a, ha, _, ⟨_, rfl, _, ⟨b, hb, _, ⟨_, rfl, _, ⟨c, hc, _, ⟨p, hp, _, rfl, rfl⟩, rfl⟩, rfl⟩, rfl⟩, rfl⟩, rfl⟩
    simp only [List.forall_mem_append] at hw
    obtain ⟨p, htext, rfl⟩ := mem_prerelease.mp hp
    refine ⟨a, b, c, p, (mem_number hw.1).mp ha, (mem_number hw.2.2.1).mp hb, (mem_number hw.2.2.2.2.1).mp hc, htext, ?_⟩
    simp [dotted, List.intercalate]
  · rintro ⟨a, b, c, p, ⟨ha, hb, hc, hp, rfl⟩⟩
    have htext : dotted [a, b, c] ++ marked (byte '-') p =
        a ++ ([byte '.'] ++ (b ++ ([byte '.'] ++ (c ++ (marked (byte '-') p ++ []))))) := by
      simp [dotted, List.intercalate]
    rw [htext] at hw ⊢
    simp only [List.forall_mem_append] at hw
    exact ⟨a, (mem_number hw.1).mpr ha, _, ⟨_, rfl, _, ⟨b, (mem_number hw.2.2.1).mpr hb, _, ⟨_, rfl, _,
      ⟨c, (mem_number hw.2.2.2.2.1).mpr hc, _, ⟨_, mem_prerelease.mpr ⟨p, hp, rfl⟩, _, rfl, rfl⟩, rfl⟩, rfl⟩, rfl⟩,
      rfl⟩, rfl⟩

/-- What keeps a text that matches the version pattern from being a version: nothing but ASCII, no line feed
after it, numbers of 32 bits and no empty identifier. -/
structure PlainVersion (text : Bytes) : Prop where
  ascii : ∀ c ∈ text, c < 0x80
  unended : text.getLast? ≠ some (byte '\n')
  numbers : ∀ s ∈ split (text.takeWhile (· != byte '-')) (byte '.'), numberValue s < 2 ^ 32
  identifiers : byte '-' ∈ text → ∀ s ∈ split ((text.dropWhile (· != byte '-')).drop 1) (byte '.'), s ≠ []

section Cut

variable {a b c p : Bytes} (h : VersionCut w a b c p)

include h

lemma VersionCut.identifier : ∀ s ∈ [a, b, c], Identifier s := by
  simp only [List.mem_cons, List.not_mem_nil, or_false]
  rintro s (rfl | rfl | rfl)
  · exact h.major.identifier
  · exact h.minor.identifier
  · exact h.patch.identifier

lemma VersionCut.notMem_core {x : UInt8} (hx : isDigit x = false) (hdot : x ≠ byte '.') : x ∉ dotted [a, b, c] := by
  intro hmem
  rcases Lib.mem_of_mem_intercalate hmem with hx' | ⟨s, hs, hx'⟩
  · exact hdot hx'
  · have hdigit : isDigit x = true := by
      simp only [List.mem_cons, List.not_mem_nil, or_false] at hs
      rcases hs with rfl | rfl | rfl
      · exact (isNumericIdentifier_iff.mp h.major.digits).2 x hx'
      · exact (isNumericIdentifier_iff.mp h.minor.digits).2 x hx'
      · exact (isNumericIdentifier_iff.mp h.patch.digits).2 x hx'
    rw [hx] at hdigit
    cases hdigit

lemma VersionCut.takeWhile_eq : split (w.takeWhile (· != byte '-')) (byte '.') = [a, b, c] := by
  rw [h.text, takeWhile_marked (h.notMem_core (by decide) (by decide)), split_dotted h.identifier (by simp)]

lemma VersionCut.drop_eq : (w.dropWhile (· != byte '-')).drop 1 = p := by
  rw [h.text, drop_dropWhile_marked (h.notMem_core (by decide) (by decide))]

lemma VersionCut.mem_dash : byte '-' ∈ w ↔ p ≠ [] := by
  have hcore : byte '-' ∉ dotted [a, b, c] := h.notMem_core (by decide) (by decide)
  rw [h.text, List.mem_append, or_iff_right hcore]
  rcases eq_or_ne p [] with rfl | hne
  · exact ⟨fun hmem => absurd hmem List.not_mem_nil, fun hne => absurd rfl hne⟩
  · rw [marked_of_ne_nil hne]
    exact ⟨fun _ => hne, fun _ => List.mem_cons_self⟩

lemma VersionCut.notMem_plus : byte '+' ∉ w := by
  rw [h.text, List.mem_append, not_or]
  refine ⟨h.notMem_core (by decide) (by decide), fun hmem => ?_⟩
  rcases eq_or_ne p [] with rfl | hne
  · exact absurd hmem List.not_mem_nil
  · rw [marked_of_ne_nil hne] at hmem
    rcases List.mem_cons.mp hmem with hplus | hmem
    · exact absurd hplus (by decide)
    · rcases h.prerelease _ hmem with hplus | hplus <;> exact absurd hplus (by decide)

lemma VersionCut.stripV_eq : stripV w = w := by
  obtain ⟨hne, hall⟩ := isNumericIdentifier_iff.mp h.major.digits
  obtain ⟨d, rest, rfl⟩ := List.exists_cons_of_ne_nil hne
  have hhead : w.head? = some d := by
    rw [h.text]
    simp [dotted, List.intercalate]
  have hdigit := hall d List.mem_cons_self
  refine if_neg (fun hv => ?_)
  rw [hhead] at hv
  rcases hv with hv | hv <;> rw [Option.some.inj hv] at hdigit <;> exact absurd hdigit (by decide)

lemma VersionCut.isField_iff : IsField p ↔ p = [] ∨ ∀ s ∈ split p (byte '.'), s ≠ [] := by
  refine or_congr Iff.rfl ?_
  rw [isValidDotSeparated_iff]
  constructor
  · exact fun hvalid s hs => (hvalid.2 s hs).1
  · intro hparts
    have hne : p ≠ [] := by
      rintro rfl
      exact hparts [] (List.mem_singleton_self []) rfl
    refine ⟨hne, fun s hs => ⟨hparts s hs, fun x hx => ?_⟩⟩
    obtain ⟨hmem, hdot⟩ := Lib.mem_of_mem_splitOn hs hx
    exact (h.prerelease x hmem).resolve_right hdot

lemma VersionCut.exists_parse_iff : (∃ v, parseSemVer w = .ok v) ↔
    (∀ s ∈ [a, b, c], numberValue s < 2 ^ 32) ∧ IsField p := by
  constructor
  · rintro ⟨v, hv⟩
    obtain ⟨hpre, _, htext⟩ := parseSemVer_eq_ok.mp hv
    rw [h.stripV_eq, toString_eq] at htext
    have hbuild : marked (byte '+') v.build = [] := by
      rcases eq_or_ne v.build [] with hnil | hne
      · rw [hnil]
        rfl
      · rw [marked_of_ne_nil hne] at htext
        exact absurd (htext ▸ List.mem_append_right _ List.mem_cons_self) h.notMem_plus
    rw [hbuild, List.append_nil] at htext
    have hcore := h.takeWhile_eq
    have hrest := h.drop_eq
    rw [htext, takeWhile_marked (SemVer.notMem_core v (by decide) (by decide))] at hcore
    rw [htext, drop_dropWhile_marked (SemVer.notMem_core v (by decide) (by decide))] at hrest
    have hnumber : ∀ n : UInt32, NumericIdentifier (decimal n.toNat) ∧ numberValue (decimal n.toNat) < 2 ^ 32 :=
      fun n => exists_parseNumber.mp ⟨n, parseNumber_eq_ok.mpr rfl⟩
    have hparts : split (dotted [decimal v.major.toNat, decimal v.minor.toNat, decimal v.patch.toNat]) (byte '.') =
        [decimal v.major.toNat, decimal v.minor.toNat, decimal v.patch.toNat] := by
      refine split_dotted (fun s hs => ?_) (by simp)
      simp only [List.mem_cons, List.not_mem_nil, or_false] at hs
      rcases hs with rfl | rfl | rfl <;> exact (hnumber _).1.identifier
    refine ⟨fun s hs => ?_, hrest ▸ hpre⟩
    rw [← hcore, ← dotted, hparts] at hs
    simp only [List.mem_cons, List.not_mem_nil, or_false] at hs
    rcases hs with rfl | rfl | rfl <;> exact (hnumber _).2
  · rintro ⟨hfits, hfield⟩
    obtain ⟨parts, hparts, rfl⟩ := SemVer.isField_iff.mp hfield
    refine exists_parse_iff.mpr ⟨⟨a, b, c, parts, []⟩, ⟨?_, ?_, ?_, hparts, ?_⟩, ?_⟩
    · exact ⟨h.major, hfits a (by simp)⟩
    · exact ⟨h.minor, hfits b (by simp)⟩
    · exact ⟨h.patch, hfits c (by simp)⟩
    · exact fun s hs => absurd hs List.not_mem_nil
    · rw [h.stripV_eq, h.text, Parts.text]
      exact List.append_nil _

lemma VersionCut.plainVersion_iff (hw : ∀ c ∈ w, c < 0x80) (hlast : w.getLast? ≠ some (byte '\n')) :
    PlainVersion w ↔ (∀ s ∈ [a, b, c], numberValue s < 2 ^ 32) ∧ IsField p := by
  rw [h.isField_iff]
  constructor
  · rintro ⟨_, _, hnumbers, hids⟩
    rw [h.takeWhile_eq] at hnumbers
    rw [h.mem_dash, h.drop_eq] at hids
    exact ⟨hnumbers, (eq_or_ne p []).imp_right hids⟩
  · rintro ⟨hnumbers, hids⟩
    refine ⟨hw, hlast, ?_, ?_⟩
    · rwa [h.takeWhile_eq]
    · rw [h.mem_dash, h.drop_eq]
      exact fun hne => hids.resolve_left hne

end Cut

def isVersionChar (c : UInt8) : Bool := isIdentifierChar c || c == byte '.' || c == byte '+'

lemma plain_of_isVersionChar (c : UInt8) (h : isVersionChar c = true) : c < 0x80 ∧ c ≠ byte '\n' := by
  revert c
  exact forall_byte (by decide +kernel)

lemma isVersionChar_of_mem_marked {mark c : UInt8} (hmark : isVersionChar mark = true) {field : Bytes}
    (hfield : IsField field) (hc : c ∈ marked mark field) : isVersionChar c = true := by
  rw [marked] at hc
  split at hc
  · exact absurd hc List.not_mem_nil
  · rcases List.mem_cons.mp hc with rfl | hc
    · exact hmark
    · rcases isIdentifierChar_of_mem hfield hc with h | h <;> simp [isVersionChar, h]

lemma isVersionChar_of_mem_toString {v : SemVer} (hpre : IsField v.prerelease) (hbuild : IsField v.build) {c : UInt8}
    (hc : c ∈ v.toString) : isVersionChar c = true := by
  rw [toString_eq, List.mem_append, List.mem_append] at hc
  rcases hc with (hc | hc) | hc
  · by_contra hplain
    have hdigit : isDigit c = false := by
      by_contra hdigit
      simp [isVersionChar, isIdentifierChar, hdigit] at hplain
    have hdot : c ≠ byte '.' := by
      rintro rfl
      exact hplain (by decide)
    exact SemVer.notMem_core v hdigit hdot hc
  · exact isVersionChar_of_mem_marked (by decide) hpre hc
  · exact isVersionChar_of_mem_marked (by decide) hbuild hc

lemma plain_of_parseSemVer {text : Bytes} {v : SemVer} (h : parseSemVer text = .ok v) {c : UInt8} (hc : c ∈ text) :
    c < 0x80 ∧ c ≠ byte '\n' := by
  obtain ⟨hpre, hbuild, htext⟩ := parseSemVer_eq_ok.mp h
  have hstrip : ∀ c ∈ stripV text, isVersionChar c = true := fun c hc =>
    isVersionChar_of_mem_toString hpre hbuild (htext ▸ hc)
  refine plain_of_isVersionChar c ?_
  rw [stripV] at hstrip
  split at hstrip
  · next hv =>
    cases text with
    | nil => exact absurd hc List.not_mem_nil
    | cons d text =>
      rcases List.mem_cons.mp hc with rfl | hc
      · rcases hv with hv | hv <;> rw [Option.some.inj hv] <;> decide
      · exact hstrip c hc
  · exact hstrip c hc

lemma exists_parseSemVer_iff (h : Pattern.line (Pattern.semver digits) w = true) :
    (∃ v, parseSemVer w = .ok v) ↔ PlainVersion w := by
  have hcut : (∀ c ∈ w, c < 0x80) → w.getLast? ≠ some (byte '\n') → ((∃ v, parseSemVer w = .ok v) ↔ PlainVersion w) := by
    intro hw hlast
    obtain ⟨a, b, c, p, hcut⟩ := (mem_semver hw).mp (mem_of_matchesLine h hlast)
    rw [hcut.exists_parse_iff, hcut.plainVersion_iff hw hlast]
  constructor
  · rintro ⟨v, hv⟩
    have hlast : w.getLast? ≠ some (byte '\n') := fun hlast =>
      (plain_of_parseSemVer hv (List.mem_of_getLast? hlast)).2 rfl
    exact (hcut (fun c hc => (plain_of_parseSemVer hv hc).1) hlast).mp ⟨v, hv⟩
  · exact fun hplain => (hcut hplain.ascii hplain.unended).mpr hplain

lemma line_semver_iff {v : SemVer} (h : parseSemVer w = .ok v) : Pattern.line (Pattern.semver digits) w = true ↔
    stripV w = w ∧ byte '+' ∉ w := by
  have hw : ∀ c ∈ w, c < 0x80 := fun c hc => (plain_of_parseSemVer h hc).1
  have hlast : w.getLast? ≠ some (byte '\n') := fun hlast => (plain_of_parseSemVer h (List.mem_of_getLast? hlast)).2 rfl
  constructor
  · intro hline
    obtain ⟨a, b, c, p, hcut⟩ := (mem_semver hw).mp (mem_of_matchesLine hline hlast)
    exact ⟨hcut.stripV_eq, hcut.notMem_plus⟩
  · rintro ⟨hstrip, hplus⟩
    obtain ⟨hpre, _, htext⟩ := parseSemVer_eq_ok.mp h
    rw [hstrip, toString_eq] at htext
    have hbuild : marked (byte '+') v.build = [] := by
      by_contra hne
      have hfield : v.build ≠ [] := fun hnil => hne (by rw [hnil]; rfl)
      rw [marked_of_ne_nil hfield] at htext
      exact hplus (htext ▸ List.mem_append_right _ List.mem_cons_self)
    rw [hbuild, List.append_nil] at htext
    refine matchesLine_iff.mpr (.inl ((mem_semver hw).mpr ⟨_, _, _, _, ?_, ?_, ?_, ?_, htext⟩))
    · exact (decimal_spec _).1
    · exact (decimal_spec _).1
    · exact (decimal_spec _).1
    · exact fun c hc => isIdentifierChar_of_mem hpre hc

lemma line_tag_cons : Pattern.line (Pattern.tag digits) (byte 'v' :: w) = Pattern.line (Pattern.semver digits) w := by
  have hmem : ∀ w, byte 'v' :: w ∈ (Pattern.tag digits).matches' ↔ w ∈ (Pattern.semver digits).matches' := by
    intro w
    constructor
    · rintro ⟨u, rfl, v, hv, hcat⟩
      exact (List.cons.inj hcat).2 ▸ hv
    · exact fun hw => ⟨_, rfl, w, hw, rfl⟩
  rw [Bool.eq_iff_iff, Pattern.line, Pattern.line, matchesLine_iff, matchesLine_iff, hmem]
  refine or_congr Iff.rfl ⟨?_, ?_⟩
  · rintro ⟨u, ⟨_, rfl, u, hu, rfl⟩, hcat⟩
    exact ⟨u, hu, (List.cons.inj hcat).2⟩
  · rintro ⟨u, hu, rfl⟩
    exact ⟨byte 'v' :: u, (hmem u).mpr hu, rfl⟩

end Versions

section Texts

variable {digits : Digits} {w : Bytes}

lemma mem_digit {c : UInt8} (hc : c < 0x80) : [c] ∈ (Pattern.digit digits).matches' ↔ isDigit c = true := by
  rw [Pattern.digit, digits.foreign.mem_add (by simpa using hc), mem_oneOf, ← mem_digits]
  constructor
  · rintro ⟨d, hd, heq⟩
    rwa [List.singleton_inj.mp heq]
  · exact fun h => ⟨c, h, rfl⟩

lemma eq_singleton_of_mem_digit (hw : ∀ c ∈ w, c < 0x80) (h : w ∈ (Pattern.digit digits).matches') : ∃ c, w = [c] := by
  obtain ⟨c, _, rfl⟩ := mem_oneOf.mp ((digits.foreign.mem_add hw).mp h)
  exact ⟨c, rfl⟩

def IsoShaped (w : Bytes) : Prop :=
  List.Forall₂ (fun c m => if isDigit m then isDigit c = true else c = m) w Pattern.isoShape

lemma isIso8601Utc_iff : isIso8601Utc w = true ↔ IsoShaped w := by
  have hzero : isDigit (byte '0') = true := by decide
  have hdash : isDigit (byte '-') = false := by decide
  have hcolon : isDigit (byte ':') = false := by decide
  have ht : isDigit (byte 'T') = false := by decide
  have hz : isDigit (byte 'Z') = false := by decide
  by_cases hlen : w.length = 20
  · match w, hlen with
    | [y₀, y₁, y₂, y₃, s₀, m₀, m₁, s₁, d₀, d₁, t, h₀, h₁, s₂, n₀, n₁, s₃, e₀, e₁, z], _ =>
      simp [isIso8601Utc, IsoShaped, Pattern.isoShape, ascii, hzero, hdash, hcolon, ht, hz]
      tauto
  · refine ⟨fun h => ?_, fun h => ?_⟩
    · simp [isIso8601Utc, hlen] at h
    · exact absurd h.length_eq hlen

lemma mem_isoUtc (hw : ∀ c ∈ w, c < 0x80) : w ∈ (Pattern.isoUtc digits).matches' ↔ IsoShaped w := by
  have hpieces : w ∈ (Pattern.isoUtc digits).matches' ↔ List.Forall₂ (fun c r => [c] ∈ r.matches') w
      (Pattern.isoShape.map (fun m => if isDigit m then Pattern.digit digits else char m)) := by
    refine ⟨forall₂_of_mem_seq hw (fun r hr u hu hplain => ?_), mem_seq_of_forall₂⟩
    obtain ⟨m, _, rfl⟩ := List.mem_map.mp hr
    split at hu
    · exact eq_singleton_of_mem_digit hplain hu
    · exact ⟨m, hu⟩
  rw [hpieces, List.forall₂_map_right_iff, IsoShaped]
  have hpiece : ∀ c m : UInt8, c < 0x80 → ([c] ∈ (if isDigit m then Pattern.digit digits else char m).matches' ↔
      if isDigit m then isDigit c = true else c = m) := by
    intro c m hc
    split
    · exact mem_digit hc
    · rw [mem_char, List.singleton_inj]
  constructor
  · exact fun h => ((List.forall₂_and_left _ _).mpr ⟨hw, h⟩).imp (fun c m h => (hpiece c m h.1).mp h.2)
  · exact fun h => ((List.forall₂_and_left _ _).mpr ⟨hw, h⟩).imp (fun c m h => (hpiece c m h.1).mpr h.2)

lemma plain_of_isDigit (c : UInt8) (h : isDigit c = true) : c < 0x80 ∧ c ≠ byte '\n' :=
  plain_of_isVersionChar c (by simp [isVersionChar, isIdentifierChar, h])

lemma IsoShaped.plain (h : IsoShaped w) : ∀ c ∈ w, c < 0x80 ∧ c ≠ byte '\n' := by
  have hshape : Pattern.isoShape.all (fun m => decide (m < 0x80 ∧ m ≠ byte '\n')) = true := by decide
  intro c hc
  obtain ⟨⟨i, hi⟩, rfl⟩ := List.mem_iff_get.mp hc
  have hr := (List.forall₂_iff_get.mp h).2 i hi (h.length_eq ▸ hi)
  split at hr
  · exact plain_of_isDigit _ hr
  · rw [hr]
    exact of_decide_eq_true (List.all_eq_true.mp hshape _ (List.get_mem _ _))

lemma isIso8601Utc_iff_of_line (h : Pattern.line (Pattern.isoUtc digits) w = true) :
    isIso8601Utc w = true ↔ (∀ c ∈ w, c < 0x80) ∧ w.getLast? ≠ some (byte '\n') := by
  rw [isIso8601Utc_iff]
  constructor
  · exact fun hiso => ⟨fun c hc => (hiso.plain c hc).1, fun hlast => (hiso.plain _ (List.mem_of_getLast? hlast)).2 rfl⟩
  · exact fun ⟨hw, hlast⟩ => (mem_isoUtc hw).mp (mem_of_matchesLine h hlast)

lemma line_isoUtc (h : isIso8601Utc w = true) : Pattern.line (Pattern.isoUtc digits) w = true := by
  have hiso := isIso8601Utc_iff.mp h
  exact matchesLine_iff.mpr (.inl ((mem_isoUtc (fun c hc => (hiso.plain c hc).1)).mpr hiso))

lemma mem_hexDigits {c : UInt8} : c ∈ Pattern.span '0' '9' ++ Pattern.span 'a' 'f' ↔ (hexDigit c).isSome = true := by
  rw [List.mem_append, mem_span (by decide) (by decide), mem_span (by decide) (by decide), hexDigit]
  split_ifs with hdigit hletter
  · simp [hdigit]
  · simp [hletter]
  · simp [hdigit, hletter]

lemma mem_sha256 : w ∈ Pattern.sha256.matches' ↔ w.length = 64 ∧ ∀ c ∈ w, (hexDigit c).isSome = true := by
  rw [Pattern.sha256, mem_seq_replicate_oneOf]
  simp only [mem_hexDigits]

lemma exists_hexPairs {n : ℕ} (hlen : w.length = 2 * n) :
    (∃ out, hexPairs w = some out ∧ out.length = n) ↔ ∀ c ∈ w, (hexDigit c).isSome = true := by
  induction n generalizing w with
  | zero =>
    obtain rfl := List.length_eq_zero_iff.mp hlen
    exact ⟨fun _ c hc => absurd hc List.not_mem_nil, fun _ => ⟨[], rfl, rfl⟩⟩
  | succ n ih =>
    match w, hlen with
    | c :: c' :: rest, hlen =>
      have hrest : rest.length = 2 * n := by
        rw [List.length_cons, List.length_cons] at hlen
        omega
      rw [List.forall_mem_cons, List.forall_mem_cons, ← ih hrest]
      constructor
      · rintro ⟨out, hout, hlen⟩
        simp only [hexPairs, Option.bind_eq_bind, Option.bind_eq_some_iff, Option.pure_def, Option.some.injEq] at hout
        obtain ⟨high, hhigh, low, hlow, values, hvalues, rfl⟩ := hout
        exact ⟨by rw [hhigh]; rfl, by rw [hlow]; rfl, values, hvalues, Nat.succ.inj hlen⟩
      · rintro ⟨hhigh, hlow, values, hvalues, hlen⟩
        obtain ⟨high, hhigh⟩ := Option.isSome_iff_exists.mp hhigh
        obtain ⟨low, hlow⟩ := Option.isSome_iff_exists.mp hlow
        refine ⟨((high <<< 4) ||| low) :: values, ?_, congrArg Nat.succ hlen⟩
        simp [hexPairs, hhigh, hlow, hvalues]

lemma fromHex_isSome : (fromHex w).isSome = true ↔ w ∈ Pattern.sha256.matches' := by
  rw [mem_sha256]
  by_cases hlen : w.length = 64
  · rw [and_iff_right hlen, ← exists_hexPairs (n := 32) hlen, fromHex, if_neg (not_not.mpr hlen)]
    cases hexPairs w with
    | none => simp
    | some out => by_cases hout : out.length = 32 <;> simp [hout]
  · simp [fromHex, hlen]

lemma fromHex_isSome_iff_of_line (h : Pattern.line Pattern.sha256 w = true) :
    (fromHex w).isSome = true ↔ w.getLast? ≠ some (byte '\n') := by
  rw [fromHex_isSome]
  refine ⟨fun hw hlast => ?_, mem_of_matchesLine h⟩
  exact absurd ((mem_sha256.mp hw).2 _ (List.mem_of_getLast? hlast)) (by decide)

lemma line_sha256 (h : (fromHex w).isSome = true) : Pattern.line Pattern.sha256 w = true :=
  matchesLine_iff.mpr (.inl (fromHex_isSome.mp h))

def isAlphanumeric (c : UInt8) : Bool :=
  isDigit c || (byte 'a' ≤ c && c ≤ byte 'z') || (byte 'A' ≤ c && c ≤ byte 'Z')

lemma mem_alphanumerics {c : UInt8} :
    c ∈ Pattern.span 'A' 'Z' ++ Pattern.span 'a' 'z' ++ Pattern.span '0' '9' ↔ isAlphanumeric c = true := by
  simp only [List.mem_append, mem_digits, mem_span_upper, mem_span_lower, isAlphanumeric, Bool.or_eq_true,
    Bool.and_eq_true, decide_eq_true_eq]
  tauto

lemma mem_filenameCharacters {c : UInt8} :
    c ∈ Pattern.span 'A' 'Z' ++ Pattern.span 'a' 'z' ++ Pattern.span '0' '9' ++
      [byte '.', byte '_', byte '+', byte '-'] ↔ isFilenameCharacter c = true := by
  simp only [List.mem_append, mem_digits, mem_span_upper, mem_span_lower, isDigit, List.mem_cons, List.not_mem_nil,
    or_false, isFilenameCharacter, Bool.or_eq_true, Bool.and_eq_true, decide_eq_true_eq, beq_iff_eq]
  tauto

lemma plain_of_isFilenameCharacter (c : UInt8) (h : isFilenameCharacter c = true) : c ≠ byte '\n' := by
  rintro rfl
  exact absurd h (by decide)

lemma isFilenameCharacter_of_isAlphanumeric {c : UInt8} (h : isAlphanumeric c = true) :
    isFilenameCharacter c = true :=
  mem_filenameCharacters.mp (List.mem_append_left _ (mem_alphanumerics.mpr h))

lemma mem_assetName : w ∈ Pattern.assetName.matches' ↔
    (∃ c, w.head? = some c ∧ isAlphanumeric c = true) ∧ ∀ c ∈ w, isFilenameCharacter c = true := by
  constructor
  · rintro ⟨u, hu, v, hv, rfl⟩
    obtain ⟨c, hc, rfl⟩ := mem_oneOf.mp hu
    have hfirst := mem_alphanumerics.mp hc
    refine ⟨⟨c, rfl, hfirst⟩, List.forall_mem_cons.mpr ⟨isFilenameCharacter_of_isAlphanumeric hfirst, ?_⟩⟩
    exact fun d hd => mem_filenameCharacters.mp (mem_star_oneOf.mp hv d hd)
  · rintro ⟨⟨c, hhead, hfirst⟩, hall⟩
    obtain ⟨rest, rfl⟩ := List.head?_eq_some_iff.mp hhead
    refine ⟨[c], mem_oneOf.mpr ⟨c, mem_alphanumerics.mpr hfirst, rfl⟩, rest, mem_star_oneOf.mpr (fun d hd => ?_), rfl⟩
    exact mem_filenameCharacters.mpr (hall d (List.mem_cons_of_mem c hd))

end Texts

end NsxManager.Release
