import NsxManager.Core.SemVer
import NsxManager.Lib.Lists
import Mathlib.Data.List.TakeWhile

/-! The texts that are versions, and the versions they are the texts of. -/

namespace NsxManager.Core.SemVer

def digitValue (c : UInt8) : ℕ := c.toNat - 48

def numberValue (s : Bytes) : ℕ := s.foldl (fun n c => 10 * n + digitValue c) 0

/-- `<numeric identifier>` of the grammar: digits, with no zero in front of others. -/
structure NumericIdentifier (s : Bytes) : Prop where
  digits : isNumericIdentifier s = true
  unpadded : s.head? = some (byte '0') → s = [byte '0']

section Numbers

variable {s : Bytes} {c : UInt8}

lemma isNumericIdentifier_iff : isNumericIdentifier s = true ↔ s ≠ [] ∧ ∀ c ∈ s, isDigit c = true := by
  simp [isNumericIdentifier]

lemma isDigit_iff : isDigit c = true ↔ 48 ≤ c.toNat ∧ c.toNat ≤ 57 := by
  simp only [isDigit, Bool.and_eq_true, decide_eq_true_eq, UInt8.le_iff_toNat_le]
  exact Iff.rfl

lemma digitValue_lt (hc : isDigit c = true) : digitValue c < 10 := by
  have h := isDigit_iff.mp hc
  rw [digitValue]
  omega

lemma numberValue_concat (s : Bytes) (c : UInt8) : numberValue (s ++ [c]) = 10 * numberValue s + digitValue c := by
  simp [numberValue]

lemma byte_digitChar (hc : isDigit c = true) : byte (Nat.digitChar (digitValue c)) = c := by
  obtain ⟨hlow, hhigh⟩ := isDigit_iff.mp hc
  have h : ∀ d : Fin 10, byte (Nat.digitChar d) = UInt8.ofNat (48 + d) := by decide
  have hd : 48 + digitValue c = c.toNat := Nat.add_sub_cancel' hlow
  rw [h ⟨digitValue c, digitValue_lt hc⟩, hd, UInt8.ofNat_toNat]

lemma decimal_natCast (n : ℕ) : decimal n = (Nat.toDigits 10 n).map byte :=
  if_neg (Int.not_lt.mpr (Int.natCast_nonneg n))

lemma decimal_of_lt {n : ℕ} (hn : n < 10) : decimal n = [byte (Nat.digitChar n)] := by
  rw [decimal_natCast, Nat.toDigits_of_lt_base hn]
  rfl

lemma decimal_of_le {n : ℕ} (hn : 10 ≤ n) :
    decimal n = decimal (n / 10 : ℕ) ++ [byte (Nat.digitChar (n % 10))] := by
  rw [decimal_natCast, decimal_natCast, Nat.toDigits_of_base_le (by decide) hn, List.map_append]
  rfl

lemma isDigit_digitChar {n : ℕ} (hn : n < 10) :
    isDigit (byte (Nat.digitChar n)) = true ∧ digitValue (byte (Nat.digitChar n)) = n := by
  have h : ∀ d : Fin 10, isDigit (byte (Nat.digitChar d)) = true ∧ digitValue (byte (Nat.digitChar d)) = d := by
    decide
  exact h ⟨n, hn⟩

lemma NumericIdentifier.concat (hs : NumericIdentifier s) (h0 : s ≠ [byte '0']) (hc : isDigit c = true) :
    NumericIdentifier (s ++ [c]) := by
  obtain ⟨hne, hall⟩ := isNumericIdentifier_iff.mp hs.digits
  refine ⟨isNumericIdentifier_iff.mpr ⟨by simp, ?_⟩, fun hhead => ?_⟩
  · exact List.forall_mem_append.mpr ⟨hall, by simpa using hc⟩
  · rw [List.head?_append_of_ne_nil _ hne] at hhead
    exact absurd (hs.unpadded hhead) h0

lemma decimal_spec (n : ℕ) : NumericIdentifier (decimal n) ∧ numberValue (decimal n) = n := by
  induction n using Nat.strong_induction_on with
  | _ n ih =>
    by_cases hn : n < 10
    · obtain ⟨hdigit, hvalue⟩ := isDigit_digitChar hn
      rw [decimal_of_lt hn]
      refine ⟨⟨isNumericIdentifier_iff.mpr ⟨by simp, by simpa using hdigit⟩, fun h => ?_⟩, ?_⟩
      · exact congrArg (fun c => [c]) (Option.some.inj h)
      · simp [numberValue, hvalue]
    · obtain ⟨hdigit, hvalue⟩ := isDigit_digitChar (Nat.mod_lt n (by decide : 0 < 10))
      obtain ⟨hnum, hval⟩ := ih (n / 10) (by omega)
      rw [decimal_of_le (by omega)]
      refine ⟨hnum.concat (fun h0 => ?_) hdigit, ?_⟩
      · rw [h0] at hval
        have hzero : numberValue [byte '0'] = 0 := by decide
        omega
      · rw [numberValue_concat, hval, hvalue]
        omega

lemma decimal_append {n : ℕ} (hn : 0 < n) (hs : ∀ c ∈ s, isDigit c = true) :
    decimal n ++ s = decimal (s.foldl (fun n c => 10 * n + digitValue c) n : ℕ) := by
  induction s generalizing n with
  | nil => rw [List.append_nil, List.foldl_nil]
  | cons c s ih =>
    obtain ⟨hc, hs⟩ := List.forall_mem_cons.mp hs
    have hd := digitValue_lt hc
    have hdiv : (10 * n + digitValue c) / 10 = n := by omega
    have hmod : (10 * n + digitValue c) % 10 = digitValue c := by omega
    have hstep : decimal (10 * n + digitValue c : ℕ) = decimal n ++ [c] := by
      rw [decimal_of_le (by omega), hdiv, hmod, byte_digitChar hc]
    rw [List.foldl_cons, ← ih (by omega) hs, hstep, List.append_assoc, List.singleton_append]

lemma decimal_numberValue (hs : NumericIdentifier s) : decimal (numberValue s) = s := by
  obtain ⟨hne, hall⟩ := isNumericIdentifier_iff.mp hs.digits
  obtain ⟨c, t, rfl⟩ := List.exists_cons_of_ne_nil hne
  obtain ⟨hc, ht⟩ := List.forall_mem_cons.mp hall
  by_cases h0 : c = byte '0'
  · rw [hs.unpadded (congrArg some h0)]
    decide
  · have hpos : 0 < digitValue c := by
      have hne : c.toNat ≠ 48 := fun h => h0 (UInt8.toNat_inj.mp h)
      have hdigit := isDigit_iff.mp hc
      rw [digitValue]
      omega
    have hfirst : decimal (digitValue c) = [c] := by
      rw [decimal_of_lt (digitValue_lt hc), byte_digitChar hc]
    have hvalue : numberValue (c :: t) = t.foldl (fun n c => 10 * n + digitValue c) (digitValue c) := by
      simp [numberValue]
    rw [hvalue, ← decimal_append hpos ht, hfirst, List.singleton_append]

end Numbers

section ParseNumber

variable {s : Bytes}

lemma le_foldl_digits (s : Bytes) (n : ℕ) : n ≤ s.foldl (fun n c => 10 * n + digitValue c) n := by
  induction s generalizing n with
  | nil => exact le_rfl
  | cons c s ih =>
    have h := ih (10 * n + digitValue c)
    rw [List.foldl_cons]
    omega

lemma accumulate_eq {acc : UInt64} (hacc : acc.toNat < 2 ^ 32) (hs : ∀ c ∈ s, isDigit c = true) :
    accumulate acc s = if s.foldl (fun n c => 10 * n + digitValue c) acc.toNat < 2 ^ 32 then
      .ok (UInt32.ofNat (s.foldl (fun n c => 10 * n + digitValue c) acc.toNat)) else .error .numericOverflow := by
  induction s generalizing acc with
  | nil =>
    rw [accumulate, List.foldl_nil, if_pos hacc]
    rfl
  | cons c s ih =>
    obtain ⟨hc, hs⟩ := List.forall_mem_cons.mp hs
    have hd := digitValue_lt hc
    have hdigit : (c - byte '0').toUInt64.toNat = digitValue c := by
      have hle : byte '0' ≤ c := UInt8.le_iff_toNat_le.mpr (isDigit_iff.mp hc).1
      rw [UInt8.toNat_toUInt64, UInt8.toNat_sub_of_le _ _ hle]
      rfl
    have hnext : (acc * 10 + (c - byte '0').toUInt64).toNat = 10 * acc.toNat + digitValue c := by
      have hten : (10 : UInt64).toNat = 10 := rfl
      rw [UInt64.toNat_add, UInt64.toNat_mul, hdigit, hten]
      omega
    have hmax : (0xffffffff : UInt64).toNat = 2 ^ 32 - 1 := rfl
    rw [accumulate, List.foldl_cons]
    split
    · next hover =>
      rw [UInt64.lt_iff_toNat_lt, hnext, hmax] at hover
      have hle := le_foldl_digits s (10 * acc.toNat + digitValue c)
      rw [if_neg (by omega)]
    · next hfits =>
      rw [UInt64.lt_iff_toNat_lt, hnext, hmax] at hfits
      rw [ih (by omega) hs, hnext]

lemma parseNumber_eq (hs : NumericIdentifier s) :
    parseNumber s = if numberValue s < 2 ^ 32 then .ok (UInt32.ofNat (numberValue s)) else .error .numericOverflow := by
  have hpadded : ¬ ((1 < s.length && s.head? == some (byte '0')) = true) := by
    simp only [Bool.and_eq_true, decide_eq_true_eq, beq_iff_eq, not_and]
    intro hlen hhead
    rw [hs.unpadded hhead] at hlen
    exact absurd hlen (by decide)
  rw [parseNumber, if_neg (by simp [hs.digits]), if_neg hpadded]
  exact accumulate_eq (by decide) (isNumericIdentifier_iff.mp hs.digits).2

lemma numericIdentifier_of_parseNumber {n : UInt32} (h : parseNumber s = .ok n) : NumericIdentifier s := by
  simp only [parseNumber] at h
  split_ifs at h with hdigits hpadded
  have hdigits : isNumericIdentifier s = true := by simpa using hdigits
  refine ⟨hdigits, fun hhead => ?_⟩
  simp only [hhead, beq_self_eq_true, Bool.and_true, decide_eq_true_eq] at hpadded
  obtain ⟨c, t, rfl⟩ := List.exists_cons_of_ne_nil (isNumericIdentifier_iff.mp hdigits).1
  obtain rfl : t = [] := by simpa using hpadded
  exact congrArg (fun c => [c]) (Option.some.inj hhead)

lemma parseNumber_eq_ok {n : UInt32} : parseNumber s = .ok n ↔ s = decimal n.toNat := by
  constructor
  · intro h
    have hs := numericIdentifier_of_parseNumber h
    rw [parseNumber_eq hs] at h
    split at h
    · next hlt =>
      rw [← Except.ok.inj h, UInt32.toNat_ofNat_of_lt' hlt, decimal_numberValue hs]
    · cases h
  · rintro rfl
    obtain ⟨hnum, hvalue⟩ := decimal_spec n.toNat
    rw [parseNumber_eq hnum, hvalue, if_pos n.toNat_lt, UInt32.ofNat_toNat]

lemma exists_parseNumber : (∃ n, parseNumber s = .ok n) ↔ NumericIdentifier s ∧ numberValue s < 2 ^ 32 := by
  constructor
  · rintro ⟨n, h⟩
    have hs := numericIdentifier_of_parseNumber h
    rw [parseNumber_eq hs] at h
    split at h
    · next hlt => exact ⟨hs, hlt⟩
    · cases h
  · rintro ⟨hs, hlt⟩
    exact ⟨_, by rw [parseNumber_eq hs, if_pos hlt]⟩

end ParseNumber

section Fields

variable {s text head field : Bytes} {sep : UInt8} {invalid : SemVerError}

def marked (mark : UInt8) (field : Bytes) : Bytes := if field.isEmpty then [] else mark :: field

def IsField (field : Bytes) : Prop := field = [] ∨ isValidDotSeparated field = true

lemma marked_of_ne_nil (h : field ≠ []) : marked sep field = sep :: field := by
  simp [marked, h]

lemma ne_nil_of_isValidDotSeparated (h : isValidDotSeparated field = true) : field ≠ [] := by
  rintro rfl
  exact absurd h (by decide)

lemma takeWhile_marked (hhead : sep ∉ head) (field : Bytes) :
    (head ++ marked sep field).takeWhile (· != sep) = head := by
  have hall : ∀ c ∈ head, (c != sep) = true := fun c hc => by
    rw [bne_iff_ne]
    rintro rfl
    exact hhead hc
  rw [List.takeWhile_append_of_pos hall, marked]
  split
  · rw [List.takeWhile_nil, List.append_nil]
  · rw [List.takeWhile_cons_of_neg (by simp), List.append_nil]

lemma drop_dropWhile_marked (hhead : sep ∉ head) (field : Bytes) :
    ((head ++ marked sep field).dropWhile (· != sep)).drop 1 = field := by
  have hcut := List.takeWhile_append_dropWhile (p := (· != sep)) (l := head ++ marked sep field)
  rw [takeWhile_marked hhead, List.append_cancel_left_eq] at hcut
  rw [hcut, marked]
  split
  · next h => rw [List.isEmpty_iff.mp h, List.drop_nil]
  · rfl

lemma suffixField_eq_ok : suffixField sep invalid text = .ok (head, field) ↔
    sep ∉ head ∧ IsField field ∧ text = head ++ marked sep field := by
  have hmark : ∀ c ∈ text.takeWhile (· != sep), c ≠ sep := fun c hc => by
    simpa using List.mem_takeWhile_imp hc
  constructor
  · intro h
    simp only [suffixField] at h
    split_ifs at h with hmem hvalid
    · obtain ⟨rfl, rfl⟩ := Prod.mk.inj (Except.ok.inj h)
      refine ⟨fun hc => hmark sep hc rfl, .inr hvalid, ?_⟩
      have hne : text.dropWhile (· != sep) ≠ [] := by
        intro hnil
        rw [List.dropWhile_eq_nil_iff] at hnil
        simpa using hnil sep hmem
      obtain ⟨c, rest, hrest⟩ := List.exists_cons_of_ne_nil hne
      have hc : c = sep := by
        have hhead := List.head?_dropWhile_not (· != sep) text
        rw [hrest] at hhead
        simpa using hhead
      have hdrop : sep :: (text.dropWhile (· != sep)).drop 1 = text.dropWhile (· != sep) := by
        rw [hrest, hc, List.drop_one, List.tail_cons]
      rw [marked_of_ne_nil (ne_nil_of_isValidDotSeparated hvalid), hdrop, List.takeWhile_append_dropWhile]
    · obtain ⟨rfl, rfl⟩ := Prod.mk.inj (Except.ok.inj h)
      exact ⟨hmem, .inl rfl, (List.append_nil _).symm⟩
  · rintro ⟨hhead, rfl | hvalid, rfl⟩
    · have hnone : marked sep [] = [] := rfl
      rw [hnone, List.append_nil, suffixField, if_neg hhead]
    · have hmem : sep ∈ head ++ marked sep field := by
        rw [marked_of_ne_nil (ne_nil_of_isValidDotSeparated hvalid)]
        simp
      rw [suffixField, if_pos hmem, takeWhile_marked hhead, drop_dropWhile_marked hhead, if_pos hvalid]

lemma coreFields_eq_ok {prerelease build : Bytes} {parts : List Bytes} {v : SemVer} :
    coreFields prerelease build parts = .ok v ↔
      parts = [decimal v.major.toNat, decimal v.minor.toNat, decimal v.patch.toNat] ∧
        v.prerelease = prerelease ∧ v.build = build := by
  constructor
  · intro h
    unfold coreFields at h
    split at h
    · cases h
    · cases h
    · cases h
    · next a b c =>
      cases ha : parseNumber a with
      | error e => rw [ha] at h; cases h
      | ok major =>
        cases hb : parseNumber b with
        | error e => rw [ha, hb] at h; cases h
        | ok minor =>
          cases hc : parseNumber c with
          | error e => rw [ha, hb, hc] at h; cases h
          | ok patch =>
            rw [ha, hb, hc] at h
            obtain rfl := Except.ok.inj h
            rw [parseNumber_eq_ok.mp ha, parseNumber_eq_ok.mp hb, parseNumber_eq_ok.mp hc]
            exact ⟨rfl, rfl, rfl⟩
    · cases h
  · rintro ⟨rfl, rfl, rfl⟩
    simp only [coreFields]
    rw [parseNumber_eq_ok.mpr rfl, parseNumber_eq_ok.mpr rfl, parseNumber_eq_ok.mpr rfl]
    rfl

end Fields

section Versions

variable {text : Bytes} {v : SemVer}

lemma toString_eq (v : SemVer) : v.toString =
    ([byte '.'].intercalate [decimal v.major.toNat, decimal v.minor.toNat, decimal v.patch.toNat] ++
      marked (byte '-') v.prerelease) ++ marked (byte '+') v.build := by
  simp [toString, marked, ascii, List.intercalate]

lemma isIdentifierChar_of_mem {field : Bytes} (hfield : IsField field) {c : UInt8} (hc : c ∈ field) :
    isIdentifierChar c = true ∨ c = byte '.' := by
  rcases hfield with rfl | hvalid
  · exact absurd hc List.not_mem_nil
  · have hjoin : [byte '.'].intercalate (field.splitOn (byte '.')) = field := List.intercalate_splitOn _
    rw [← hjoin] at hc
    refine (Lib.mem_of_mem_intercalate hc).symm.imp_left (fun ⟨part, hpart, hc⟩ => ?_)
    have hparts := List.all_eq_true.mp (Bool.and_eq_true_iff.mp hvalid).2 part hpart
    exact List.all_eq_true.mp (Bool.and_eq_true_iff.mp hparts).2 c hc

lemma notMem_decimal (n : ℕ) {c : UInt8} (hc : isDigit c = false) : c ∉ decimal n := by
  intro h
  have hdigit := (isNumericIdentifier_iff.mp (decimal_spec n).1.digits).2 c h
  rw [hc] at hdigit
  cases hdigit

lemma notMem_core (v : SemVer) {c : UInt8} (hc : isDigit c = false) (hdot : c ≠ byte '.') :
    c ∉ [byte '.'].intercalate [decimal v.major.toNat, decimal v.minor.toNat, decimal v.patch.toNat] := by
  simp [List.intercalate, notMem_decimal, hc, hdot]

lemma parseSemVer_eq_ok : parseSemVer text = .ok v ↔
    IsField v.prerelease ∧ IsField v.build ∧ stripV text = v.toString := by
  constructor
  · intro h
    rw [parseSemVer] at h
    split at h
    · cases h
    · cases hplus : suffixField (byte '+') .invalidBuild (stripV text) with
      | error e => rw [hplus] at h; cases h
      | ok cut =>
        obtain ⟨text₁, build⟩ := cut
        cases hdash : suffixField (byte '-') .invalidPrerelease text₁ with
        | error e => rw [hplus] at h; simp only [hdash, bind, Except.bind] at h; cases h
        | ok cut =>
          obtain ⟨text₂, prerelease⟩ := cut
          rw [hplus] at h
          simp only [hdash, bind, Except.bind] at h
          obtain ⟨hsplit, rfl, rfl⟩ := coreFields_eq_ok.mp h
          obtain ⟨_, hbuild, htext⟩ := suffixField_eq_ok.mp hplus
          obtain ⟨_, hpre, rfl⟩ := suffixField_eq_ok.mp hdash
          refine ⟨hpre, hbuild, ?_⟩
          rw [htext, toString_eq, ← hsplit, split, List.intercalate_splitOn]
  · rintro ⟨hpre, hbuild, htext⟩
    have hplus : byte '+' ∉ [byte '.'].intercalate
        [decimal v.major.toNat, decimal v.minor.toNat, decimal v.patch.toNat] ++ marked (byte '-') v.prerelease := by
      refine fun hc => (List.mem_append.mp hc).elim (notMem_core v (by decide) (by decide)) (fun hc => ?_)
      rw [marked] at hc
      split at hc
      · exact absurd hc List.not_mem_nil
      · rcases List.mem_cons.mp hc with h | hc
        · exact absurd h (by decide)
        · rcases isIdentifierChar_of_mem hpre hc with h | h <;> exact absurd h (by decide)
    have hne : (stripV text).isEmpty = false := by
      rw [htext, toString_eq, List.isEmpty_eq_false_iff]
      simp [List.intercalate]
    have hsplit : split ([byte '.'].intercalate [decimal v.major.toNat, decimal v.minor.toNat, decimal v.patch.toNat])
        (byte '.') = [decimal v.major.toNat, decimal v.minor.toNat, decimal v.patch.toNat] := by
      refine List.splitOn_intercalate _ (fun part hpart => ?_) (List.cons_ne_nil _ _)
      simp only [List.mem_cons, List.not_mem_nil, or_false] at hpart
      rcases hpart with rfl | rfl | rfl <;> exact notMem_decimal _ (by decide)
    rw [parseSemVer, hne, if_neg Bool.false_ne_true, htext, toString_eq,
      suffixField_eq_ok.mpr ⟨hplus, hbuild, rfl⟩]
    simp only [bind, Except.bind]
    rw [suffixField_eq_ok.mpr ⟨notMem_core v (by decide) (by decide), hpre, rfl⟩]
    simp only
    exact coreFields_eq_ok.mpr ⟨hsplit, rfl, rfl⟩

lemma stripV_toString (v : SemVer) : stripV v.toString = v.toString := by
  have hhead : ∀ c, v.toString.head? = some c → isDigit c = true := by
    intro c hc
    obtain ⟨hne, hall⟩ := isNumericIdentifier_iff.mp (decimal_spec v.major.toNat).1.digits
    obtain ⟨d, rest, hd⟩ := List.exists_cons_of_ne_nil hne
    simp only [toString, hd, List.cons_append, List.head?_cons, Option.some.injEq] at hc
    exact hc ▸ hall d (hd ▸ List.mem_cons_self)
  refine if_neg (fun h => ?_)
  rcases h with h | h <;> exact absurd (hhead _ h) (by decide)

end Versions

section Grammar

def Identifier (s : Bytes) : Prop := s ≠ [] ∧ ∀ c ∈ s, isIdentifierChar c = true

/-- `<pre-release identifier>`: one made of digits alone has no leading zero. -/
def PrereleaseIdentifier (s : Bytes) : Prop :=
  Identifier s ∧ (isNumericIdentifier s = true → NumericIdentifier s)

def dotted (parts : List Bytes) : Bytes := [byte '.'].intercalate parts

def IsIdentifierList (field : Bytes) : Prop := ∃ parts, (∀ s ∈ parts, Identifier s) ∧ field = dotted parts

structure Parts where
  major : Bytes
  minor : Bytes
  patch : Bytes
  prerelease : List Bytes
  build : List Bytes

def Parts.text (t : Parts) : Bytes :=
  dotted [t.major, t.minor, t.patch] ++ marked (byte '-') (dotted t.prerelease) ++ marked (byte '+') (dotted t.build)

def VersionNumber (s : Bytes) : Prop := NumericIdentifier s ∧ numberValue s < 2 ^ 32

structure Parts.WellFormed (P : Bytes → Prop) (t : Parts) : Prop where
  major : VersionNumber t.major
  minor : VersionNumber t.minor
  patch : VersionNumber t.patch
  prerelease : ∀ s ∈ t.prerelease, P s
  build : ∀ s ∈ t.build, Identifier s

/-- `<valid semver>`, with the three version numbers below `2 ^ 32`. -/
def IsSemVer (text : Bytes) : Prop := ∃ t : Parts, t.WellFormed PrereleaseIdentifier ∧ t.text = text

/-- A version but for zeros in front of a numeric prerelease identifier. -/
def HasPaddedIdentifier (text : Bytes) : Prop :=
  ∃ t : Parts, t.WellFormed Identifier ∧ t.text = text ∧
    ∃ s ∈ t.prerelease, isNumericIdentifier s = true ∧ 1 < s.length ∧ s.head? = some (byte '0')

variable {s text : Bytes} {t u : Parts} {parts : List Bytes}

lemma Identifier.notMem_dot (h : Identifier s) : byte '.' ∉ s := fun hmem => absurd (h.2 _ hmem) (by decide)

lemma NumericIdentifier.identifier (h : NumericIdentifier s) : Identifier s := by
  obtain ⟨hne, hall⟩ := isNumericIdentifier_iff.mp h.digits
  exact ⟨hne, fun c hc => by simp [isIdentifierChar, hall c hc]⟩

lemma split_dotted (h : ∀ s ∈ parts, Identifier s) (hne : parts ≠ []) : split (dotted parts) (byte '.') = parts :=
  List.splitOn_intercalate _ (fun s hs => (h s hs).notMem_dot) hne

lemma dotted_eq_nil (h : ∀ s ∈ parts, Identifier s) : dotted parts = [] ↔ parts = [] := by
  refine ⟨fun hnil => ?_, fun hnil => by rw [hnil]; rfl⟩
  by_contra hne
  have hsplit := split_dotted h hne
  rw [hnil] at hsplit
  exact (h [] (hsplit ▸ List.mem_singleton_self [])).1 rfl

lemma dotted_injOn {parts' : List Bytes} (h : ∀ s ∈ parts, Identifier s) (h' : ∀ s ∈ parts', Identifier s)
    (heq : dotted parts = dotted parts') : parts = parts' := by
  by_cases hnil : parts = []
  · rw [hnil, (dotted_eq_nil h').mp (by rw [← heq, hnil]; rfl)]
  · have hnil' : parts' ≠ [] := fun hnil' => hnil ((dotted_eq_nil h).mp (by rw [heq, hnil']; rfl))
    rw [← split_dotted h hnil, heq, split_dotted h' hnil']

lemma isValidDotSeparated_iff : isValidDotSeparated s = true ↔
    s ≠ [] ∧ ∀ part ∈ split s (byte '.'), Identifier part := by
  simp [isValidDotSeparated, Identifier]

lemma isField_iff : IsField s ↔ IsIdentifierList s := by
  constructor
  · rintro (rfl | h)
    · exact ⟨[], by simp, rfl⟩
    · exact ⟨_, (isValidDotSeparated_iff.mp h).2, (List.intercalate_splitOn _).symm⟩
  · rintro ⟨parts, hparts, rfl⟩
    refine (eq_or_ne parts []).imp (fun h => (dotted_eq_nil hparts).mpr h) (fun hne => ?_)
    rw [isValidDotSeparated_iff, split_dotted hparts hne]
    exact ⟨fun h => hne ((dotted_eq_nil hparts).mp h), hparts⟩

lemma Parts.WellFormed.exists_version (ht : t.WellFormed Identifier) :
    ∃ v : SemVer, IsField v.prerelease ∧ IsField v.build ∧ v.toString = t.text ∧ v.prerelease = dotted t.prerelease := by
  obtain ⟨major, hmajor⟩ := exists_parseNumber.mpr ht.major
  obtain ⟨minor, hminor⟩ := exists_parseNumber.mpr ht.minor
  obtain ⟨patch, hpatch⟩ := exists_parseNumber.mpr ht.patch
  refine ⟨⟨major, minor, patch, dotted t.prerelease, dotted t.build⟩, ?_, ?_, ?_, rfl⟩
  · exact isField_iff.mpr ⟨_, ht.prerelease, rfl⟩
  · exact isField_iff.mpr ⟨_, ht.build, rfl⟩
  · rw [toString_eq, ← parseNumber_eq_ok.mp hmajor, ← parseNumber_eq_ok.mp hminor, ← parseNumber_eq_ok.mp hpatch]
    rfl

lemma exists_parse_iff : (∃ v, parseSemVer text = .ok v) ↔ ∃ t : Parts, t.WellFormed Identifier ∧ t.text = stripV text := by
  constructor
  · rintro ⟨v, hv⟩
    obtain ⟨hpre, hbuild, htext⟩ := parseSemVer_eq_ok.mp hv
    obtain ⟨pre, hpre, hpre'⟩ := isField_iff.mp hpre
    obtain ⟨build, hbuild, hbuild'⟩ := isField_iff.mp hbuild
    have hnumber : ∀ n : UInt32, VersionNumber (decimal n.toNat) := fun n =>
      exists_parseNumber.mp ⟨n, parseNumber_eq_ok.mpr rfl⟩
    refine ⟨⟨decimal v.major.toNat, decimal v.minor.toNat, decimal v.patch.toNat, pre, build⟩,
      ⟨hnumber _, hnumber _, hnumber _, hpre, hbuild⟩, ?_⟩
    rw [htext, toString_eq, hpre', hbuild']
    rfl
  · rintro ⟨t, ht, htext⟩
    obtain ⟨v, hpre, hbuild, hv, _⟩ := ht.exists_version
    exact ⟨v, parseSemVer_eq_ok.mpr ⟨hpre, hbuild, by rw [hv, htext]⟩⟩

lemma Parts.WellFormed.prerelease_eq (ht : t.WellFormed Identifier) (hu : u.WellFormed Identifier)
    (h : t.text = u.text) : t.prerelease = u.prerelease := by
  obtain ⟨v, hpre, hbuild, hv, hvt⟩ := ht.exists_version
  obtain ⟨w, hpre', hbuild', hw, hwu⟩ := hu.exists_version
  have hparse : parseSemVer t.text = .ok v := parseSemVer_eq_ok.mpr ⟨hpre, hbuild, by rw [← hv, stripV_toString]⟩
  have hparse' : parseSemVer t.text = .ok w :=
    parseSemVer_eq_ok.mpr ⟨hpre', hbuild', by rw [h, ← hw, stripV_toString]⟩
  obtain rfl := Except.ok.inj (hparse.symm.trans hparse')
  exact dotted_injOn ht.prerelease hu.prerelease (hvt.symm.trans hwu)

lemma Parts.WellFormed.loose (ht : t.WellFormed PrereleaseIdentifier) : t.WellFormed Identifier :=
  { ht with prerelease := fun s hs => (ht.prerelease s hs).1 }

lemma prereleaseIdentifier_iff (h : Identifier s) : PrereleaseIdentifier s ↔
    ¬ (isNumericIdentifier s = true ∧ 1 < s.length ∧ s.head? = some (byte '0')) := by
  constructor
  · rintro ⟨_, hnum⟩ ⟨hdigits, hlen, hhead⟩
    rw [(hnum hdigits).unpadded hhead] at hlen
    exact absurd hlen (by decide)
  · refine fun hpad => ⟨h, fun hdigits => ⟨hdigits, fun hhead => ?_⟩⟩
    obtain ⟨c, rest, rfl⟩ := List.exists_cons_of_ne_nil h.1
    obtain rfl : rest = [] := by
      by_contra hrest
      exact hpad ⟨hdigits, by simpa using List.length_pos_iff.mpr hrest, hhead⟩
    exact congrArg (fun c => [c]) (Option.some.inj hhead)

theorem parse_agrees_with_grammar_iff (text : Bytes) :
    ((∃ v, parseSemVer text = .ok v) ↔ IsSemVer (stripV text)) ↔ ¬ HasPaddedIdentifier (stripV text) := by
  rw [exists_parse_iff]
  constructor
  · rintro hiff ⟨t, ht, htext, s, hs, hpadded⟩
    obtain ⟨u, hu, hutext⟩ := hiff.mp ⟨t, ht, htext⟩
    rw [ht.prerelease_eq hu.loose (htext.trans hutext.symm)] at hs
    exact (prereleaseIdentifier_iff (hu.loose.prerelease s hs)).mp (hu.prerelease s hs) hpadded
  · refine fun hpadded => ⟨fun ⟨t, ht, htext⟩ => ⟨t, { ht with prerelease := fun s hs => ?_ }, htext⟩,
      fun ⟨t, ht, htext⟩ => ⟨t, ht.loose, htext⟩⟩
    exact (prereleaseIdentifier_iff (ht.prerelease s hs)).mpr (fun h => hpadded ⟨t, ht, htext, s, hs, h⟩)

theorem parse_accepts_a_padded_identifier :
    (∃ v, parseSemVer (ascii "1.0.0-01") = .ok v) ∧ ¬ IsSemVer (stripV (ascii "1.0.0-01")) := by
  have hparse : parseSemVer (ascii "1.0.0-01") = .ok ⟨1, 0, 0, ascii "01", []⟩ := by decide
  refine ⟨⟨_, hparse⟩, fun ⟨t, ht, htext⟩ => ?_⟩
  obtain ⟨v, hpre, hbuild, hv, hvt⟩ := ht.loose.exists_version
  have hparse' : parseSemVer (ascii "1.0.0-01") = .ok v := parseSemVer_eq_ok.mpr ⟨hpre, hbuild, by rw [hv, htext]⟩
  obtain rfl := Except.ok.inj (hparse.symm.trans hparse')
  have hid : ∀ s ∈ [ascii "01"], Identifier s := by simp [Identifier, ascii, isIdentifierChar]; decide
  have hlist : [ascii "01"] = t.prerelease := dotted_injOn hid ht.loose.prerelease hvt
  have hmem : ascii "01" ∈ t.prerelease := hlist ▸ List.mem_singleton_self _
  exact absurd ((ht.prerelease _ hmem).2 (by decide)).unpadded (by decide)

end Grammar

theorem version_text_round_trips :
    (∀ v : SemVer, IsIdentifierList v.prerelease → IsIdentifierList v.build → parseSemVer v.toString = .ok v) ∧
      ∀ text v, parseSemVer text = .ok v → v.toString = stripV text := by
  constructor
  · intro v hpre hbuild
    exact parseSemVer_eq_ok.mpr ⟨isField_iff.mpr hpre, isField_iff.mpr hbuild, stripV_toString v⟩
  · intro text v h
    exact (parseSemVer_eq_ok.mp h).2.2.symm

theorem a_release_candidate_round_trips :
    parseSemVer (SemVer.toString ⟨1, 2, 3, ascii "rc.1", ascii "b-7"⟩) = .ok ⟨1, 2, 3, ascii "rc.1", ascii "b-7"⟩ ∧
      SemVer.toString ⟨1, 2, 3, ascii "rc.1", ascii "b-7"⟩ = stripV (ascii "v1.2.3-rc.1+b-7") :=
  ⟨version_text_round_trips.1 _ (isField_iff.mp (.inr (by decide))) (isField_iff.mp (.inr (by decide))),
    version_text_round_trips.2 _ _ (by decide)⟩

end NsxManager.Core.SemVer
