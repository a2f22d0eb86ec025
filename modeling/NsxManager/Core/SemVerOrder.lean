import NsxManager.Core.SemVerText
import NsxManager.Lib.Order

/-! The order of versions, and the precedence it is. -/

namespace NsxManager.Core.SemVer

open Std Lib.Order

section Identifiers

/-- What an identifier is compared by: digits come first, shorter before longer. -/
def identifierKey (s : Bytes) : Bool × ℕ × Bytes :=
  if isNumericIdentifier s then (false, s.length, s) else (true, 0, s)

def compareKey : Bool × ℕ × Bytes → Bool × ℕ × Bytes → Ordering :=
  compareLex (compareOn Prod.fst) (compareLex (compareOn (fun x => x.2.1)) (compareOn (fun x => x.2.2)))

lemma compareIdentifier_eq (s t : Bytes) : compareIdentifier s t = compareKey (identifierKey s) (identifierKey t) := by
  have hft : Ord.compare false true = Ordering.lt := rfl
  have htf : Ord.compare true false = Ordering.gt := rfl
  unfold compareIdentifier identifierKey compareKey compareLex compareOn
  cases isNumericIdentifier s <;> cases isNumericIdentifier t <;> simp [hft, htf]

instance : TransCmp compareKey := inferInstanceAs (TransCmp (compareLex _ (compareLex _ _)))

instance : TransCmp compareIdentifier := transCmp_of_key compareIdentifier_eq

lemma identifierKey_text (s : Bytes) : (identifierKey s).2.2 = s := by
  rw [identifierKey]
  split <;> rfl

instance : LawfulEqCmp compareIdentifier where
  eq_of_compare {s t} h := by
    rw [compareIdentifier_eq, compareKey, compareLex, compareLex, Ordering.then_eq_eq, Ordering.then_eq_eq] at h
    have heq : (identifierKey s).2.2 = (identifierKey t).2.2 := LawfulEqOrd.eq_of_compare h.2.2
    rwa [identifierKey_text, identifierKey_text] at heq

lemma compareIdentifiers_eq (left right : List Bytes) :
    compareIdentifiers left right = List.compareLex compareIdentifier left right := by
  induction left generalizing right with
  | nil =>
    cases right with
    | nil => rfl
    | cons r right =>
      rw [List.compareLex_nil_cons, compareIdentifiers]
      · exact Nat.compare_eq_lt.mpr (Nat.succ_pos _)
      · simp
  | cons l left ih =>
    cases right with
    | nil =>
      rw [List.compareLex_cons_nil, compareIdentifiers]
      · exact Nat.compare_eq_gt.mpr (Nat.succ_pos _)
      · simp
    | cons r right => rw [compareIdentifiers, List.compareLex_cons_cons, ih]

end Identifiers

section Order

def compareSplit (p q : Bytes) : Ordering :=
  List.compareLex compareIdentifier (split p (byte '.')) (split q (byte '.'))

instance : TransCmp compareSplit :=
  @transCmp_of_key _ _ (List.compareLex compareIdentifier) _ (fun p => split p (byte '.')) _ (fun _ _ => rfl)

lemma comparePrerelease_eq : comparePrerelease = compareLex (compareOn List.isEmpty) compareSplit := by
  funext p q
  rw [comparePrerelease, compareIdentifiers_eq, compareLex, compareOn, compareSplit]
  cases hp : p.isEmpty <;> cases hq : q.isEmpty
  · rfl
  · rfl
  · rfl
  · rw [List.isEmpty_iff.mp hp, List.isEmpty_iff.mp hq]
    rfl

instance : TransCmp comparePrerelease := comparePrerelease_eq ▸ inferInstance

instance : LawfulEqCmp comparePrerelease where
  eq_of_compare {p q} h := by
    rw [comparePrerelease_eq, compareLex, Ordering.then_eq_eq] at h
    have hsplit : split p (byte '.') = split q (byte '.') := LawfulEqCmp.eq_of_compare h.2
    have hjoin : ∀ p : Bytes, [byte '.'].intercalate (split p (byte '.')) = p := fun _ => List.intercalate_splitOn _
    rw [← hjoin p, hsplit, hjoin]

def compareField (a b : SemVer) : Ordering := comparePrerelease a.prerelease b.prerelease

instance : TransCmp compareField := @transCmp_of_key _ _ comparePrerelease _ prerelease _ (fun _ _ => rfl)

instance : TransCmp compare := inferInstanceAs (TransCmp
  (compareLex (compareOn major) (compareLex (compareOn minor) (compareLex (compareOn patch) compareField))))

lemma compare_eq_eq {a b : SemVer} : compare a b = .eq ↔
    a.major = b.major ∧ a.minor = b.minor ∧ a.patch = b.patch ∧ a.prerelease = b.prerelease := by
  simp only [compare, Ordering.then_eq_eq, LawfulEqCmp.compare_eq_iff_eq]

end Order

section Values

variable {s t : Bytes}

lemma foldl_digits (s : Bytes) (n : ℕ) :
    s.foldl (fun n c => 10 * n + digitValue c) n = n * 10 ^ s.length + numberValue s := by
  induction s generalizing n with
  | nil => simp [numberValue]
  | cons c s ih =>
    rw [numberValue, List.foldl_cons, List.foldl_cons, ih, ih, List.length_cons, pow_succ]
    ring

lemma numberValue_cons (c : UInt8) (s : Bytes) :
    numberValue (c :: s) = digitValue c * 10 ^ s.length + numberValue s := by
  rw [numberValue, List.foldl_cons, foldl_digits, Nat.mul_zero, Nat.zero_add]

lemma numberValue_lt (hs : ∀ c ∈ s, isDigit c = true) : numberValue s < 10 ^ s.length := by
  induction s with
  | nil => decide
  | cons c s ih =>
    obtain ⟨hc, hs⟩ := List.forall_mem_cons.mp hs
    have hd := digitValue_lt hc
    have hle : digitValue c * 10 ^ s.length ≤ 9 * 10 ^ s.length := Nat.mul_le_mul_right _ (by omega)
    have hlt := ih hs
    rw [numberValue_cons, List.length_cons, pow_succ]
    omega

lemma pow_le_numberValue {c : UInt8} (hs : NumericIdentifier (c :: s)) (hne : s ≠ []) :
    10 ^ s.length ≤ numberValue (c :: s) := by
  obtain ⟨_, hall⟩ := isNumericIdentifier_iff.mp hs.digits
  have hc := isDigit_iff.mp (hall c List.mem_cons_self)
  have h0 : c.toNat ≠ 48 := by
    intro h
    have hhead : c = byte '0' := UInt8.toNat_inj.mp h
    exact hne (List.cons.inj (hs.unpadded (congrArg some hhead))).2
  have hpos : 1 ≤ digitValue c := by
    rw [digitValue]
    omega
  have hle : 1 * 10 ^ s.length ≤ digitValue c * 10 ^ s.length := Nat.mul_le_mul_right _ hpos
  rw [numberValue_cons]
  omega

lemma numberValue_lt_of_length_lt (hs : NumericIdentifier s) (ht : NumericIdentifier t) (h : s.length < t.length) :
    numberValue s < numberValue t := by
  obtain ⟨hne, hdigits⟩ := isNumericIdentifier_iff.mp hs.digits
  obtain ⟨c, t, rfl⟩ := List.exists_cons_of_ne_nil (isNumericIdentifier_iff.mp ht.digits).1
  have hpos : 0 < s.length := List.length_pos_iff.mpr hne
  rw [List.length_cons] at h
  have htne : t ≠ [] := by
    rintro rfl
    rw [List.length_nil] at h
    omega
  calc numberValue s < 10 ^ s.length := numberValue_lt hdigits
    _ ≤ 10 ^ t.length := Nat.pow_le_pow_right (by decide) (by omega)
    _ ≤ numberValue (c :: t) := pow_le_numberValue ht htne

lemma numberValue_cons_lt {c d : UInt8} (hc : isDigit c = true) (hs : ∀ c ∈ s, isDigit c = true)
    (hlen : s.length = t.length) (hcd : c < d) : numberValue (c :: s) < numberValue (d :: t) := by
  have hdigit : digitValue c + 1 ≤ digitValue d := by
    have h := isDigit_iff.mp hc
    rw [UInt8.lt_iff_toNat_lt] at hcd
    simp only [digitValue]
    omega
  have hle : (digitValue c + 1) * 10 ^ s.length ≤ digitValue d * 10 ^ s.length := Nat.mul_le_mul_right _ hdigit
  have hlt := numberValue_lt hs
  rw [numberValue_cons, numberValue_cons, ← hlen]
  rw [Nat.add_mul] at hle
  omega

lemma compare_of_length_eq (hs : ∀ c ∈ s, isDigit c = true) (ht : ∀ c ∈ t, isDigit c = true)
    (h : s.length = t.length) : Ord.compare s t = Ord.compare (numberValue s) (numberValue t) := by
  induction s generalizing t with
  | nil =>
    obtain rfl := List.length_eq_zero_iff.mp h.symm
    rfl
  | cons c s ih =>
    cases t with
    | nil => simp at h
    | cons d t =>
      obtain ⟨hc, hs'⟩ := List.forall_mem_cons.mp hs
      obtain ⟨hd, ht'⟩ := List.forall_mem_cons.mp ht
      have hlen : s.length = t.length := Nat.succ.inj h
      have hstep : Ord.compare (c :: s) (d :: t) = (Ord.compare c d).then (Ord.compare s t) :=
        List.compareLex_cons_cons
      rw [hstep]
      cases hcd : Ord.compare c d with
      | lt => exact (Nat.compare_eq_lt.mpr (numberValue_cons_lt hc hs' hlen (compare_eq_lt.mp hcd))).symm
      | gt => exact (Nat.compare_eq_gt.mpr (numberValue_cons_lt hd ht' hlen.symm (compare_eq_gt.mp hcd))).symm
      | eq =>
        obtain rfl := LawfulEqOrd.eq_of_compare hcd
        rw [Ordering.then, ih hs' ht' hlen, numberValue_cons, numberValue_cons, ← hlen]
        rcases Nat.lt_trichotomy (numberValue s) (numberValue t) with hlt | heq | hgt
        · rw [Nat.compare_eq_lt.mpr hlt, Nat.compare_eq_lt.mpr (by omega)]
        · rw [Nat.compare_eq_eq.mpr heq, Nat.compare_eq_eq.mpr (by omega)]
        · rw [Nat.compare_eq_gt.mpr hgt, Nat.compare_eq_gt.mpr (by omega)]

lemma compareIdentifier_of_numeric (hs : NumericIdentifier s) (ht : NumericIdentifier t) :
    compareIdentifier s t = Ord.compare (numberValue s) (numberValue t) := by
  rw [compareIdentifier, hs.digits, ht.digits, Bool.and_self, if_pos rfl]
  rcases Nat.lt_trichotomy s.length t.length with hlt | heq | hgt
  · rw [Nat.compare_eq_lt.mpr hlt, Nat.compare_eq_lt.mpr (numberValue_lt_of_length_lt hs ht hlt)]
    rfl
  · rw [Nat.compare_eq_eq.mpr heq, Ordering.then]
    exact compare_of_length_eq (isNumericIdentifier_iff.mp hs.digits).2 (isNumericIdentifier_iff.mp ht.digits).2 heq
  · rw [Nat.compare_eq_gt.mpr hgt, Nat.compare_eq_gt.mpr (numberValue_lt_of_length_lt ht hs hgt)]
    rfl

end Values

section Precedence

/-- Identifiers in the order of section 11.4: numbers by value, other texts in ASCII order, and numbers
below the others. -/
inductive IdentifierBelow : Bytes → Bytes → Prop
  | numbers {s t : Bytes} : isNumericIdentifier s = true → isNumericIdentifier t = true →
      numberValue s < numberValue t → IdentifierBelow s t
  | mixed {s t : Bytes} : isNumericIdentifier s = true → isNumericIdentifier t = false → IdentifierBelow s t
  | texts {s t : Bytes} : isNumericIdentifier s = false → isNumericIdentifier t = false →
      List.Lex (· < ·) s t → IdentifierBelow s t

/-- Sections 11.3 and 11.4: a prerelease is below its release, and the first identifier that differs decides. -/
def PrereleaseBelow (p q : Bytes) : Prop :=
  p ≠ [] ∧ (q = [] ∨ List.Lex IdentifierBelow (split p (byte '.')) (split q (byte '.')))

/-- Section 11: lower precedence. -/
def Precedes (a b : SemVer) : Prop :=
  a.major < b.major ∨ a.major = b.major ∧ (a.minor < b.minor ∨ a.minor = b.minor ∧
    (a.patch < b.patch ∨ a.patch = b.patch ∧ PrereleaseBelow a.prerelease b.prerelease))

def IsPrerelease (p : Bytes) : Prop := p = [] ∨ ∀ s ∈ split p (byte '.'), PrereleaseIdentifier s

variable {s t p q : Bytes} {l r : List Bytes} {a b : SemVer}

lemma compare_text_eq_lt : Ord.compare s t = .lt ↔ List.Lex (· < ·) s t := by
  rw [List.compare_eq_compareLex, compareLex_eq_lt]
  simp only [compare_eq_lt]

lemma compareIdentifier_eq_lt (hs : PrereleaseIdentifier s) (ht : PrereleaseIdentifier t) :
    compareIdentifier s t = .lt ↔ IdentifierBelow s t := by
  cases hns : isNumericIdentifier s <;> cases hnt : isNumericIdentifier t
  · have hcmp : compareIdentifier s t = Ord.compare s t := by simp [compareIdentifier, hns, hnt]
    rw [hcmp, compare_text_eq_lt]
    refine ⟨fun h => .texts hns hnt h, fun h => ?_⟩
    cases h with
    | numbers hs _ _ => simp [hns] at hs
    | mixed hs _ => simp [hns] at hs
    | texts _ _ h => exact h
  · have hcmp : compareIdentifier s t = .gt := by simp [compareIdentifier, hns, hnt]
    rw [hcmp]
    refine ⟨fun h => absurd h (by decide), fun h => ?_⟩
    cases h with
    | numbers hs _ _ => simp [hns] at hs
    | mixed hs _ => simp [hns] at hs
    | texts _ ht _ => simp [hnt] at ht
  · have hcmp : compareIdentifier s t = .lt := by simp [compareIdentifier, hns, hnt]
    rw [hcmp]
    exact ⟨fun _ => .mixed hns hnt, fun _ => rfl⟩
  · rw [compareIdentifier_of_numeric (hs.2 hns) (ht.2 hnt), Nat.compare_eq_lt]
    refine ⟨fun h => .numbers hns hnt h, fun h => ?_⟩
    cases h with
    | numbers _ _ h => exact h
    | mixed _ ht => simp [hnt] at ht
    | texts hs _ _ => simp [hns] at hs

lemma compareLex_identifiers_eq_lt (hl : ∀ s ∈ l, PrereleaseIdentifier s) (hr : ∀ s ∈ r, PrereleaseIdentifier s) :
    List.compareLex compareIdentifier l r = .lt ↔ List.Lex IdentifierBelow l r := by
  rw [compareLex_eq_lt]
  induction l generalizing r with
  | nil => cases r <;> simp
  | cons s l ih =>
    cases r with
    | nil => simp
    | cons t r =>
      obtain ⟨hs, hl⟩ := List.forall_mem_cons.mp hl
      obtain ⟨ht, hr⟩ := List.forall_mem_cons.mp hr
      rw [List.cons_lex_cons_iff, List.cons_lex_cons_iff, ih hl hr, compareIdentifier_eq_lt hs ht]

lemma comparePrerelease_eq_lt (hp : IsPrerelease p) (hq : IsPrerelease q) :
    comparePrerelease p q = .lt ↔ PrereleaseBelow p q := by
  rcases eq_or_ne p [] with rfl | hpne
  · have hne : comparePrerelease [] q ≠ .lt := by
      cases q <;> simp [comparePrerelease]
    exact ⟨fun h => absurd h hne, fun h => absurd rfl h.1⟩
  · have hpe : p.isEmpty = false := List.isEmpty_eq_false_iff.mpr hpne
    rcases eq_or_ne q [] with rfl | hqne
    · exact ⟨fun _ => ⟨hpne, .inl rfl⟩, fun _ => by simp [comparePrerelease, hpe]⟩
    · have hqe : q.isEmpty = false := List.isEmpty_eq_false_iff.mpr hqne
      have hcmp : comparePrerelease p q = compareSplit p q := by
        rw [comparePrerelease_eq, compareLex, compareOn, hpe, hqe]
        rfl
      rw [hcmp, compareSplit, compareLex_identifiers_eq_lt (hp.resolve_left hpne) (hq.resolve_left hqne)]
      exact ⟨fun h => ⟨hpne, .inr h⟩, fun h => h.2.resolve_left hqne⟩

lemma compare_eq_lt_iff (ha : IsPrerelease a.prerelease) (hb : IsPrerelease b.prerelease) :
    compare a b = .lt ↔ Precedes a b := by
  simp only [compare, Precedes, Ordering.then_eq_lt, compare_eq_lt, LawfulEqCmp.compare_eq_iff_eq,
    comparePrerelease_eq_lt ha hb]

end Precedence

theorem version_order_is_precedence :
    (∀ a, (compare a a).isLE = true) ∧
    (∀ a b, (compare a b).isLE = true → (compare b a).isLE = true → compare a b = .eq) ∧
    (∀ a b c, (compare a b).isLE = true → (compare b c).isLE = true → (compare a c).isLE = true) ∧
    (∀ a b, (compare a b).isLE = true ∨ (compare b a).isLE = true) ∧
    (∀ a b, compare b a = (compare a b).swap) ∧
    (∀ a b, compare a b = .eq ↔
      a.major = b.major ∧ a.minor = b.minor ∧ a.patch = b.patch ∧ a.prerelease = b.prerelease) ∧
    ∀ a b, IsPrerelease a.prerelease → IsPrerelease b.prerelease →
      (compare a b = .lt ↔ Precedes a b) ∧ (compare a b = .gt ↔ Precedes b a) := by
  refine ⟨?_, ?_, ?_, ?_, ?_, ?_, ?_⟩
  · exact fun _ => ReflCmp.isLE_rfl
  · exact fun _ _ => OrientedCmp.isLE_antisymm
  · exact fun _ _ _ => TransCmp.isLE_trans
  · intro a b
    have hswap : compare b a = (compare a b).swap := OrientedCmp.eq_swap
    rw [hswap]
    cases compare a b <;> simp
  · exact fun _ _ => OrientedCmp.eq_swap
  · exact fun _ _ => compare_eq_eq
  · intro a b ha hb
    exact ⟨compare_eq_lt_iff ha hb, OrientedCmp.gt_iff_lt.trans (compare_eq_lt_iff hb ha)⟩

theorem tenth_candidate_follows_the_ninth :
    Precedes ⟨1, 0, 0, ascii "rc.9", []⟩ ⟨1, 0, 0, ascii "rc.10", ascii "b"⟩ := by
  have hpre : ∀ p ∈ [ascii "rc.9", ascii "rc.10"], IsPrerelease p := by
    have hrc : PrereleaseIdentifier (ascii "rc") :=
      ⟨⟨by decide, List.all_eq_true.mp (by decide)⟩, fun h => absurd h (by decide)⟩
    have hnumber : ∀ n : ℕ, PrereleaseIdentifier (decimal n) := fun n => by
      obtain ⟨hne, hall⟩ := isNumericIdentifier_iff.mp (decimal_spec n).1.digits
      exact ⟨⟨hne, fun c hc => by simp [isIdentifierChar, hall c hc]⟩, fun _ => (decimal_spec n).1⟩
    have h9 : split (ascii "rc.9") (byte '.') = [ascii "rc", decimal 9] := by decide
    have h10 : split (ascii "rc.10") (byte '.') = [ascii "rc", decimal 10] := by decide
    intro p hp
    simp only [List.mem_cons, List.not_mem_nil, or_false] at hp
    rcases hp with rfl | rfl
    · exact .inr (by rw [h9]; simpa using ⟨hrc, hnumber 9⟩)
    · exact .inr (by rw [h10]; simpa using ⟨hrc, hnumber 10⟩)
  obtain ⟨_, _, _, _, _, _, h⟩ := version_order_is_precedence
  exact (h _ _ (hpre _ (by decide)) (hpre _ (by decide))).1.mp (by decide)

end NsxManager.Core.SemVer
