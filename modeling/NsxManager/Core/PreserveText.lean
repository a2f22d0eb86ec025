import NsxManager.Core.PathPatterns
import Mathlib.Data.List.TakeWhile

/-! `preserve.txt` as its author reads it, and that `parse` and `preserves` read it the same way. -/

namespace NsxManager.Core

open Lib

def IsLines (lines : List Bytes) (text : Bytes) : Prop :=
  lines ≠ [] ∧ (∀ line ∈ lines, byte '\n' ∉ line) ∧ [byte '\n'].intercalate lines = text

/-- Blanks go at both ends, carriage returns at the end only. -/
structure Trimmed (line body : Bytes) : Prop where
  ends : ∃ front back, line = front ++ body ++ back ∧ (∀ c ∈ front, isBlank c = true) ∧
    ∀ c ∈ back, (isBlank c || c == byte '\r') = true
  first : ∀ c, body.head? = some c → isBlank c = false
  last : ∀ c, body.getLast? = some c → (isBlank c || c == byte '\r') = false

inductive Gives : Bytes → Bool → Bytes → Prop
  | plain {c : UInt8} {rest : Bytes} : c ≠ byte '#' → c ≠ byte '!' → Gives (c :: rest) false (c :: rest)
  | negated {rest pattern : Bytes} : Trimmed rest pattern → Gives (byte '!' :: rest) true pattern

structure IsRule (line : Bytes) (negated : Bool) (pattern : Bytes) : Prop where
  given : ∃ body, Trimmed line body ∧ Gives body negated pattern
  named : components pattern ≠ []
  inside : ¬ascii ".." <:+: pattern

def Hits (pattern path : Bytes) : Prop :=
  ∃ leading, leading <+: components path ∧ Covers (components pattern) leading

/-- The last line that is a rule and hits the path is not negated. -/
def KeptBy (lines : List Bytes) (path : Bytes) : Prop :=
  ∃ before line after pattern, lines = before ++ line :: after ∧ IsRule line false pattern ∧ Hits pattern path ∧
    ∀ later ∈ after, ∀ negated other, IsRule later negated other → ¬Hits other path

section Trimming

variable {line body : Bytes}

lemma Trimmed.trim_eq (h : Trimmed line body) : trim line = body := by
  obtain ⟨front, back, rfl, hfront, hback⟩ := h.ends
  rw [trim, List.rdropWhile, List.append_assoc, List.dropWhile_append_of_pos hfront]
  cases body with
  | nil =>
    rw [List.nil_append, List.reverse_eq_nil_iff, List.dropWhile_eq_nil_iff]
    intro c hc
    exact hback c ((List.dropWhile_suffix _).subset (List.mem_reverse.mp hc))
  | cons c rest =>
    have hstart : ((c :: rest) ++ back).dropWhile isBlank = (c :: rest) ++ back := by
      rw [List.cons_append, List.dropWhile_cons_of_neg (by simp [h.first c rfl])]
    have hstop : (c :: rest).reverse.dropWhile (fun c => isBlank c || c == byte '\r') = (c :: rest).reverse := by
      cases hlast : (c :: rest).reverse with
      | nil => rfl
      | cons d init =>
        have hd := h.last d (by rw [← List.head?_reverse, hlast]; rfl)
        rw [List.dropWhile_cons_of_neg (by simp [hd])]
    rw [hstart, List.reverse_append, List.dropWhile_append_of_pos (by simpa using hback), hstop, List.reverse_reverse]

lemma trimmed_trim (line : Bytes) : Trimmed line (trim line) := by
  obtain ⟨back, hkept, hback⟩ : ∃ back, line.dropWhile isBlank = trim line ++ back ∧
      ∀ c ∈ back, (isBlank c || c == byte '\r') = true := by
    refine ⟨((line.dropWhile isBlank).reverse.takeWhile (fun c => isBlank c || c == byte '\r')).reverse, ?_, ?_⟩
    · rw [trim, List.rdropWhile, ← List.reverse_append, List.takeWhile_append_dropWhile, List.reverse_reverse]
    · intro c hc
      exact List.mem_takeWhile_imp (p := fun c => isBlank c || c == byte '\r') (List.mem_reverse.mp hc)
  constructor
  · refine ⟨line.takeWhile isBlank, back, ?_, fun _ => List.mem_takeWhile_imp, hback⟩
    rw [List.append_assoc, ← hkept, List.takeWhile_append_dropWhile]
  · intro c hc
    have hhead : (line.dropWhile isBlank).head? = some c := by rw [hkept, List.head?_append, hc]; rfl
    have hfirst := List.head?_dropWhile_not isBlank line
    rwa [hhead] at hfirst
  · intro c hc
    have hfirst := List.head?_dropWhile_not (fun c => isBlank c || c == byte '\r') (line.dropWhile isBlank).reverse
    rw [trim, List.rdropWhile, List.getLast?_reverse] at hc
    rwa [hc] at hfirst

end Trimming

section Rules

variable {line path : Bytes} {lines : List Bytes}

lemma hits_iff (rule : PreserveRule) (path : Bytes) :
    PreserveRules.hits rule path = true ↔ Hits rule.pattern path := by
  have hbelow : components (rule.pattern ++ ascii "/**") = components rule.pattern ++ [ascii "**"] :=
    components_separator rule.pattern (ascii "**")
  rw [PreserveRules.hits, Bool.or_eq_true, globMatch, globMatch, hbelow, matchAll_iff, matchAll_iff]
  constructor
  · rintro (hwhole | hpart)
    · exact ⟨_, List.prefix_rfl, hwhole⟩
    · obtain ⟨k, -, hcovers⟩ := Glob.append_wild_iff.mp hpart
      exact ⟨_, List.take_prefix k _, hcovers⟩
  · rintro ⟨leading, hleading, hcovers⟩
    refine .inr (Glob.append_wild_iff.mpr ⟨leading.length, hleading.length_le, ?_⟩)
    rwa [← List.prefix_iff_eq_take.mp hleading]

lemma hits_congr {pattern pattern' path' : Bytes} (hpattern : components pattern = components pattern')
    (hpath : components path = components path') : Hits pattern path ↔ Hits pattern' path' := by
  rw [Hits, Hits, hpattern, hpath]

lemma preserves_concat (out : PreserveRules) (rule : PreserveRule) (path : Bytes) :
    PreserveRules.preserves { out with rules := out.rules ++ [rule] } path =
      if PreserveRules.hits rule (normalise path) then !rule.negated else out.preserves path := by
  rw [PreserveRules.preserves, List.foldl_append]
  rfl

lemma withoutSlash (pattern : Bytes) : ∃ body,
    (if pattern.getLast? == some (byte '/') then pattern.dropLast else pattern) = body ∧
      components body = components pattern ∧ (ascii ".." <:+: body ↔ ascii ".." <:+: pattern) := by
  by_cases hslash : pattern.getLast? = some (byte '/')
  · refine ⟨pattern.dropLast, if_pos (beq_iff_eq.mpr hslash), ?_⟩
    have hpattern := List.dropLast_append_getLast? _ hslash
    rw [← components_concat_slash, ← dots_concat_slash, hpattern]
    exact ⟨rfl, Iff.rfl⟩
  · exact ⟨pattern, if_neg (by simpa using hslash), rfl, Iff.rfl⟩

lemma addPattern_preserves (out : PreserveRules) (lineNumber : ℕ) (negated : Bool) (pattern path : Bytes) :
    (out.addPattern lineNumber negated pattern).preserves path = true ↔
      ((components pattern ≠ [] ∧ ¬ascii ".." <:+: pattern ∧ Hits pattern path) ∧ negated = false) ∨
        (out.preserves path = true ∧
          ¬(components pattern ≠ [] ∧ ¬ascii ".." <:+: pattern ∧ Hits pattern path)) := by
  obtain ⟨body, hbody, hcomponents, hdots⟩ := withoutSlash pattern
  rw [PreserveRules.addPattern, hbody]
  by_cases hempty : components pattern = []
  · have hnone : (normalise body).isEmpty = true := by
      rw [List.isEmpty_iff, normalise_eq_nil_iff, hcomponents, hempty]
    rw [if_pos hnone]
    simp only [hempty, ne_eq, not_true_eq_false, false_and, false_or, not_false_eq_true, and_true]
    rfl
  have hsome : ¬(normalise body).isEmpty = true := by
    rwa [List.isEmpty_iff, normalise_eq_nil_iff, hcomponents]
  have hcontains : contains (normalise body) (ascii "..") = true ↔ ascii ".." <:+: pattern := by
    rw [contains, decide_eq_true_iff, normalise, dots_normaliseFrom, hdots]
  rw [if_neg hsome]
  by_cases hup : ascii ".." <:+: pattern
  · rw [if_pos (hcontains.mpr hup)]
    simp only [hup, not_true_eq_false, false_and, and_false, false_or, not_false_eq_true, and_true]
    rfl
  have hhits : ∀ directory, PreserveRules.hits ⟨normalise body, negated, directory, lineNumber⟩ (normalise path) = true ↔
      Hits pattern path := fun directory =>
    (hits_iff _ _).trans (hits_congr ((components_normalise body).trans hcomponents) (components_normalise path))
  rw [if_neg (fun h => hup (hcontains.mp h)), preserves_concat]
  by_cases hhit : Hits pattern path
  · rw [if_pos ((hhits _).mpr hhit)]
    cases negated <;> simp [hempty, hup, hhit]
  · rw [if_neg (fun h => hhit ((hhits _).mp h))]
    simp [hhit]

lemma isRule_iff {negated : Bool} {pattern : Bytes} : IsRule line negated pattern ↔
    Gives (trim line) negated pattern ∧ components pattern ≠ [] ∧ ¬ascii ".." <:+: pattern := by
  constructor
  · rintro ⟨⟨body, hbody, hgives⟩, hnamed, hinside⟩
    rw [hbody.trim_eq]
    exact ⟨hgives, hnamed, hinside⟩
  · rintro ⟨hgives, hnamed, hinside⟩
    exact ⟨⟨_, trimmed_trim line, hgives⟩, hnamed, hinside⟩

lemma addPattern_of_gives {negated : Bool} {pattern : Bytes} (out : PreserveRules) (lineNumber : ℕ) (path : Bytes)
    (hgives : ∀ negated' pattern', Gives (trim line) negated' pattern' ↔ negated' = negated ∧ pattern' = pattern) :
    (out.addPattern lineNumber negated pattern).preserves path = true ↔
      (∃ pattern, IsRule line false pattern ∧ Hits pattern path) ∨
        (out.preserves path = true ∧ ∀ negated pattern, IsRule line negated pattern → ¬Hits pattern path) := by
  rw [addPattern_preserves]
  simp only [isRule_iff, hgives]
  refine or_congr ⟨?_, ?_⟩ (and_congr_right' ⟨?_, ?_⟩)
  · rintro ⟨⟨hnamed, hinside, hhits⟩, rfl⟩
    exact ⟨pattern, ⟨⟨rfl, rfl⟩, hnamed, hinside⟩, hhits⟩
  · rintro ⟨_, ⟨⟨hnegated, rfl⟩, hnamed, hinside⟩, hhits⟩
    exact ⟨⟨hnamed, hinside, hhits⟩, hnegated.symm⟩
  · rintro hnot _ _ ⟨⟨rfl, rfl⟩, hnamed, hinside⟩ hhits
    exact hnot ⟨hnamed, hinside, hhits⟩
  · rintro hall ⟨hnamed, hinside, hhits⟩
    exact hall negated pattern ⟨⟨rfl, rfl⟩, hnamed, hinside⟩ hhits

lemma preserves_of_not_rule {out out' : PreserveRules} (hrules : out'.rules = out.rules)
    (hnone : ∀ negated pattern, ¬IsRule line negated pattern) :
    out'.preserves path = true ↔
      (∃ pattern, IsRule line false pattern ∧ Hits pattern path) ∨
        (out.preserves path = true ∧ ∀ negated pattern, IsRule line negated pattern → ¬Hits pattern path) := by
  rw [PreserveRules.preserves, hrules]
  simp only [hnone, false_and, exists_false, false_or, false_implies, implies_true, and_true]
  rfl

lemma addLine_preserves (out : PreserveRules) (lineNumber : ℕ) (line path : Bytes) :
    (out.addLine lineNumber line).preserves path = true ↔
      (∃ pattern, IsRule line false pattern ∧ Hits pattern path) ∨
        (out.preserves path = true ∧ ∀ negated pattern, IsRule line negated pattern → ¬Hits pattern path) := by
  rw [PreserveRules.addLine]
  cases htrim : trim line with
  | nil =>
    refine preserves_of_not_rule rfl (fun negated pattern h => ?_)
    rw [isRule_iff, htrim] at h
    cases h.1
  | cons c rest =>
    dsimp only
    by_cases hcomment : c = byte '#'
    · rw [if_pos (beq_iff_eq.mpr hcomment)]
      refine preserves_of_not_rule rfl (fun negated pattern h => ?_)
      rw [isRule_iff, htrim, hcomment] at h
      cases h.1 with
      | plain hne => exact hne rfl
    rw [if_neg (by simpa using hcomment)]
    by_cases hbang : c = byte '!'
    · subst hbang
      have hgives : ∀ negated pattern, Gives (trim line) negated pattern ↔ negated = true ∧ pattern = trim rest := by
        intro negated pattern
        rw [htrim]
        constructor
        · rintro (⟨_, hne⟩ | hpattern)
          · exact absurd rfl hne
          · exact ⟨rfl, hpattern.trim_eq.symm⟩
        · rintro ⟨rfl, rfl⟩
          exact .negated (trimmed_trim rest)
      rw [if_pos (beq_self_eq_true _)]
      split
      · next hempty =>
        refine preserves_of_not_rule rfl (fun negated pattern h => ?_)
        rw [isRule_iff, hgives, List.isEmpty_iff.mp hempty] at h
        obtain ⟨⟨-, rfl⟩, hnamed, -⟩ := h
        exact hnamed rfl
      · exact addPattern_of_gives out lineNumber path hgives
    · rw [if_neg (by simpa using hbang)]
      refine addPattern_of_gives out lineNumber path (fun negated pattern => ?_)
      rw [htrim]
      constructor
      · rintro (_ | _)
        · exact ⟨rfl, rfl⟩
        · exact absurd rfl hbang
      · rintro ⟨rfl, rfl⟩
        exact .plain hcomment hbang

lemma keptBy_concat : KeptBy (lines ++ [line]) path ↔
    (∃ pattern, IsRule line false pattern ∧ Hits pattern path) ∨
      (KeptBy lines path ∧ ∀ negated pattern, IsRule line negated pattern → ¬Hits pattern path) := by
  constructor
  · rintro ⟨before, decisive, after, pattern, hlines, hrule, hhits, hlater⟩
    rcases List.eq_nil_or_concat after with rfl | ⟨init, last, rfl⟩
    · obtain ⟨-, hline⟩ := List.append_inj' hlines rfl
      rw [List.singleton_inj.mp hline]
      exact .inl ⟨pattern, hrule, hhits⟩
    · rw [List.concat_eq_append, ← List.cons_append, ← List.append_assoc] at hlines
      rw [List.concat_eq_append] at hlater
      obtain ⟨rfl, hline⟩ := List.append_inj' hlines rfl
      rw [List.singleton_inj.mp hline]
      refine .inr ⟨⟨before, decisive, init, pattern, rfl, hrule, hhits, fun later hmem => ?_⟩, ?_⟩
      · exact hlater later (List.mem_append_left _ hmem)
      · exact hlater last (List.mem_append_right _ List.mem_cons_self)
  · rintro (⟨pattern, hrule, hhits⟩ | ⟨⟨before, decisive, after, pattern, rfl, hrule, hhits, hlater⟩, hnone⟩)
    · exact ⟨lines, line, [], pattern, rfl, hrule, hhits, nofun⟩
    · refine ⟨before, decisive, after ++ [line], pattern, by simp, hrule, hhits, fun later hmem => ?_⟩
      rcases List.mem_append.mp hmem with hafter | hline
      · exact hlater later hafter
      · rw [List.mem_singleton.mp hline]
        exact hnone

lemma foldl_addLine_preserves (numbered : List (Bytes × ℕ)) (path : Bytes) :
    (numbered.foldl (fun out line => PreserveRules.addLine out (line.2 + 1) line.1) {}).preserves path = true ↔
      KeptBy (numbered.map Prod.fst) path := by
  induction numbered using List.reverseRecOn with
  | nil =>
    refine ⟨nofun, ?_⟩
    rintro ⟨before, line, after, pattern, hlines, -⟩
    cases before <;> cases hlines
  | append_singleton numbered line ih =>
    rw [List.foldl_append, List.map_append, List.map_singleton, keptBy_concat, ← ih]
    exact addLine_preserves _ _ _ _

lemma keptBy_lines (text : Bytes) :
    KeptBy (PreserveRules.lines text) path ↔ KeptBy (List.splitOn (byte '\n') text) path := by
  rw [PreserveRules.lines]
  split
  · next hend =>
    have hsplit : List.splitOn (byte '\n') text = List.splitOn (byte '\n') text.dropLast ++ [[]] := by
      rw [← List.dropLast_append_getLast? _ hend, List.splitOn_append_cons_self, List.dropLast_concat]
      rfl
    have hblank : ∀ negated pattern, ¬IsRule [] negated pattern := by
      intro negated pattern h
      rw [isRule_iff] at h
      cases h.1
    rw [hsplit, List.dropLast_concat, keptBy_concat]
    simp [hblank]
  · rfl

lemma isLines_iff {text : Bytes} : IsLines lines text ↔ lines = List.splitOn (byte '\n') text := by
  constructor
  · rintro ⟨hne, hfree, rfl⟩
    rw [List.splitOn_intercalate _ hfree hne]
  · rintro rfl
    exact ⟨List.splitOn_ne_nil _ _, fun _ hline hc => (mem_of_mem_splitOn hline hc).2 rfl, List.intercalate_splitOn _⟩

lemma preserves_congr {path' : Bytes} (rules : PreserveRules)
    (h : (components path).map (List.map lower) = (components path').map (List.map lower)) :
    rules.preserves path = rules.preserves path' := by
  have hglob : ∀ pattern, globMatch pattern (normalise path) = globMatch pattern (normalise path') := by
    intro pattern
    rw [globMatch, globMatch, components_normalise, components_normalise, ← matchAll_map_lower, h, matchAll_map_lower]
  rw [PreserveRules.preserves, PreserveRules.preserves]
  congr 1
  funext preserved rule
  rw [PreserveRules.hits, PreserveRules.hits, hglob, hglob]

end Rules

theorem preserve_txt_means_what_it_says (text path : Bytes) :
    ((PreserveRules.parse text).preserves path = true ↔ ∃ lines, IsLines lines text ∧ KeptBy lines path) ∧
      (∀ path' : Bytes, path'.map lower = path.map lower →
        (PreserveRules.parse text).preserves path' = (PreserveRules.parse text).preserves path) ∧
      (PreserveRules.parse text).preserves (byte '/' :: path) = (PreserveRules.parse text).preserves path ∧
      (PreserveRules.parse text).preserves (path ++ [byte '/']) = (PreserveRules.parse text).preserves path ∧
      ∀ u v, path = u ++ byte '/' :: v →
        (PreserveRules.parse text).preserves (u ++ byte '/' :: byte '/' :: v) =
          (PreserveRules.parse text).preserves path := by
  refine ⟨?_, fun path' hcase => ?_, ?_, ?_, ?_⟩
  · have hparse := foldl_addLine_preserves (PreserveRules.lines text).zipIdx path
    rw [List.zipIdx_map_fst, keptBy_lines] at hparse
    refine hparse.trans ⟨fun h => ⟨_, isLines_iff.mpr rfl, h⟩, ?_⟩
    rintro ⟨lines, hlines, hkept⟩
    rwa [isLines_iff.mp hlines] at hkept
  · refine preserves_congr _ ?_
    rw [← components_map_lower, hcase, components_map_lower]
  · exact preserves_congr _ (by rw [components_slash_cons])
  · exact preserves_congr _ (by rw [components_concat_slash])
  · rintro u v rfl
    exact preserves_congr _ (by rw [components_separator, components_slash_cons, components_separator])

namespace Sample

def preserveText : Bytes := ascii "# mine\n bootloader/ \r\n!/bootloader/*.ini\n"

end Sample

theorem an_exception_is_read_in_any_case :
    (∃ lines, IsLines lines Sample.preserveText ∧ KeptBy lines (ascii "bootloader/res/a.bmp")) ∧
      (PreserveRules.parse Sample.preserveText).preserves (ascii "Bootloader/X.INI") = false := by
  have hkept := preserve_txt_means_what_it_says Sample.preserveText (ascii "bootloader/res/a.bmp")
  have hexcept := preserve_txt_means_what_it_says Sample.preserveText (ascii "bootloader/x.ini")
  refine ⟨hkept.1.mp (by decide +kernel), ?_⟩
  rw [hexcept.2.1 (ascii "Bootloader/X.INI") (by decide)]
  decide +kernel

end NsxManager.Core
