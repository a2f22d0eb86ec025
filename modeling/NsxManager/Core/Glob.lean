import NsxManager.Core.PreserveRules
import NsxManager.Lib.Glob

/-! `matchComponent`, a greedy loop with one backtrack point, against what a glob means. -/

namespace NsxManager.Core

open Lib

def Fits (c d : UInt8) : Prop := c = byte '?' ∨ lower c = lower d

/-- `*` stands for any string, `?` for any byte, every other byte for itself up to case. -/
abbrev IsGlob (pattern text : Bytes) : Prop := Glob (byte '*') Fits pattern text

def accepts (pattern : Bytes) : Option ℕ → Bool
  | some p => (pattern.drop p).all (fun c => c == byte '*')
  | none => false

lemma matchComponent_eq (pattern text : Bytes) : matchComponent pattern text = accepts pattern
    (globLoop pattern text ((text.length + 1) * (pattern.length + 2) + 1) ⟨0, 0, none, 0⟩) := by
  rw [matchComponent]
  cases globLoop pattern text ((text.length + 1) * (pattern.length + 2) + 1) ⟨0, 0, none, 0⟩ <;> rfl

lemma lower_cases (c : UInt8) : lower c = c ∨ (65 ≤ c.toNat ∧ c.toNat ≤ 90 ∧ (lower c).toNat = c.toNat + 32) := by
  unfold lower
  split
  · next hupper =>
    rw [Bool.and_eq_true, decide_eq_true_iff, decide_eq_true_iff, UInt8.le_iff_toNat_le,
      UInt8.le_iff_toNat_le] at hupper
    have hbounds : 65 ≤ c.toNat ∧ c.toNat ≤ 90 := hupper
    have hsum : (c + 32).toNat = (c.toNat + 32) % 256 := rfl
    exact .inr ⟨hbounds.1, hbounds.2, by omega⟩
  · exact .inl rfl

lemma eq_of_lower_eq {c d : UInt8} (hd : d.toNat < 97) (h : lower c = d) : c = d := by
  rcases lower_cases c with hsame | ⟨hlow, -, hsum⟩
  · rwa [hsame] at h
  · rw [h] at hsum
    omega

lemma lower_lower (c : UInt8) : lower (lower c) = lower c := by
  rcases lower_cases c with hsame | ⟨hlow, -, hsum⟩
  · rw [hsame, hsame]
  · rcases lower_cases (lower c) with hsame | ⟨-, hhigh, -⟩
    · exact hsame
    · omega

lemma fits_iff {c d : UInt8} : (c == byte '?' || lower c == lower d) = true ↔ Fits c d := by
  simp [Fits]

lemma drop_eq_getD_cons {l : Bytes} {i : ℕ} (h : i < l.length) : l.drop i = l.getD i 0 :: l.drop (i + 1) := by
  rw [List.drop_eq_getElem_cons h, List.getD_eq_getElem?_getD, List.getElem?_eq_getElem h, Option.getD_some]

/-- Some round takes a `*` of the pattern for a letter, as the text has one there too. -/
def misreads (pattern text : Bytes) : ℕ → GlobState → Bool
  | 0, _ => false
  | rounds + 1, g =>
    if text.length ≤ g.s then false
    else if g.p < pattern.length &&
        (pattern.getD g.p 0 == byte '?' || lower (pattern.getD g.p 0) == lower (text.getD g.s 0)) then
      pattern.getD g.p 0 == byte '*' || misreads pattern text rounds { g with p := g.p + 1, s := g.s + 1 }
    else if g.p < pattern.length && pattern.getD g.p 0 == byte '*' then
      misreads pattern text rounds { g with star := some g.p, p := g.p + 1, starText := g.s }
    else
      match g.star with
      | some star =>
        misreads pattern text rounds { g with p := star + 1, starText := g.starText + 1, s := g.starText + 1 }
      | none => false

def misread (pattern text : Bytes) : Bool :=
  misreads pattern text ((text.length + 1) * (pattern.length + 2) + 1) ⟨0, 0, none, 0⟩

section Loop

variable {pattern text : Bytes} {g : GlobState}

/-- What the cursors and the backtrack point still stand for. Behind the star, the current attempt has
gone through `front` without meeting another one. -/
def Tracks (pattern text : Bytes) (g : GlobState) : Prop :=
  match g.star with
  | none => IsGlob pattern text ↔ IsGlob (pattern.drop g.p) (text.drop g.s)
  | some star =>
    (IsGlob pattern text ↔ ∃ n, IsGlob (pattern.drop (star + 1)) (text.drop (g.starText + n))) ∧
      (IsGlob (pattern.drop (star + 1)) (text.drop g.starText) ↔ IsGlob (pattern.drop g.p) (text.drop g.s)) ∧
      ∃ front, byte '*' ∉ front ∧ pattern.drop (star + 1) = front ++ pattern.drop g.p ∧
        g.s = g.starText + front.length

/-- The text is used up: a longer stretch for the star would leave too little for what follows it. -/
lemma Tracks.at_end (h : Tracks pattern text g) (hs : text.length ≤ g.s) :
    IsGlob pattern text ↔ IsGlob (pattern.drop g.p) [] := by
  have hnil : text.drop g.s = [] := List.drop_eq_nil_of_le hs
  rw [Tracks] at h
  split at h
  · rw [h, hnil]
  · next star hstar =>
    obtain ⟨hwhole, hattempt, front, hfront, hdrop, hlength⟩ := h
    rw [hwhole, ← hnil, ← hattempt]
    constructor
    · rintro ⟨n, hn⟩
      have hlong := (Glob.drop_of_front hfront (hdrop ▸ hn)).1
      rw [List.length_drop] at hlong
      rcases Nat.eq_zero_or_pos n with rfl | hpos
      · exact hn
      · -- only an empty front leaves room for a longer stretch, and then nothing is left of the text
        have hlater : text.drop (g.starText + n) = [] := List.drop_eq_nil_of_le (by omega)
        have hnow : text.drop g.starText = [] := List.drop_eq_nil_of_le (by omega)
        rwa [hlater, ← hnow] at hn
    · exact fun hzero => ⟨0, hzero⟩

lemma Tracks.advance (h : Tracks pattern text g) (hp : g.p < pattern.length) (hs : g.s < text.length)
    (hstar : pattern.getD g.p 0 ≠ byte '*') (hfits : Fits (pattern.getD g.p 0) (text.getD g.s 0)) :
    Tracks pattern text { g with p := g.p + 1, s := g.s + 1 } := by
  have hstep : IsGlob (pattern.drop g.p) (text.drop g.s) ↔ IsGlob (pattern.drop (g.p + 1)) (text.drop (g.s + 1)) := by
    rw [drop_eq_getD_cons hp, drop_eq_getD_cons hs, IsGlob, Glob.letter_iff hstar, and_iff_right hfits]
  rw [Tracks] at h ⊢
  split at h
  · next hnone => simpa only [hnone] using h.trans hstep
  · next star hsome =>
    obtain ⟨hwhole, hattempt, front, hfront, hdrop, hlength⟩ := h
    simp only [hsome]
    refine ⟨hwhole, hattempt.trans hstep, front ++ [pattern.getD g.p 0], ?_, ?_, ?_⟩
    · simpa [hfront] using hstar.symm
    · rw [hdrop, drop_eq_getD_cons hp, List.append_assoc, List.singleton_append]
    · rw [hlength, List.length_append, List.length_singleton, Nat.add_assoc]

/-- A new star replaces the old one: whatever the old one could still take, the new one can. -/
lemma Tracks.begin (h : Tracks pattern text g) (hp : g.p < pattern.length)
    (hstar : pattern.getD g.p 0 = byte '*') :
    Tracks pattern text { g with star := some g.p, p := g.p + 1, starText := g.s } := by
  have hcons : pattern.drop g.p = byte '*' :: pattern.drop (g.p + 1) := by rw [drop_eq_getD_cons hp, hstar]
  have hwhole : IsGlob pattern text ↔ IsGlob (pattern.drop g.p) (text.drop g.s) := by
    rw [Tracks] at h
    split at h
    · exact h
    · next star hsome =>
      obtain ⟨hwhole, hattempt, front, hfront, hdrop, hlength⟩ := h
      rw [hwhole]
      constructor
      · rintro ⟨n, hn⟩
        have hlater := (Glob.drop_of_front hfront (hdrop ▸ hn)).2
        rw [hcons] at hlater ⊢
        refine Glob.wild_of_drop n ?_
        rw [List.drop_drop] at hlater ⊢
        rwa [hlength, Nat.add_assoc, Nat.add_comm front.length, ← Nat.add_assoc]
      · exact fun hnow => ⟨0, hattempt.mpr hnow⟩
  refine ⟨?_, Iff.rfl, [], List.not_mem_nil, rfl, rfl⟩
  rw [hwhole, hcons, IsGlob, Glob.wild_iff]
  simp only [List.drop_drop]

lemma Tracks.backtrack {star : ℕ} (h : Tracks pattern text g) (hstar : g.star = some star)
    (hfailed : ¬IsGlob (pattern.drop g.p) (text.drop g.s)) :
    Tracks pattern text ⟨star + 1, g.starText + 1, some star, g.starText + 1⟩ := by
  obtain ⟨p, s, _, starText⟩ := g
  obtain rfl := hstar
  obtain ⟨hwhole, hattempt, -⟩ := h
  refine ⟨hwhole.trans ?_, Iff.rfl, [], List.not_mem_nil, rfl, rfl⟩
  constructor
  · rintro ⟨n, hn⟩
    cases n with
    | zero => exact absurd (hattempt.mp hn) hfailed
    | succ n => exact ⟨n, by rwa [Nat.add_assoc, Nat.add_comm 1]⟩
  · rintro ⟨n, hn⟩
    exact ⟨n + 1, by rwa [Nat.add_assoc, Nat.add_comm 1] at hn⟩

lemma not_glob_of_mismatch (hs : g.s < text.length)
    (hletter : ¬(g.p < pattern.length ∧ Fits (pattern.getD g.p 0) (text.getD g.s 0)))
    (hstar : ¬(g.p < pattern.length ∧ pattern.getD g.p 0 = byte '*')) :
    ¬IsGlob (pattern.drop g.p) (text.drop g.s) := by
  by_cases hp : g.p < pattern.length
  · rw [drop_eq_getD_cons hp, drop_eq_getD_cons hs, IsGlob, Glob.letter_iff (fun h => hstar ⟨hp, h⟩)]
    exact fun h => hletter ⟨hp, h.1⟩
  · rw [List.drop_eq_nil_of_le (Nat.not_lt.mp hp), IsGlob, Glob.nil_iff, List.drop_eq_nil_iff]
    exact Nat.not_le.mpr hs

lemma accepts_globLoop (rounds : ℕ) (hclear : misreads pattern text rounds g = false) (hs : g.starText ≤ g.s)
    (htracks : Tracks pattern text g)
    (hrounds : (text.length - g.starText) * (pattern.length + 2) + (pattern.length - g.p) < rounds) :
    accepts pattern (globLoop pattern text rounds g) = true ↔ IsGlob pattern text := by
  induction rounds generalizing g with
  | zero => exact absurd hrounds (Nat.not_lt_zero _)
  | succ rounds ih =>
    rw [globLoop]
    rw [misreads] at hclear
    by_cases hend : text.length ≤ g.s
    · rw [if_pos hend, htracks.at_end hend, IsGlob, Glob.text_nil_iff]
      simp [accepts]
    rw [if_neg hend] at hclear ⊢
    rw [Nat.not_le] at hend
    by_cases hletter : g.p < pattern.length ∧ Fits (pattern.getD g.p 0) (text.getD g.s 0)
    · rw [if_pos (by rwa [Bool.and_eq_true, decide_eq_true_iff, fits_iff])] at hclear ⊢
      rw [Bool.or_eq_false_iff, beq_eq_false_iff_ne] at hclear
      exact ih hclear.2 (Nat.le_succ_of_le hs) (htracks.advance hletter.1 hend hclear.1 hletter.2)
        (by dsimp only; omega)
    rw [if_neg (by rwa [Bool.and_eq_true, decide_eq_true_iff, fits_iff])] at hclear ⊢
    by_cases hstar : g.p < pattern.length ∧ pattern.getD g.p 0 = byte '*'
    · rw [if_pos (by simpa using hstar)] at hclear ⊢
      have hmono : (text.length - g.s) * (pattern.length + 2) ≤ (text.length - g.starText) * (pattern.length + 2) :=
        Nat.mul_le_mul_right _ (by omega)
      exact ih hclear (Nat.le_refl _) (htracks.begin hstar.1 hstar.2) (by dsimp only; omega)
    rw [if_neg (by simpa using hstar)] at hclear ⊢
    have hfailed := not_glob_of_mismatch hend hletter hstar
    cases hback : g.star with
    | none =>
      rw [Tracks, hback] at htracks
      simpa [accepts, htracks] using hfailed
    | some star =>
      rw [hback] at hclear
      refine ih hclear (Nat.le_refl _) (htracks.backtrack hback hfailed) ?_
      obtain ⟨left, hleft⟩ : ∃ left, text.length - g.starText = left + 1 :=
        ⟨text.length - g.starText - 1, by omega⟩
      have hless : text.length - (g.starText + 1) = left := by omega
      rw [hleft, Nat.succ_mul] at hrounds
      dsimp only
      rw [hless]
      omega

/-- Whatever way the cursors have come, a split of what is ahead of them is one of the whole. -/
structure Leads (pattern text : Bytes) (g : GlobState) : Prop where
  ahead : IsGlob (pattern.drop g.p) (text.drop g.s) → IsGlob pattern text
  again : ∀ star, g.star = some star → ∀ n, IsGlob (pattern.drop (star + 1)) (text.drop (g.starText + n)) →
    IsGlob pattern text

lemma Leads.advance (h : Leads pattern text g) (hp : g.p < pattern.length) (hs : g.s < text.length)
    (hfits : Fits (pattern.getD g.p 0) (text.getD g.s 0)) :
    Leads pattern text { g with p := g.p + 1, s := g.s + 1 } := by
  refine ⟨fun hrest => h.ahead ?_, h.again⟩
  rw [drop_eq_getD_cons hp, drop_eq_getD_cons hs]
  by_cases hstar : pattern.getD g.p 0 = byte '*'
  · rw [hstar]
    exact .wild [text.getD g.s 0] hrest
  · exact .letter hstar hfits hrest

lemma Leads.begin (h : Leads pattern text g) (hp : g.p < pattern.length) (hstar : pattern.getD g.p 0 = byte '*') :
    Leads pattern text { g with star := some g.p, p := g.p + 1, starText := g.s } := by
  have hwild : ∀ n, IsGlob (pattern.drop (g.p + 1)) (text.drop (g.s + n)) → IsGlob pattern text := by
    intro n hrest
    refine h.ahead ?_
    rw [drop_eq_getD_cons hp, hstar, IsGlob, Glob.wild_iff]
    exact ⟨n, by rwa [List.drop_drop]⟩
  refine ⟨hwild 0, fun star hsome => ?_⟩
  obtain rfl := Option.some.inj hsome
  exact hwild

lemma Leads.backtrack {star : ℕ} (h : Leads pattern text g) (hstar : g.star = some star) :
    Leads pattern text { g with p := star + 1, starText := g.starText + 1, s := g.starText + 1 } := by
  refine ⟨h.again star hstar 1, fun star' hstar' n hrest => h.again star' hstar' (1 + n) ?_⟩
  rwa [← Nat.add_assoc]

lemma isGlob_of_accepts (rounds : ℕ) (h : Leads pattern text g)
    (haccepts : accepts pattern (globLoop pattern text rounds g) = true) : IsGlob pattern text := by
  induction rounds generalizing g with
  | zero => cases haccepts
  | succ rounds ih =>
    rw [globLoop] at haccepts
    split at haccepts
    · next hend =>
      refine h.ahead ?_
      rw [List.drop_eq_nil_of_le hend, IsGlob, Glob.text_nil_iff]
      simpa [accepts] using haccepts
    · next hend =>
      split at haccepts
      · next hletter =>
        rw [Bool.and_eq_true, decide_eq_true_iff, fits_iff] at hletter
        exact ih (h.advance hletter.1 (Nat.not_le.mp hend) hletter.2) haccepts
      · split at haccepts
        · next hstar =>
          rw [Bool.and_eq_true, decide_eq_true_iff, beq_iff_eq] at hstar
          exact ih (h.begin hstar.1 hstar.2) haccepts
        · split at haccepts
          · next star hstar => exact ih (h.backtrack hstar) haccepts
          · cases haccepts

end Loop

theorem matchComponent_is_glob_unless_misread (pattern text : Bytes) :
    (misread pattern text = false → (matchComponent pattern text = true ↔ IsGlob pattern text)) ∧
      (matchComponent pattern text = true → IsGlob pattern text) := by
  rw [matchComponent_eq]
  constructor
  · intro hclear
    refine accepts_globLoop _ hclear (Nat.le_refl _) Iff.rfl ?_
    dsimp only
    rw [Nat.sub_zero, Nat.succ_mul]
    omega
  · exact isGlob_of_accepts _ ⟨id, nofun⟩

theorem stars_that_do_not_meet_are_read : ¬IsGlob (ascii "a*") (ascii "b*") ∧ IsGlob (ascii "?*c") (ascii "ba*bc") := by
  have hfirst := (matchComponent_is_glob_unless_misread (ascii "a*") (ascii "b*")).1 (by decide)
  have hsecond := (matchComponent_is_glob_unless_misread (ascii "?*c") (ascii "ba*bc")).1 (by decide)
  exact ⟨fun h => absurd (hfirst.mpr h) (by decide), hsecond.mp (by decide)⟩

theorem a_starred_name_is_missed :
    matchComponent (ascii "*") (ascii "*a") = false ∧ IsGlob (ascii "*") (ascii "*a") :=
  ⟨by decide, .wild (ascii "*a") .nil⟩

end NsxManager.Core
