import Mathlib.Data.List.Basic

/-! Patterns in which one symbol stands for any number of letters, over two arbitrary alphabets. -/

namespace NsxManager.Lib

variable {σ τ : Type}

/-- The text can be cut up along the pattern: `wild` takes any stretch of it, every other symbol one
letter that fits. -/
inductive Glob (wild : σ) (fits : σ → τ → Prop) : List σ → List τ → Prop
  | nil : Glob wild fits [] []
  | wild (stretch : List τ) {pattern : List σ} {text : List τ} :
    Glob wild fits pattern text → Glob wild fits (wild :: pattern) (stretch ++ text)
  | letter {c : σ} {d : τ} {pattern : List σ} {text : List τ} :
    c ≠ wild → fits c d → Glob wild fits pattern text → Glob wild fits (c :: pattern) (d :: text)

namespace Glob

variable {wild c : σ} {d : τ} {fits : σ → τ → Prop} {pattern front : List σ} {text : List τ}

lemma nil_iff : Glob wild fits [] text ↔ text = [] := by
  constructor
  · rintro ⟨⟩
    rfl
  · rintro rfl
    exact .nil

lemma wild_iff : Glob wild fits (wild :: pattern) text ↔ ∃ k, Glob wild fits pattern (text.drop k) := by
  constructor
  · intro h
    cases h with
    | wild stretch h => exact ⟨stretch.length, by rwa [List.drop_left]⟩
    | letter hc => exact absurd rfl hc
  · rintro ⟨k, h⟩
    rw [← List.take_append_drop k text]
    exact .wild _ h

lemma letter_iff (hc : c ≠ wild) :
    Glob wild fits (c :: pattern) (d :: text) ↔ fits c d ∧ Glob wild fits pattern text := by
  constructor
  · intro h
    generalize hwhole : d :: text = whole at h
    cases h with
    | wild => exact absurd rfl hc
    | letter _ hfits h =>
      obtain ⟨rfl, rfl⟩ := List.cons.inj hwhole
      exact ⟨hfits, h⟩
  · rintro ⟨hfits, h⟩
    exact .letter hc hfits h

lemma not_letter_nil (hc : c ≠ wild) : ¬Glob wild fits (c :: pattern) [] := by
  intro h
  generalize htext : ([] : List τ) = text at h
  cases h with
  | wild => exact hc rfl
  | letter => cases htext

lemma text_nil_iff : Glob wild fits pattern [] ↔ ∀ c ∈ pattern, c = wild := by
  induction pattern with
  | nil => simp [nil_iff]
  | cons c pattern ih =>
    by_cases hc : c = wild
    · subst hc
      simp [wild_iff, ih]
    · simp [not_letter_nil hc, hc]

lemma wild_of_drop (k : ℕ) (h : Glob wild fits (wild :: pattern) (text.drop k)) :
    Glob wild fits (wild :: pattern) text := by
  obtain ⟨n, hn⟩ := wild_iff.mp h
  rw [List.drop_drop] at hn
  exact wild_iff.mpr ⟨_, hn⟩

lemma append {start : List τ} (hfront : Glob wild fits front start) (h : Glob wild fits pattern text) :
    Glob wild fits (front ++ pattern) (start ++ text) := by
  induction hfront with
  | nil => exact h
  | wild stretch _ ih =>
    rw [List.append_assoc, List.cons_append]
    exact .wild stretch ih
  | letter hc hfits _ ih => exact .letter hc hfits ih

lemma append_iff : Glob wild fits (front ++ pattern) text ↔
    ∃ k ≤ text.length, Glob wild fits front (text.take k) ∧ Glob wild fits pattern (text.drop k) := by
  constructor
  · intro h
    induction front generalizing text with
    | nil => exact ⟨0, Nat.zero_le _, .nil, h⟩
    | cons c front ih =>
      rw [List.cons_append] at h
      cases h with
      | wild stretch h =>
        obtain ⟨k, hk, hfront, hpattern⟩ := ih h
        refine ⟨stretch.length + k, by simpa using hk, ?_, ?_⟩
        · rw [List.take_length_add_append]
          exact .wild stretch hfront
        · rwa [List.drop_length_add_append]
      | letter hc hfits h =>
        obtain ⟨k, hk, hfront, hpattern⟩ := ih h
        exact ⟨k + 1, Nat.succ_le_succ hk, .letter hc hfits hfront, hpattern⟩
  · rintro ⟨k, -, hfront, hpattern⟩
    rw [← List.take_append_drop k text]
    exact hfront.append hpattern

lemma length_eq (hfront : wild ∉ front) (h : Glob wild fits front text) : text.length = front.length := by
  induction h with
  | nil => rfl
  | wild => exact absurd List.mem_cons_self hfront
  | letter _ _ _ ih => rw [List.length_cons, List.length_cons, ih (fun hmem => hfront (List.mem_cons_of_mem _ hmem))]

lemma drop_of_front (hfront : wild ∉ front) (h : Glob wild fits (front ++ pattern) text) :
    front.length ≤ text.length ∧ Glob wild fits pattern (text.drop front.length) := by
  obtain ⟨k, hk, hstart, hrest⟩ := append_iff.mp h
  have hlength := hstart.length_eq hfront
  rw [List.length_take, Nat.min_eq_left hk] at hlength
  subst hlength
  exact ⟨hk, hrest⟩

lemma append_wild_iff : Glob wild fits (pattern ++ [wild]) text ↔
    ∃ k ≤ text.length, Glob wild fits pattern (text.take k) := by
  rw [append_iff]
  refine exists_congr (fun k => and_congr_right (fun _ => and_iff_left ?_))
  exact wild_iff.mpr ⟨(text.drop k).length, by rw [List.drop_length]; exact .nil⟩

lemma append_letter_iff (hc : c ≠ wild) : Glob wild fits (pattern ++ [c]) (text ++ [d]) ↔
    Glob wild fits pattern text ∧ fits c d := by
  constructor
  · intro h
    obtain ⟨k, hk, hfront, hlast⟩ := append_iff.mp h
    have hone := hlast.length_eq (by simpa using hc.symm)
    obtain rfl : k = text.length := by
      simp only [List.length_drop, List.length_append, List.length_singleton] at hone hk
      omega
    rw [List.take_left] at hfront
    rw [List.drop_left, letter_iff hc] at hlast
    exact ⟨hfront, hlast.1⟩
  · rintro ⟨hfront, hfits⟩
    exact hfront.append (.letter hc hfits .nil)

end Glob

end NsxManager.Lib
