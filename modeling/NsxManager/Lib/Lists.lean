import Mathlib.Data.List.DropRight

/-! Lists that are cut at a separator, joined again, or shortened at their ends. -/

namespace NsxManager.Lib

variable {α : Type}

section Separators

variable [BEq α] [LawfulBEq α] {sep c : α} {l part : List α}

lemma mem_of_mem_splitOn (hpart : part ∈ l.splitOn sep) (hc : c ∈ part) : c ∈ l ∧ c ≠ sep := by
  induction l generalizing part with
  | nil =>
    obtain rfl : part = [] := by simpa using hpart
    exact absurd hc List.not_mem_nil
  | cons d l ih =>
    rw [List.splitOn_cons_eq_if_modifyHead] at hpart
    split at hpart
    · rcases List.mem_cons.mp hpart with rfl | hpart
      · exact absurd hc List.not_mem_nil
      · exact (ih hpart hc).imp_left (List.mem_cons_of_mem d)
    · next hd =>
      obtain ⟨first, rest, hsplit⟩ := List.exists_cons_of_ne_nil (List.splitOn_ne_nil sep l)
      rw [hsplit, List.modifyHead_cons] at hpart
      rw [hsplit] at ih
      rcases List.mem_cons.mp hpart with rfl | hpart
      · rcases List.mem_cons.mp hc with rfl | hc
        · exact ⟨List.mem_cons_self, fun h => hd (beq_iff_eq.mpr h)⟩
        · exact (ih List.mem_cons_self hc).imp_left (List.mem_cons_of_mem d)
      · exact (ih (List.mem_cons_of_mem _ hpart) hc).imp_left (List.mem_cons_of_mem d)

omit [BEq α] [LawfulBEq α] in
lemma mem_of_mem_intercalate {parts : List (List α)} (h : c ∈ [sep].intercalate parts) :
    c = sep ∨ ∃ part ∈ parts, c ∈ part := by
  induction parts with
  | nil => exact absurd h List.not_mem_nil
  | cons part parts ih =>
    cases parts with
    | nil => exact .inr ⟨part, List.mem_singleton_self part, by simpa [List.intercalate] using h⟩
    | cons part' parts =>
      rw [List.intercalate_cons_cons, List.mem_append, List.mem_append, List.mem_singleton] at h
      rcases h with (h | h) | h
      · exact .inr ⟨part, List.mem_cons_self, h⟩
      · exact .inl h
      · exact (ih h).imp_right (fun ⟨part, hpart, hc⟩ => ⟨part, List.mem_cons_of_mem _ hpart, hc⟩)

end Separators

section Ends

variable {p q : α → Bool}

lemma rdropWhile_append_cons {c : α} (hc : p c = false) (l r : List α) :
    (l ++ c :: r).rdropWhile p = l ++ c :: r.rdropWhile p := by
  induction r using List.reverseRecOn with
  | nil => rw [List.rdropWhile_concat_neg _ _ _ (by simp [hc]), List.rdropWhile_nil]
  | append_singleton r x ih =>
    rw [← List.cons_append, ← List.append_assoc, List.rdropWhile_concat, List.rdropWhile_concat, ih]
    split <;> simp

lemma dropWhile_rdropWhile (l : List α) : (l.rdropWhile q).dropWhile p = (l.dropWhile p).rdropWhile q := by
  induction l using List.reverseRecOn with
  | nil => simp
  | append_singleton l x ih =>
    rw [List.rdropWhile_concat, List.dropWhile_append]
    cases hl : l.dropWhile p with
    | nil =>
      rw [hl] at ih
      cases hq : q x <;> cases hp : p x <;> simp [hq, hp, hl, ih, List.dropWhile_append, List.rdropWhile_singleton]
    | cons y ys =>
      simp only [List.isEmpty_cons, Bool.false_eq_true, if_false]
      rw [List.rdropWhile_concat, ← hl, ← ih]
      split
      · rfl
      · rw [List.dropWhile_append, hl, if_neg (by simp)]

lemma dropWhile_ne_eq_cons [DecidableEq α] {c d : α} {l rest : List α} (h : l.dropWhile (· != c) = d :: rest) :
    l = l.takeWhile (· != c) ++ c :: rest := by
  have hne : l.dropWhile (· != c) ≠ [] := by simp [h]
  have hhead := List.head_dropWhile_not (· != c) hne
  simp only [h, List.head_cons, bne_eq_false_iff_eq] at hhead
  subst hhead
  rw [← h, List.takeWhile_append_dropWhile]

end Ends

end NsxManager.Lib
