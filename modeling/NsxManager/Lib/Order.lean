import Mathlib.Tactic

/-! Comparison functions, by keys and along lists. -/

namespace NsxManager.Lib.Order

open Std

variable {α β : Type*} {cmp : α → α → Ordering} {cmp' : β → β → Ordering} {key : β → α}

lemma transCmp_of_key [TransCmp cmp] (h : ∀ x y, cmp' x y = cmp (key x) (key y)) : TransCmp cmp' where
  eq_swap {x y} := by
    rw [h, h]
    exact OrientedCmp.eq_swap
  isLE_trans {x y z} hxy hyz := by
    rw [h] at hxy hyz ⊢
    exact TransCmp.isLE_trans hxy hyz

lemma compareLex_eq_lt [LawfulEqCmp cmp] {l r : List α} :
    List.compareLex cmp l r = .lt ↔ List.Lex (fun a b => cmp a b = .lt) l r := by
  induction l generalizing r with
  | nil =>
    cases r with
    | nil => simp [List.compareLex_nil_nil]
    | cons b r => simp [List.compareLex_nil_cons]
  | cons a l ih =>
    cases r with
    | nil => simp [List.compareLex_cons_nil]
    | cons b r =>
      rw [List.compareLex_cons_cons, Ordering.then_eq_lt, ih, List.cons_lex_cons_iff]
      refine or_congr Iff.rfl (and_congr_left (fun _ => ⟨LawfulEqCmp.eq_of_compare, ?_⟩))
      rintro rfl
      exact ReflCmp.compare_self

end NsxManager.Lib.Order
