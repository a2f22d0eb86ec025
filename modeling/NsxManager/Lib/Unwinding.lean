import Mathlib.Logic.Basic

/-! Parties that take turns on one state, and what one of them sees of the others. -/

namespace NsxManager.Lib

section Unwinding

variable {I O S : Type} (step : I → S → O × S) (mine : I → Bool)

def afterTurns : List I → S → S
  | [], s => s
  | i :: turns, s => afterTurns turns (step i s).2

def seen : List I → S → List O
  | [], _ => []
  | i :: turns, s => if mine i then (step i s).1 :: seen turns (step i s).2 else seen turns (step i s).2

variable {step mine} {R : S → S → Prop}

theorem seen_filter (hown : ∀ i s s', mine i = true → R s s' →
      (step i s).1 = (step i s').1 ∧ R (step i s).2 (step i s').2)
    (hother : ∀ i s s', mine i = false → R s s' → R (step i s).2 s') (turns : List I) {s s' : S} (h : R s s') :
    seen step mine turns s = seen step mine (turns.filter mine) s' ∧
      R (afterTurns step turns s) (afterTurns step (turns.filter mine) s') := by
  induction turns generalizing s s' with
  | nil => exact ⟨rfl, h⟩
  | cons i turns ih =>
    cases hi : mine i with
    | true =>
      obtain ⟨hsame, hnext⟩ := hown i s s' hi h
      obtain ⟨hseen, hlast⟩ := ih hnext
      simp only [List.filter_cons, hi, if_true, seen, hsame, hseen, true_and]
      exact hlast
    | false =>
      obtain ⟨hseen, hlast⟩ := ih (hother i s s' hi h)
      simp only [List.filter_cons, hi, Bool.false_eq_true, if_false, seen, hseen, true_and]
      exact hlast

end Unwinding

end NsxManager.Lib
