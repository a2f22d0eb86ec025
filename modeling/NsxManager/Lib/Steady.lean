import NsxManager.Lib.Program

/-! Programs under one constant fate, which have one run each. -/

namespace NsxManager.Lib.World

open Program

variable {E : Type} {Reply : E → Type} {F S α β ι : Type} (W : World E Reply F S)

def ends (f : F) (p : Program E Reply α) (Q : α → S → Prop) (s : S) : Prop := ∃ a s', W.run f p s = (some a, s') ∧ Q a s'

variable {W} {f : F} {Q Q' : α → S → Prop} {s : S}

lemma ends_done {a : α} (h : Q a s) : W.ends f (.done a) Q s := ⟨a, s, rfl, h⟩

lemma ends_call {e : E} {next : Reply e → Program E Reply α} {r : Reply e} {s' : S} (hstep : W.step e f s = (some r, s'))
    (h : W.ends f (next r) Q s') : W.ends f (.call e next) Q s := by
  obtain ⟨a, t, hrun, hQ⟩ := h
  exact ⟨a, t, by rw [run_call, hstep]; exact hrun, hQ⟩

lemma ends_bind {p : Program E Reply α} {k : α → Program E Reply β} {R : β → S → Prop}
    (h : W.ends f p (fun a => W.ends f (k a) R) s) : W.ends f (p >>= k) R s := by
  obtain ⟨a, t, hrun, b, t', hrun', hR⟩ := h
  exact ⟨b, t', by rw [run_bind_of_some W hrun]; exact hrun', hR⟩

lemma ends_mono {p : Program E Reply α} (h : W.ends f p Q s) (hQ : ∀ a s', Q a s' → Q' a s') : W.ends f p Q' s := by
  obtain ⟨a, s', hrun, hend⟩ := h
  exact ⟨a, s', hrun, hQ a s' hend⟩

lemma ends_and {p : Program E Reply α} (h : W.ends f p Q s) (h' : W.ends f p Q' s) :
    W.ends f p (fun a s' => Q a s' ∧ Q' a s') s := by
  obtain ⟨a, s', hrun, hend⟩ := h
  obtain ⟨b, t, hrun', hend'⟩ := h'
  rw [hrun] at hrun'
  obtain ⟨rfl, rfl⟩ : a = b ∧ s' = t := by simpa using hrun'
  exact ⟨a, s', hrun, hend, hend'⟩

lemma ends_iff {p : Program E Reply α} {P : Prop} (h : W.ends f p (fun a s' => Q a s' ↔ P) s) :
    W.ends f p Q s ↔ P := by
  obtain ⟨a, s', hrun, hend⟩ := h
  constructor
  · rintro ⟨b, t, hrun', hQ⟩
    rw [hrun] at hrun'
    obtain ⟨rfl, rfl⟩ : a = b ∧ s' = t := by simpa using hrun'
    exact hend.mp hQ
  · exact fun hP => ⟨a, s', hrun, hend.mpr hP⟩

end NsxManager.Lib.World
