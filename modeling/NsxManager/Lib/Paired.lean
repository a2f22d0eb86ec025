import NsxManager.Lib.Program

/-! Two programs side by side, each in its own world, under the same fates. -/

namespace NsxManager.Lib

variable {E E' : Type} {Reply : E → Type} {Reply' : E' → Type} {F S S' O α α' β β' : Type}

structure Coupling (W : World E Reply F S) (W' : World E' Reply' F S') (O : Type) where
  related : S → S' → Prop
  admits : F → Prop
  observe : Event E Reply F → Option O
  observe' : Event E' Reply' F → Option O

lemma World.rest_suffix (W : World E Reply F S) (p : Program E Reply α) (fs : List F) (s : S) :
    (W.exec p fs s).rest <:+ fs := by
  induction p generalizing fs s with
  | done a => simp
  | call e next ih =>
    cases fs with
    | nil => simp
    | cons f fs =>
      rw [World.exec_cons]
      rcases W.step e f s with ⟨r | r, t⟩
      · exact List.suffix_cons f fs
      · exact (ih r fs t).trans (List.suffix_cons f fs)

namespace Coupling

variable {W : World E Reply F S} {W' : World E' Reply' F S'} (K : Coupling W W' O)

structure Agree (Q : α → α' → S → S' → Prop) (t : Trace E Reply F S α) (t' : Trace E' Reply' F S' α') : Prop where
  ends : match t.outcome, t'.outcome with
    | some a, some a' => Q a a' t.state t'.state
    | none, none => K.related t.state t'.state
    | _, _ => False
  seen : t.log.filterMap K.observe = t'.log.filterMap K.observe'
  rest : t.rest = t'.rest

def paired (p : Program E Reply α) (p' : Program E' Reply' α') (Q : α → α' → S → S' → Prop) (s : S) (s' : S') :
    Prop :=
  ∀ fs, (∀ f ∈ fs, K.admits f) → K.Agree Q (W.exec p fs s) (W'.exec p' fs s')

variable {K} {p : Program E Reply α} {p' : Program E' Reply' α'} {Q R : α → α' → S → S' → Prop} {s : S} {s' : S'}

lemma paired_done {a : α} {a' : α'} (h : Q a a' s s') : K.paired (.done a) (.done a') Q s s' := by
  intro fs _
  simp only [World.exec_done]
  exact ⟨h, rfl, rfl⟩

lemma paired_call {e : E} {e' : E'} {next : Reply e → Program E Reply α} {next' : Reply' e' → Program E' Reply' α'}
    (hs : K.related s s')
    (h : ∀ f, K.admits f →
      match W.step e f s, W'.step e' f s' with
      | (some r, t), (some r', t') => K.observe ⟨e, f, r⟩ = K.observe' ⟨e', f, r'⟩ ∧
        K.paired (next r) (next' r') Q t t'
      | (none, t), (none, t') => K.related t t'
      | _, _ => False) :
    K.paired (.call e next) (.call e' next') Q s s' := by
  intro fs hfs
  cases fs with
  | nil =>
    simp only [World.exec_nil]
    exact ⟨hs, rfl, rfl⟩
  | cons f fs =>
    have hf := h f (hfs f List.mem_cons_self)
    rw [World.exec_cons, World.exec_cons]
    revert hf
    rcases W.step e f s with ⟨r | r, t⟩ <;> rcases W'.step e' f s' with ⟨r' | r', t'⟩
    · exact fun hf => ⟨hf, rfl, rfl⟩
    · exact fun hf => hf.elim
    · exact fun hf => hf.elim
    · rintro ⟨hsame, hnext⟩
      obtain ⟨hends, hseen, hrest⟩ := hnext fs (fun g hg => hfs g (List.mem_cons_of_mem _ hg))
      refine ⟨hends, ?_, hrest⟩
      simp only [List.filterMap_cons, hsame, hseen]

lemma paired_bind {k : α → Program E Reply β} {k' : α' → Program E' Reply' β'} {Q' : β → β' → S → S' → Prop}
    (h : K.paired p p' (fun a a' t t' => K.paired (k a) (k' a') Q' t t') s s') :
    K.paired (p >>= k) (p' >>= k') Q' s s' := by
  intro fs hfs
  obtain ⟨hends, hseen, hrest⟩ := h fs hfs
  rw [World.exec_bind, World.exec_bind]
  rcases ha : (W.exec p fs s).outcome with _ | a <;> rcases ha' : (W'.exec p' fs s').outcome with _ | a'
  · rw [ha, ha'] at hends
    exact ⟨hends, hseen, hrest⟩
  · rw [ha, ha'] at hends
    exact hends.elim
  · rw [ha, ha'] at hends
    exact hends.elim
  · rw [ha, ha'] at hends
    have hadmits : ∀ f ∈ (W.exec p fs s).rest, K.admits f := fun f hf => hfs f ((W.rest_suffix p fs s).subset hf)
    obtain ⟨hends', hseen', hrest'⟩ := hends _ hadmits
    rw [← hrest]
    refine ⟨hends', ?_, hrest'⟩
    simp only [List.filterMap_append, hseen, hseen']

lemma paired_mono (h : K.paired p p' Q s s') (hQ : ∀ a a' t t', Q a a' t t' → R a a' t t') :
    K.paired p p' R s s' := by
  intro fs hfs
  obtain ⟨hends, hseen, hrest⟩ := h fs hfs
  refine ⟨?_, hseen, hrest⟩
  revert hends
  rcases (W.exec p fs s).outcome with _ | a <;> rcases (W'.exec p' fs s').outcome with _ | a'
  · exact id
  · exact id
  · exact id
  · exact hQ _ _ _ _

lemma Agree.outcome {B : α → α' → Prop} {t : Trace E Reply F S α} {t' : Trace E' Reply' F S' α'}
    (h : K.Agree (fun a a' s s' => B a a' ∧ K.related s s') t t') :
    Option.Rel B t.outcome t'.outcome ∧ K.related t.state t'.state := by
  have hends := h.ends
  revert hends
  rcases t.outcome with _ | a <;> rcases t'.outcome with _ | a'
  · exact fun hends => ⟨.none, hends⟩
  · exact fun hends => hends.elim
  · exact fun hends => hends.elim
  · exact fun hends => ⟨.some hends.1, hends.2⟩

lemma eq_of_rel {o o' : Option α} (h : Option.Rel (· = ·) o o') : o = o' := by
  cases h with
  | none => rfl
  | some h => rw [h]

end Coupling

end NsxManager.Lib
