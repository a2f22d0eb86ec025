import NsxManager.Lib.Log

/-! Where what is there came from: executions by several parties over one state, where each thing is
stamped with the party that last put it there. -/

namespace NsxManager.Lib

namespace World

variable {E : Type} {Reply : E → Type} {F S K ι α : Type}

/-- Which things there are in a state, and which an event puts there. Nothing comes to be there in any
other way. -/
structure Ledger (W : World E Reply F S) (K : Type) where
  present : S → K → Bool
  puts : Event E Reply F → K → Bool
  sound : ∀ {e f s r s' k}, W.step e f s = (some r, s') → present s' k = true → puts ⟨e, f, r⟩ k = false →
    present s k = true
  cut : ∀ {e f s s' k}, W.step e f s = (none, s') → present s' k = true → present s k = true

namespace Ledger

variable {W : World E Reply F S} (G : Ledger W K) {p : Program E Reply α} {fs : List F} {s : S} {n : ι}
  {o : K → ι} {P : K → Prop}

def stamp (n : ι) (log : List (Event E Reply F)) (o : K → ι) : K → ι :=
  log.foldl (fun o ev k => if G.puts ev k then n else o k) o

@[simp] lemma stamp_nil : G.stamp n [] o = o := rfl

@[simp] lemma stamp_cons (ev : Event E Reply F) (log : List (Event E Reply F)) :
    G.stamp n (ev :: log) o = G.stamp n log (fun k => if G.puts ev k then n else o k) := rfl

lemma stamp_append (log log' : List (Event E Reply F)) :
    G.stamp n (log ++ log') o = G.stamp n log' (G.stamp n log o) := List.foldl_append

lemma own (h : ∀ k, P k → G.present s k = true → o k = n) (k : K) (hk : P k)
    (hthere : G.present (W.exec p fs s).state k = true) : G.stamp n (W.exec p fs s).log o k = n := by
  induction p generalizing fs s o with
  | done a => simpa using h k hk (by simpa using hthere)
  | call e next ih =>
    cases fs with
    | nil => simpa using h k hk (by simpa using hthere)
    | cons f fs =>
      rw [exec_cons] at hthere ⊢
      rcases hstep : W.step e f s with ⟨r | r, s'⟩
      · rw [hstep] at hthere
        simpa using h k hk (G.cut hstep hthere)
      · rw [hstep] at hthere
        refine ih r (fun k hk hthere => ?_) hthere
        cases hputs : G.puts ⟨e, f, r⟩ k with
        | true => simp [hputs]
        | false => simpa [hputs] using h k hk (G.sound hstep hthere hputs)

lemma foreign (hp : p.Asks (fun e => ∀ f r k, P k → G.puts ⟨e, f, r⟩ k = false)) (k : K) (hk : P k) :
    (G.present (W.exec p fs s).state k = true → G.present s k = true) ∧
      G.stamp n (W.exec p fs s).log o k = o k := by
  induction p generalizing fs s o with
  | done a => simp
  | call e next ih =>
    cases fs with
    | nil => simp
    | cons f fs =>
      rw [exec_cons]
      rcases hstep : W.step e f s with ⟨r | r, s'⟩
      · exact ⟨G.cut hstep, rfl⟩
      · obtain ⟨hthere, hstamp⟩ := @ih r fs s' (fun k => if G.puts ⟨e, f, r⟩ k then n else o k) (hp.2 r)
        have hputs := hp.1 f r k hk
        refine ⟨fun h => G.sound hstep (hthere h) hputs, hstamp.trans ?_⟩
        simp [hputs]

section Uniform

def Uniform (P : K → Prop) (s : S) (o : K → ι) : Prop := ∃ m, ∀ k, P k → G.present s k = true → o k = m

def unmixed (P : K → Prop) (n : ι) (p : Program E Reply α) (s : S) : Prop :=
  ∀ fs o, G.Uniform P s o → G.Uniform P (W.exec p fs s).state (G.stamp n (W.exec p fs s).log o)

variable {G}

lemma unmixed_bind {β : Type} {k : α → Program E Reply β} (hp : G.unmixed P n p s)
    (hk : W.returns p (fun a t _ => G.unmixed P n (k a) t) s) : G.unmixed P n (p >>= k) s := by
  intro fs o ho
  have hfirst := hp fs o ho
  rw [exec_bind]
  cases ha : (W.exec p fs s).outcome with
  | none => exact hfirst
  | some a =>
    have hsecond := hk fs a ha (W.exec p fs s).rest _ hfirst
    rwa [← stamp_append] at hsecond

lemma unmixed_of_asks (hp : p.Asks (fun e => ∀ f r k, P k → G.puts ⟨e, f, r⟩ k = false)) :
    G.unmixed P n p s := by
  rintro fs o ⟨m, hm⟩
  refine ⟨m, fun k hk hthere => ?_⟩
  have hforeign : (G.present (W.exec p fs s).state k = true → G.present s k = true) ∧
      G.stamp n (W.exec p fs s).log o k = o k := G.foreign hp k hk
  rw [hforeign.2]
  exact hm k hk (hforeign.1 hthere)

lemma unmixed_of_vacant (h : ∀ k, P k → G.present s k = false) : G.unmixed P n p s :=
  fun _ o _ => ⟨n, G.own (o := o) (fun k hk hthere => absurd hthere (by simp [h k hk]))⟩

end Uniform

end Ledger

end World

end NsxManager.Lib
