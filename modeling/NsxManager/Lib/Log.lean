import NsxManager.Lib.Program

/-! What an execution tells about itself: the requests it made, next to how and where it ended. -/

namespace NsxManager.Lib

open Program

namespace World

variable {E : Type} {Reply : E → Type} {F S α β : Type} (W : World E Reply F S)

def traced (A : Event E Reply F → Prop) (p : Program E Reply α)
    (R : Option α → S → List (Event E Reply F) → Prop) (s : S) : Prop :=
  ∀ fs, (∀ ev ∈ (W.exec p fs s).log, A ev) →
    R (W.exec p fs s).outcome (W.exec p fs s).state (W.exec p fs s).log

def returns (p : Program E Reply α) (Q : α → S → List (Event E Reply F) → Prop) (s : S) : Prop :=
  ∀ fs a, (W.exec p fs s).outcome = some a → Q a (W.exec p fs s).state (W.exec p fs s).log

variable {W} {A : Event E Reply F → Prop} {s : S}

section Traced

variable {R R' : Option α → S → List (Event E Reply F) → Prop}

lemma traced_done {a : α} (h : R (some a) s []) : W.traced A (.done a) R s := by
  intro fs _
  simpa using h

lemma traced_call {e : E} {next : Reply e → Program E Reply α} (hcut : R none s [])
    (h : ∀ f, match W.step e f s with
      | (none, s') => R none s' []
      | (some r, s') => A ⟨e, f, r⟩ → W.traced A (next r) (fun o t l => R o t (⟨e, f, r⟩ :: l)) s') :
    W.traced A (.call e next) R s := by
  intro fs hA
  cases fs with
  | nil => exact hcut
  | cons f fs =>
    have hf := h f
    rw [exec_cons] at hA ⊢
    rcases hstep : W.step e f s with ⟨r | r, s'⟩
    · rw [hstep] at hf
      exact hf
    · simp only [hstep, List.mem_cons, forall_eq_or_imp] at hA hf
      exact hf hA.1 fs hA.2

lemma traced_bind {p : Program E Reply α} {k : α → Program E Reply β}
    {R : Option β → S → List (Event E Reply F) → Prop} (hcut : W.traced A p (fun o t l => o = none → R none t l) s)
    (hdone : W.traced A p (fun o t l => ∀ a, o = some a → W.traced A (k a) (fun o' t' l' => R o' t' (l ++ l')) t) s) :
    W.traced A (p >>= k) R s := by
  intro fs hA
  rw [exec_bind] at hA ⊢
  cases ha : (W.exec p fs s).outcome with
  | none =>
    simp only [ha] at hA ⊢
    exact hcut fs hA ha
  | some a =>
    simp only [ha, List.mem_append] at hA ⊢
    exact hdone fs (fun ev hev => hA ev (.inl hev)) a ha _ (fun ev hev => hA ev (.inr hev))

lemma traced_mono {p : Program E Reply α} (h : W.traced A p R s) (hR : ∀ o t l, R o t l → R' o t l) :
    W.traced A p R' s :=
  fun fs hA => hR _ _ _ (h fs hA)

lemma traced_and {p : Program E Reply α} (h : W.traced A p R s) (h' : W.traced A p R' s) :
    W.traced A p (fun o t l => R o t l ∧ R' o t l) s :=
  fun fs hA => ⟨h fs hA, h' fs hA⟩

lemma traced_of_wp {C : S → Prop} {Q : α → S → Prop} {p : Program E Reply α} (h : W.wp A C p Q s) :
    W.traced A p (fun o t _ => (o = none → C t) ∧ ∀ a, o = some a → Q a t) s := by
  intro fs hA
  have hends := exec_ends h hA
  unfold Trace.Ends at hends
  split at hends
  · next a ha => simpa [ha] using hends
  · next ha => simpa [ha] using hends

lemma traced_of_asks {P : E → Prop} {p : Program E Reply α} (hp : p.Asks P) :
    W.traced A p (fun _ _ l => ∀ ev ∈ l, P ev.asked) s :=
  fun _ _ _ hev => asked_of_mem_log W hp hev

end Traced

section Returns

variable {Q Q' : α → S → List (Event E Reply F) → Prop}

lemma returns_done {a : α} (h : Q a s []) : W.returns (.done a) Q s := by
  intro fs b hb
  simp only [exec_done, Option.some.injEq] at hb ⊢
  exact hb ▸ h

lemma returns_call {e : E} {next : Reply e → Program E Reply α}
    (h : ∀ f r s', W.step e f s = (some r, s') → W.returns (next r) (fun a t l => Q a t (⟨e, f, r⟩ :: l)) s') :
    W.returns (.call e next) Q s := by
  intro fs a ha
  cases fs with
  | nil => simp at ha
  | cons f fs =>
    rw [exec_cons] at ha ⊢
    rcases hstep : W.step e f s with ⟨r | r, s'⟩
    · simp [hstep] at ha
    · simp only [hstep] at ha
      exact h f r s' hstep fs a ha

lemma returns_bind {p : Program E Reply α} {k : α → Program E Reply β}
    {Q : β → S → List (Event E Reply F) → Prop}
    (h : W.returns p (fun a t l => W.returns (k a) (fun b t' l' => Q b t' (l ++ l')) t) s) :
    W.returns (p >>= k) Q s := by
  intro fs b hb
  obtain ⟨a, ha, heq⟩ := W.exec_bind_some hb
  rw [heq] at hb ⊢
  exact h fs a ha _ b hb

lemma returns_mono {p : Program E Reply α} (h : W.returns p Q s) (hQ : ∀ a t l, Q a t l → Q' a t l) :
    W.returns p Q' s :=
  fun fs a ha => hQ _ _ _ (h fs a ha)

lemma returns_and {p : Program E Reply α} (h : W.returns p Q s) (h' : W.returns p Q' s) :
    W.returns p (fun a t l => Q a t l ∧ Q' a t l) s :=
  fun fs a ha => ⟨h fs a ha, h' fs a ha⟩

lemma returns_of_asks {P : E → Prop} {p : Program E Reply α} (hp : p.Asks P) :
    W.returns p (fun _ _ l => ∀ ev ∈ l, P ev.asked) s :=
  fun _ _ _ _ hev => asked_of_mem_log W hp hev

lemma returns_of_yields {P : α → Prop} {p : Program E Reply α} (hp : p.Yields P) :
    W.returns p (fun a _ _ => P a) s := by
  induction p generalizing s with
  | done a => exact returns_done hp
  | call e next ih => exact returns_call (fun f r s' _ => ih r (hp r))

lemma returns_of_wp {C : S → Prop} {R : α → S → Prop} {p : Program E Reply α} (h : W.wp (fun _ => True) C p R s) :
    W.returns p (fun a t _ => R a t) s :=
  fun _ _ ha => exec_post ha (wp_mono h (fun _ _ => trivial) (fun _ h => h) (fun _ _ h => h))

end Returns

section MayAsk

variable (W) in
def mayAsk (p : Program E Reply α) (P : E → Prop) (s : S) : Prop := ∃ fs, ∃ ev ∈ (W.exec p fs s).log, P ev.asked

variable {P : E → Prop} {e : E}

lemma mayAsk_call {next : Reply e → Program E Reply α} {f : F} {r : Reply e} {s' : S}
    (h : W.step e f s = (some r, s')) (he : P e) : W.mayAsk (.call e next) P s := by
  refine ⟨[f], ⟨e, f, r⟩, ?_, he⟩
  simp [exec_cons, h]

lemma mayAsk_next {next : Reply e → Program E Reply α} {f : F} {r : Reply e} {s' : S}
    (h : W.step e f s = (some r, s')) (hnext : W.mayAsk (next r) P s') : W.mayAsk (.call e next) P s := by
  obtain ⟨fs, ev, hev, hP⟩ := hnext
  refine ⟨f :: fs, ev, ?_, hP⟩
  rw [exec_cons, h]
  exact List.mem_cons_of_mem _ hev

lemma mayAsk_bind {p : Program E Reply α} {k : α → Program E Reply β} (h : W.mayAsk p P s) :
    W.mayAsk (p >>= k) P s := by
  obtain ⟨fs, ev, hev, hP⟩ := h
  refine ⟨fs, ev, ?_, hP⟩
  rw [exec_bind]
  split
  · exact hev
  · exact List.mem_append_left _ hev

lemma mayAsk_after {p : Program E Reply α} {k : α → Program E Reply β} {f : F} {a : α} {s' : S}
    (hrun : W.run f p s = (some a, s')) (h : W.mayAsk (k a) P s') : W.mayAsk (p >>= k) P s := by
  induction p generalizing s with
  | done b =>
    obtain ⟨rfl, rfl⟩ : b = a ∧ s = s' := by simpa using hrun
    exact h
  | call e next ih =>
    rw [run_call] at hrun
    rcases hstep : W.step e f s with ⟨r | r, t⟩
    · simp [hstep] at hrun
    · rw [hstep] at hrun
      exact mayAsk_next hstep (ih r hrun)

end MayAsk

section MayEnd

variable (W) in
def mayEnd (p : Program E Reply α) (a : α) (s s' : S) (l : List (Event E Reply F)) : Prop :=
  ∃ fs, ∀ more, W.exec p (fs ++ more) s = ⟨some a, s', l, more⟩

variable (W) in
def mayReach (p : Program E Reply α) (s s' : S) (l : List (Event E Reply F)) : Prop :=
  ∃ fs, (W.exec p fs s).state = s' ∧ (W.exec p fs s).log = l

variable {p : Program E Reply α} {a : α} {s' s'' : S} {l l' : List (Event E Reply F)}

lemma mayEnd_done : W.mayEnd (.done a) a s s [] := ⟨[], fun _ => by simp⟩

lemma mayEnd_congr {t : S} (h : s' = t) (hp : W.mayEnd p a s s' l) : W.mayEnd p a s t l := h ▸ hp

lemma mayEnd_call {e : E} {next : Reply e → Program E Reply α} {f : F} {r : Reply e}
    (h : W.step e f s = (some r, s')) (hnext : W.mayEnd (next r) a s' s'' l) :
    W.mayEnd (.call e next) a s s'' (⟨e, f, r⟩ :: l) := by
  obtain ⟨fs, hfs⟩ := hnext
  refine ⟨f :: fs, fun more => ?_⟩
  rw [List.cons_append, exec_cons, h]
  dsimp only
  rw [hfs more]

lemma mayEnd_bind {k : α → Program E Reply β} {b : β} (hp : W.mayEnd p a s s' l)
    (hk : W.mayEnd (k a) b s' s'' l') : W.mayEnd (p >>= k) b s s'' (l ++ l') := by
  obtain ⟨fs, hfs⟩ := hp
  obtain ⟨fs', hfs'⟩ := hk
  refine ⟨fs ++ fs', fun more => ?_⟩
  rw [List.append_assoc, exec_bind, hfs (fs' ++ more)]
  dsimp only
  rw [hfs' more]

/-- A run in a world that meets every request with a fate of `W`, as an execution in `W`. -/
lemma mayEnd_of_steady {F' : Type} {W' : World E Reply F' S} {f : F'} {answer : E → F}
    (hstep : ∀ e s, W'.step e f s = W.step e (answer e) s) (h : W'.run f p s = (some a, s')) :
    ∃ l, W.mayEnd p a s s' l ∧ ∀ ev ∈ l, ev.fate = answer ev.asked := by
  induction p generalizing s with
  | done b =>
    obtain ⟨rfl, rfl⟩ : b = a ∧ s = s' := by simpa using h
    exact ⟨[], mayEnd_done, List.forall_mem_nil _⟩
  | call e next ih =>
    rw [run_call, hstep] at h
    rcases hanswer : W.step e (answer e) s with ⟨r | r, t⟩
    · simp [hanswer] at h
    · rw [hanswer] at h
      obtain ⟨l, hl, hfate⟩ := ih r h
      exact ⟨_, mayEnd_call hanswer hl, List.forall_mem_cons.mpr ⟨rfl, hfate⟩⟩

lemma mayEnd_of_run {f : F} (h : W.run f p s = (some a, s')) : ∃ l, W.mayEnd p a s s' l ∧ ∀ ev ∈ l, ev.fate = f :=
  mayEnd_of_steady (fun _ _ => rfl) h

lemma mayReach_refl (p : Program E Reply α) (s : S) : W.mayReach p s s [] := by
  refine ⟨[], ?_⟩
  cases p <;> simp

lemma mayReach_bind {k : α → Program E Reply β} (hp : W.mayEnd p a s s' l) (hk : W.mayReach (k a) s' s'' l') :
    W.mayReach (p >>= k) s s'' (l ++ l') := by
  obtain ⟨fs, hfs⟩ := hp
  obtain ⟨fs', hstate, hlog⟩ := hk
  refine ⟨fs ++ fs', ?_⟩
  rw [exec_bind, hfs fs']
  dsimp only
  exact ⟨hstate, by rw [hlog]⟩

variable (W) in
def may (A : Event E Reply F → Prop) (p : Program E Reply α) (Q : α → S → Prop) (s : S) : Prop :=
  ∃ a s' l, W.mayEnd p a s s' l ∧ (∀ ev ∈ l, A ev) ∧ Q a s'

lemma may_done {Q : α → S → Prop} (h : Q a s) : W.may A (.done a) Q s :=
  ⟨a, s, [], mayEnd_done, List.forall_mem_nil _, h⟩

lemma may_call {e : E} {next : Reply e → Program E Reply α} {f : F} {r : Reply e} {Q : α → S → Prop}
    (h : W.step e f s = (some r, s')) (hA : A ⟨e, f, r⟩) (hnext : W.may A (next r) Q s') :
    W.may A (.call e next) Q s := by
  obtain ⟨a, s'', l, hl, hadmitted, hQ⟩ := hnext
  exact ⟨a, s'', _, mayEnd_call h hl, List.forall_mem_cons.mpr ⟨hA, hadmitted⟩, hQ⟩

lemma may_bind {k : α → Program E Reply β} {Q : β → S → Prop} (h : W.may A p (fun a => W.may A (k a) Q) s) :
    W.may A (p >>= k) Q s := by
  obtain ⟨a, s', l, hl, hadmitted, b, s'', l', hl', hadmitted', hQ⟩ := h
  exact ⟨b, s'', _, mayEnd_bind hl hl', List.forall_mem_append.mpr ⟨hadmitted, hadmitted'⟩, hQ⟩

lemma may_of_run {f : F} {Q : α → S → Prop} (h : W.run f p s = (some a, s')) (hA : ∀ e r, A ⟨e, f, r⟩) (hQ : Q a s') :
    W.may A p Q s := by
  obtain ⟨l, hl, hfate⟩ := mayEnd_of_run h
  refine ⟨a, s', l, hl, fun ev hev => ?_, hQ⟩
  obtain rfl := hfate ev hev
  exact hA _ _

end MayEnd

section Follows

variable {E' : Type} {Reply' : E' → Type} {F' T : Type} {V : World E' Reply' F' T} {view : S → T}

variable (W) in
/-- Whatever `p` comes to in its world, `q` can come to in its own, which sees a part of the state. -/
def Follows (V : World E' Reply' F' T) (A : Event E Reply F → Prop) (view : S → T)
    (p : Program E Reply α) (q : Program E' Reply' α) : Prop :=
  ∀ s, W.wp A (fun _ => True) p (fun a s' => ∃ l, V.mayEnd q a (view s) (view s') l) s

lemma follows_done (a : α) : W.Follows V A view (.done a) (.done a) := fun _ => ⟨[], mayEnd_done⟩

lemma Follows.bind {p : Program E Reply α} {q : Program E' Reply' α} {k : α → Program E Reply β}
    {k' : α → Program E' Reply' β} (hp : W.Follows V A view p q) (hk : ∀ a, W.Follows V A view (k a) (k' a)) :
    W.Follows V A view (p >>= k) (q >>= k') := by
  intro s
  rw [wp_bind]
  refine wp_post (hp s) (fun a s' ⟨l, hl⟩ => wp_post (hk a s') (fun b s'' ⟨l', hl'⟩ => ?_))
  exact ⟨l ++ l', mayEnd_bind hl hl'⟩

lemma exec_of_follows {p : Program E Reply α} {q : Program E' Reply' α} {fs : List F} {s : S} {a : α}
    (h : W.Follows V A view p q) (hA : ∀ ev ∈ (W.exec p fs s).log, A ev) (hout : (W.exec p fs s).outcome = some a) :
    ∃ gs, (V.exec q gs (view s)).outcome = some a ∧ (V.exec q gs (view s)).state = view (W.exec p fs s).state := by
  obtain ⟨l, gs, hgs⟩ := exec_post hout (wp_mono (h s) hA (fun _ h => h) (fun _ _ h => h))
  exact ⟨gs ++ [], congrArg Trace.outcome (hgs []), congrArg Trace.state (hgs [])⟩

end Follows

lemma exec_congr {W' : World E Reply F S} {P : E → Prop} {p : Program E Reply α} (hp : p.Asks P)
    (h : ∀ e, P e → W'.step e = W.step e) (fs : List F) (s : S) : W'.exec p fs s = W.exec p fs s := by
  induction p generalizing fs s with
  | done a => simp
  | call e next ih =>
    cases fs with
    | nil => rfl
    | cons f fs =>
      rw [exec_cons, exec_cons, h e hp.1]
      rcases W.step e f s with ⟨r | r, s'⟩
      · rfl
      · dsimp only
        rw [ih r (hp.2 r)]

/-- Two worlds that answer alike wherever an execution in one of them asks. -/
lemma exec_agree {W' : World E Reply F S} {p : Program E Reply α} {fs : List F}
    (hcut : ∀ e f s s', W.step e f s = (none, s') → W'.step e f s = (none, s'))
    (h : ∀ ev ∈ (W.exec p fs s).log, ∀ t, W'.step ev.asked ev.fate t = W.step ev.asked ev.fate t) :
    W'.exec p fs s = W.exec p fs s := by
  induction p generalizing fs s with
  | done a => simp
  | call e next ih =>
    cases fs with
    | nil => rfl
    | cons f fs =>
      rw [exec_cons] at h
      rw [exec_cons, exec_cons]
      rcases hstep : W.step e f s with ⟨r | r, s'⟩
      · rw [hcut e f s s' hstep]
      · simp only [hstep, List.mem_cons, forall_eq_or_imp] at h
        rw [h.1 s, hstep]
        dsimp only
        rw [ih r h.2]

lemma exec_same {p : Program E Reply α} {fs : List F}
    (hcut : ∀ e f s s', W.step e f s = (none, s') → s' = s)
    (h : ∀ ev ∈ (W.exec p fs s).log, ∀ t, (W.step ev.asked ev.fate t).2 = t) : (W.exec p fs s).state = s := by
  induction p generalizing fs s with
  | done a => simp
  | call e next ih =>
    cases fs with
    | nil => rfl
    | cons f fs =>
      rw [exec_cons] at h ⊢
      rcases hstep : W.step e f s with ⟨r | r, s'⟩
      · exact hcut e f s s' hstep
      · simp only [hstep, List.mem_cons, forall_eq_or_imp] at h
        have hsame := h.1 s
        rw [hstep] at hsame
        obtain rfl : s' = s := hsame
        exact ih r h.2

section Requests

variable (W) in
def asksIn (A : Event E Reply F → Prop) (P : E → S → Prop) : Program E Reply α → S → Prop
  | .done _, _ => True
  | .call e next, s => P e s ∧ ∀ f,
    match W.step e f s with
    | (none, _) => True
    | (some r, s') => A ⟨e, f, r⟩ → asksIn A P (next r) s'

variable {P : E → S → Prop}

lemma asksIn_call (e : E) (next : Reply e → Program E Reply α) :
    W.asksIn A P (.call e next) s ↔ P e s ∧ ∀ f,
      match W.step e f s with
      | (none, _) => True
      | (some r, s') => A ⟨e, f, r⟩ → W.asksIn A P (next r) s' := by
  rw [asksIn]

lemma asksIn_bind {p : Program E Reply α} {k : α → Program E Reply β} {C : S → Prop} (hp : W.asksIn A P p s)
    (hk : W.wp A C p (fun a => W.asksIn A P (k a)) s) : W.asksIn A P (p >>= k) s := by
  induction p generalizing s with
  | done a => exact hk
  | call e next ih =>
    rw [asksIn_call] at hp
    rw [wp_call] at hk
    rw [call_bind, asksIn_call]
    refine ⟨hp.1, fun f => ?_⟩
    have hpf := hp.2 f
    have hkf := hk.2 f
    revert hpf hkf
    rcases W.step e f s with ⟨r | r, s'⟩
    · exact fun _ _ => trivial
    · exact fun hpf hkf hA => ih r (hpf hA) (hkf hA)

lemma asksIn_of_asks {P' : E → Prop} {p : Program E Reply α} (hp : p.Asks P') (h : ∀ e s, P' e → P e s) :
    W.asksIn A P p s := by
  induction p generalizing s with
  | done a => trivial
  | call e next ih =>
    rw [asksIn_call]
    refine ⟨h e s hp.1, fun f => ?_⟩
    rcases W.step e f s with ⟨r | r, s'⟩
    · trivial
    · exact fun _ => ih r (hp.2 r)

lemma asksIn_of_invariant {P' : E → Prop} {I : S → Prop} {p : Program E Reply α} (hp : p.Asks P') (hs : I s)
    (hstep : ∀ e f s, P' e → I s → I (W.step e f s).2) (h : ∀ e s, I s → P e s) : W.asksIn A P p s := by
  induction p generalizing s with
  | done a => trivial
  | call e next ih =>
    rw [asksIn_call]
    refine ⟨h e s hs, fun f => ?_⟩
    have hkept := hstep e f s hp.1 hs
    revert hkept
    rcases W.step e f s with ⟨r | r, s'⟩
    · exact fun _ => trivial
    · exact fun hkept _ => ih r (hp.2 r) hkept

lemma exec_asksIn {p : Program E Reply α} {fs : List F} (h : W.asksIn A P p s)
    (hA : ∀ ev ∈ (W.exec p fs s).log, A ev) {n : ℕ} {ev : Event E Reply F}
    (hn : (W.exec p fs s).log[n]? = some ev) : P ev.asked (W.exec p (fs.take n) s).state := by
  induction p generalizing fs s n with
  | done a => simp at hn
  | call e next ih =>
    rw [asksIn_call] at h
    cases fs with
    | nil => simp at hn
    | cons f fs =>
      have hf := h.2 f
      rw [exec_cons] at hA hn
      rcases hstep : W.step e f s with ⟨r | r, s'⟩
      · simp [hstep] at hn
      · simp only [hstep, List.mem_cons, forall_eq_or_imp] at hA hf hn
        cases n with
        | zero =>
          obtain rfl : _ = ev := Option.some.inj hn
          exact h.1
        | succ n =>
          have hrest := ih r (hf hA.1) hA.2 hn
          simpa [exec_cons, hstep] using hrest

end Requests

end World

end NsxManager.Lib
