import Mathlib.Tactic

/-! Programs that put one request at a time to a world, and what a world that stops part way
leaves of them. -/

namespace NsxManager.Lib

inductive Program (E : Type) (Reply : E → Type) (α : Type) where
  | done (a : α)
  | call (e : E) (next : Reply e → Program E Reply α)

namespace Program

variable {E : Type} {Reply : E → Type} {α β γ ι : Type}

def bind : Program E Reply α → (α → Program E Reply β) → Program E Reply β
  | .done a, k => k a
  | .call e next, k => .call e (fun r => (next r).bind k)

instance : Monad (Program E Reply) where
  pure := .done
  bind := bind

def request (e : E) : Program E Reply (Reply e) := .call e .done

@[simp] lemma pure_eq (a : α) : (pure a : Program E Reply α) = .done a := rfl

@[simp] lemma done_bind (a : α) (k : α → Program E Reply β) : (.done a >>= k) = k a := rfl

@[simp] lemma call_bind (e : E) (next : Reply e → Program E Reply α) (k : α → Program E Reply β) :
    (.call e next >>= k) = .call e (fun r => next r >>= k) := rfl

@[simp] lemma request_bind (e : E) (k : Reply e → Program E Reply β) :
    (request e >>= k) = .call e k := rfl

lemma bind_done (p : Program E Reply α) : (p >>= .done) = p := by
  induction p with
  | done a => rfl
  | call e next ih => exact congrArg (Program.call e) (funext ih)

lemma bind_assoc (p : Program E Reply α) (f : α → Program E Reply β) (g : β → Program E Reply γ) :
    (p >>= f >>= g) = (p >>= fun a => f a >>= g) := by
  induction p with
  | done a => rfl
  | call e next ih => exact congrArg (Program.call e) (funext ih)

def each (f : ι → Program E Reply Unit) : List ι → Program E Reply Unit
  | [] => .done ()
  | i :: is => f i >>= fun _ => each f is

def Asks (P : E → Prop) : Program E Reply α → Prop
  | .done _ => True
  | .call e next => P e ∧ ∀ r, (next r).Asks P

variable {P : E → Prop}

@[simp] lemma asks_done (a : α) : (.done a : Program E Reply α).Asks P := trivial

lemma Asks.bind {p : Program E Reply α} {k : α → Program E Reply β} (hp : p.Asks P)
    (hk : ∀ a, (k a).Asks P) : (p >>= k).Asks P := by
  induction p with
  | done a => exact hk a
  | call e next ih => exact ⟨hp.1, fun r => ih r (hp.2 r)⟩

lemma Asks.mono {Q : E → Prop} {p : Program E Reply α} (hp : p.Asks P) (h : ∀ e, P e → Q e) : p.Asks Q := by
  induction p with
  | done a => trivial
  | call e next ih => exact ⟨h e hp.1, fun r => ih r (hp.2 r)⟩

lemma Asks.and {Q : E → Prop} {p : Program E Reply α} (hp : p.Asks P) (hq : p.Asks Q) :
    p.Asks (fun e => P e ∧ Q e) := by
  induction p with
  | done a => trivial
  | call e next ih => exact ⟨⟨hp.1, hq.1⟩, fun r => ih r (hp.2 r) (hq.2 r)⟩

lemma asks_true (p : Program E Reply α) : p.Asks (fun _ => True) := by
  induction p with
  | done a => trivial
  | call e next ih => exact ⟨trivial, ih⟩

lemma Asks.each {f : ι → Program E Reply Unit} (l : List ι) (h : ∀ i ∈ l, (f i).Asks P) :
    (Program.each f l).Asks P := by
  induction l with
  | nil => trivial
  | cons i is ih =>
    exact (h i List.mem_cons_self).bind (fun _ => ih (fun j hj => h j (List.mem_cons_of_mem _ hj)))

def Yields (P : α → Prop) : Program E Reply α → Prop
  | .done a => P a
  | .call _ next => ∀ r, (next r).Yields P

lemma Yields.bind {Q : β → Prop} {p : Program E Reply α} {k : α → Program E Reply β} (hk : ∀ a, (k a).Yields Q) :
    (p >>= k).Yields Q := by
  induction p with
  | done a => exact hk a
  | call e next ih => exact ih

end Program

open Program

/-- `step` answers a request under a fate the environment chose; no answer means that the program
stops there. -/
structure World (E : Type) (Reply : E → Type) (F S : Type) where
  step : (e : E) → F → S → Option (Reply e) × S

structure Event (E : Type) (Reply : E → Type) (F : Type) where
  asked : E
  fate : F
  reply : Reply asked

structure Trace (E : Type) (Reply : E → Type) (F S α : Type) where
  outcome : Option α
  state : S
  log : List (Event E Reply F)
  rest : List F

namespace World

variable {E : Type} {Reply : E → Type} {F S α β ι : Type} (W : World E Reply F S)

/-- Each request consumes one fate, and the program is cut off where the fates end. -/
def exec : Program E Reply α → List F → S → Trace E Reply F S α
  | .done a, fs, s => ⟨some a, s, [], fs⟩
  | .call _ _, [], s => ⟨none, s, [], []⟩
  | .call e next, f :: fs, s =>
    match W.step e f s with
    | (none, s') => ⟨none, s', [], fs⟩
    | (some r, s') =>
      let t := exec (next r) fs s'
      { t with log := ⟨e, f, r⟩ :: t.log }

def run (f : F) : Program E Reply α → S → Option α × S
  | .done a, s => (some a, s)
  | .call e next, s =>
    match W.step e f s with
    | (none, s') => (none, s')
    | (some r, s') => run f (next r) s'

@[simp] lemma exec_done (a : α) (fs : List F) (s : S) :
    W.exec (.done a) fs s = ⟨some a, s, [], fs⟩ := by
  cases fs <;> rfl

@[simp] lemma exec_nil (e : E) (next : Reply e → Program E Reply α) (s : S) :
    W.exec (.call e next) [] s = ⟨none, s, [], []⟩ := rfl

lemma exec_cons (e : E) (next : Reply e → Program E Reply α) (f : F) (fs : List F) (s : S) :
    W.exec (.call e next) (f :: fs) s =
      match W.step e f s with
      | (none, s') => ⟨none, s', [], fs⟩
      | (some r, s') =>
        { W.exec (next r) fs s' with log := ⟨e, f, r⟩ :: (W.exec (next r) fs s').log } := by
  rw [exec]

lemma exec_bind (p : Program E Reply α) (k : α → Program E Reply β) (fs : List F) (s : S) :
    W.exec (p >>= k) fs s =
      match (W.exec p fs s).outcome with
      | none => ⟨none, (W.exec p fs s).state, (W.exec p fs s).log, (W.exec p fs s).rest⟩
      | some a =>
        let t := W.exec (k a) (W.exec p fs s).rest (W.exec p fs s).state
        { t with log := (W.exec p fs s).log ++ t.log } := by
  induction p generalizing fs s with
  | done a => simp
  | call e next ih =>
    cases fs with
    | nil => rfl
    | cons f fs =>
      simp only [call_bind, exec_cons]
      rcases W.step e f s with ⟨r | r, s'⟩
      · rfl
      · simp only [ih]
        rcases h : (W.exec (next r) fs s').outcome with _ | a <;> simp

lemma exec_bind_some {p : Program E Reply α} {k : α → Program E Reply β} {fs : List F} {s : S} {b : β}
    (h : (W.exec (p >>= k) fs s).outcome = some b) :
    ∃ a, (W.exec p fs s).outcome = some a ∧
      W.exec (p >>= k) fs s =
        { W.exec (k a) (W.exec p fs s).rest (W.exec p fs s).state with
          log := (W.exec p fs s).log ++ (W.exec (k a) (W.exec p fs s).rest (W.exec p fs s).state).log } := by
  rw [exec_bind] at h ⊢
  cases ha : (W.exec p fs s).outcome with
  | none => simp [ha] at h
  | some a => exact ⟨a, rfl, rfl⟩

lemma mem_log {P : E → Prop} {p : Program E Reply α} {fs : List F} {s : S} {ev : Event E Reply F}
    (hp : p.Asks P) (h : ev ∈ (W.exec p fs s).log) : P ev.asked ∧ ev.fate ∈ fs := by
  induction p generalizing fs s with
  | done a => simp at h
  | call e next ih =>
    cases fs with
    | nil => simp at h
    | cons f fs =>
      rw [exec_cons] at h
      rcases hstep : W.step e f s with ⟨r | r, s'⟩
      · simp [hstep] at h
      · simp only [hstep, List.mem_cons] at h
        rcases h with rfl | h
        · exact ⟨hp.1, List.mem_cons_self⟩
        · exact (ih r (hp.2 r) h).imp_right (List.mem_cons_of_mem _)

lemma fate_mem_of_mem_log {p : Program E Reply α} {fs : List F} {s : S} {ev : Event E Reply F}
    (h : ev ∈ (W.exec p fs s).log) : ev.fate ∈ fs :=
  (W.mem_log (asks_true p) h).2

lemma head_of_head_log {p : Program E Reply α} {fs : List F} {s : S} {f : F}
    (h : (W.exec p fs s).log.head?.map Event.fate = some f) : fs.head? = some f := by
  cases p with
  | done a => simp at h
  | call e next =>
    cases fs with
    | nil => simp at h
    | cons f' fs =>
      rw [exec_cons] at h
      rcases hstep : W.step e f' s with ⟨r | r, s'⟩
      · simp [hstep] at h
      · simpa [hstep] using h

lemma asked_of_mem_log {P : E → Prop} {p : Program E Reply α} {fs : List F} {s : S} {ev : Event E Reply F}
    (hp : p.Asks P) (h : ev ∈ (W.exec p fs s).log) : P ev.asked :=
  (W.mem_log hp h).1

@[simp] lemma run_done (f : F) (a : α) (s : S) : W.run f (.done a) s = (some a, s) := rfl

lemma run_call (f : F) (e : E) (next : Reply e → Program E Reply α) (s : S) :
    W.run f (.call e next) s =
      match W.step e f s with
      | (none, s') => (none, s')
      | (some r, s') => W.run f (next r) s' := by
  rw [run]

lemma run_bind (f : F) (p : Program E Reply α) (k : α → Program E Reply β) (s : S) :
    W.run f (p >>= k) s =
      match W.run f p s with
      | (none, s') => (none, s')
      | (some a, s') => W.run f (k a) s' := by
  induction p generalizing s with
  | done a => rfl
  | call e next ih =>
    simp only [call_bind, run_call]
    rcases W.step e f s with ⟨r | r, s'⟩
    · rfl
    · exact ih r s'

lemma run_bind_of_some {f : F} {p : Program E Reply α} {a : α} {s s' : S}
    (h : W.run f p s = (some a, s')) (k : α → Program E Reply β) :
    W.run f (p >>= k) s = W.run f (k a) s' := by
  rw [run_bind, h]

lemma exec_of_run {f : F} {p : Program E Reply α} {a : α} {s s' : S} (h : W.run f p s = (some a, s')) :
    ∃ n, (W.exec p (List.replicate n f) s).outcome = some a ∧ (W.exec p (List.replicate n f) s).state = s' := by
  induction p generalizing s with
  | done b =>
    obtain ⟨rfl, rfl⟩ : b = a ∧ s = s' := by simpa using h
    exact ⟨0, rfl, rfl⟩
  | call e next ih =>
    rw [run_call] at h
    rcases hstep : W.step e f s with ⟨r | r, t⟩
    · rw [hstep] at h
      cases h
    · rw [hstep] at h
      obtain ⟨n, hn⟩ := ih r h
      refine ⟨n + 1, ?_⟩
      rw [List.replicate_succ, exec_cons, hstep]
      exact hn

end World

def Trace.Ends {E : Type} {Reply : E → Type} {F S α : Type} (t : Trace E Reply F S α)
    (Q : α → S → Prop) (C : S → Prop) : Prop :=
  match t.outcome with
  | some a => Q a t.state
  | none => C t.state

namespace World

variable {E : Type} {Reply : E → Type} {F S α β ι : Type} (W : World E Reply F S)

/-- As long as every event is admitted by `A`, the program ends in `Q` or is cut off in `C`. -/
def wp (A : Event E Reply F → Prop) (C : S → Prop) :
    Program E Reply α → (α → S → Prop) → S → Prop
  | .done a, Q, s => Q a s
  | .call e next, Q, s => C s ∧ ∀ f,
    match W.step e f s with
    | (none, s') => C s'
    | (some r, s') => A ⟨e, f, r⟩ → wp A C (next r) Q s'

variable {W} {A A' : Event E Reply F → Prop} {C C' : S → Prop} {Q Q' : α → S → Prop} {s : S}

@[simp] lemma wp_done (a : α) : W.wp A C (.done a) Q s ↔ Q a s := Iff.rfl

lemma wp_call (e : E) (next : Reply e → Program E Reply α) :
    W.wp A C (.call e next) Q s ↔ C s ∧ ∀ f,
      match W.step e f s with
      | (none, s') => C s'
      | (some r, s') => A ⟨e, f, r⟩ → W.wp A C (next r) Q s' := by
  rw [wp]

lemma wp_bind (p : Program E Reply α) (k : α → Program E Reply β) (R : β → S → Prop) :
    W.wp A C (p >>= k) R s ↔ W.wp A C p (fun a => W.wp A C (k a) R) s := by
  induction p generalizing s with
  | done a => rfl
  | call e next ih => simp only [call_bind, wp_call, ih]

lemma wp_mono {p : Program E Reply α} (h : W.wp A C p Q s) (hA : ∀ ev, A' ev → A ev)
    (hC : ∀ s, C s → C' s) (hQ : ∀ a s, Q a s → Q' a s) : W.wp A' C' p Q' s := by
  induction p generalizing s with
  | done a => exact hQ a s h
  | call e next ih =>
    rw [wp_call] at h ⊢
    refine ⟨hC s h.1, fun f => ?_⟩
    have hf := h.2 f
    revert hf
    rcases W.step e f s with ⟨r | r, s'⟩
    · exact hC s'
    · exact fun hf hr => ih r (hf (hA _ hr))

lemma wp_post {p : Program E Reply α} (h : W.wp A C p Q s) (hQ : ∀ a s, Q a s → Q' a s) : W.wp A C p Q' s :=
  wp_mono h (fun _ hev => hev) (fun _ hs => hs) hQ

/-- The loop rule: `I` speaks about the elements still to come. -/
lemma wp_each {f : ι → Program E Reply Unit} {I : List ι → S → Prop} {l : List ι} (hs : I l s)
    (hstep : ∀ i rest s, i :: rest <:+ l → I (i :: rest) s → W.wp A C (f i) (fun _ => I rest) s) :
    W.wp A C (Program.each f l) (fun _ => I []) s := by
  induction l generalizing s with
  | nil => exact hs
  | cons i is ih =>
    rw [Program.each, wp_bind]
    refine wp_post (hstep i is s (List.suffix_refl _) hs) ?_
    intro _ s' hs'
    exact ih hs' (fun j rest t hj => hstep j rest t (hj.trans (List.suffix_cons i is)))

lemma exec_ends {p : Program E Reply α} {fs : List F} (h : W.wp A C p Q s)
    (hA : ∀ ev ∈ (W.exec p fs s).log, A ev) : (W.exec p fs s).Ends Q C := by
  induction p generalizing fs s with
  | done a => simpa [Trace.Ends] using h
  | call e next ih =>
    rw [wp_call] at h
    cases fs with
    | nil => exact h.1
    | cons f fs =>
      have hf := h.2 f
      rw [exec_cons] at hA ⊢
      rcases hstep : W.step e f s with ⟨r | r, s'⟩
      · rw [hstep] at hf
        exact hf
      · simp only [hstep, List.mem_cons, forall_eq_or_imp] at hA hf
        exact ih r (hf hA.1) hA.2

lemma exec_post {p : Program E Reply α} {fs : List F} {a : α} (hout : (W.exec p fs s).outcome = some a)
    (h : W.wp (· ∈ (W.exec p fs s).log) C p Q s) : Q a (W.exec p fs s).state := by
  have hends := exec_ends h (fun _ hev => hev)
  rwa [Trace.Ends, hout] at hends

lemma exec_invariant {I : S → Prop} {p : Program E Reply α} {fs : List F}
    (h : W.wp (· ∈ (W.exec p fs s).log) I p (fun _ => I) s) : I (W.exec p fs s).state := by
  have hends := exec_ends h (fun _ hev => hev)
  unfold Trace.Ends at hends
  split at hends <;> exact hends

lemma run_of_wp {P : E → Prop} {f : F} {p : Program E Reply α} (h : W.wp A C p Q s) (hp : p.Asks P)
    (hanswer : ∀ e s, P e → (W.step e f s).1.isSome) (hA : ∀ e r, A ⟨e, f, r⟩) :
    ∃ a s', W.run f p s = (some a, s') ∧ Q a s' := by
  induction p generalizing s with
  | done a => exact ⟨a, s, rfl, h⟩
  | call e next ih =>
    have hf := ((wp_call _ _).mp h).2 f
    have hsome := hanswer e s hp.1
    rw [run_call]
    rcases hstep : W.step e f s with ⟨r | r, s'⟩
    · simp [hstep] at hsome
    · rw [hstep] at hf
      exact ih r (hf (hA e r)) (hp.2 r)

lemma wp_of_run {f : F} {p : Program E Reply α} (hA : ∀ ev, A ev → ev.fate = f) {a : α} {s' : S}
    (hrun : W.run f p s = (some a, s')) (hQ : Q a s') : W.wp A (fun _ => True) p Q s := by
  induction p generalizing s with
  | done b =>
    obtain ⟨rfl, rfl⟩ : b = a ∧ s = s' := by simpa using hrun
    exact hQ
  | call e next ih =>
    rw [wp_call]
    refine ⟨trivial, fun f' => ?_⟩
    rcases hstep : W.step e f' s with ⟨r | r, t⟩
    · trivial
    · intro hev
      obtain rfl : f' = f := hA _ hev
      rw [run_call, hstep] at hrun
      exact ih r hrun

lemma wp_of_asks {P : E → Prop} {I : S → Prop} {p : Program E Reply α} (hp : p.Asks P) (hs : I s)
    (hstep : ∀ e f s, P e → I s → I (W.step e f s).2) : W.wp A I p (fun _ => I) s := by
  induction p generalizing s with
  | done a => exact hs
  | call e next ih =>
    rw [wp_call]
    refine ⟨hs, fun f => ?_⟩
    have hkept := hstep e f s hp.1 hs
    revert hkept
    rcases W.step e f s with ⟨r | r, s'⟩
    · exact id
    · exact fun hkept _ => ih r (hp.2 r) hkept

lemma wp_next {p : Program E Reply α} {k : α → Program E Reply β} {R : β → S → Prop}
    (hk : ∀ a t, W.wp A (fun _ => True) (k a) R t) : W.wp A (fun _ => True) (p >>= k) R s := by
  rw [wp_bind]
  exact wp_post (wp_of_asks (I := fun _ => True) (asks_true p) trivial (fun _ _ _ _ _ => trivial))
    (fun a t _ => hk a t)

end World

end NsxManager.Lib
