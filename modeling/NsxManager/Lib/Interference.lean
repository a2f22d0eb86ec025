import NsxManager.Lib.Program

/-! A program whose memory others change between any two of its requests. -/

namespace NsxManager.Lib

open Relation Program

/-- A request that has to wait has no answer yet, and neither has a label nobody can act on. -/
structure Shared (E : Type) (Reply : E → Type) (L S : Type) where
  own : (e : E) → S → Option (Reply e × S)
  other : L → S → Option S

inductive Choice (L H : Type) where
  | own
  | other (label : L)
  | handle (event : H)

namespace Shared

variable {E : Type} {Reply : E → Type} {L H S α β : Type} (M : Shared E Reply L S)

def turn (handler : H → Program E Reply Unit) :
    Choice L H → Program E Reply Unit × S → Option (Program E Reply Unit × S)
  | .own, (.call e next, s) => (M.own e s).map (fun (r, s') => (next r, s'))
  | .own, (.done _, _) => none
  | .other label, (p, s) => (M.other label s).map (fun s' => (p, s'))
  | .handle event, (.done _, s) => some (handler event, s)
  | .handle _, (.call _ _, _) => none

def loop (handler : H → Program E Reply Unit) :
    List (Choice L H) → Program E Reply Unit × S → Option (Program E Reply Unit × S)
  | [], c => some c
  | choice :: rest, c => (M.turn handler choice c).bind (loop handler rest)

lemma loop_append {handler : H → Program E Reply Unit} (choices choices' : List (Choice L H))
    (c : Program E Reply Unit × S) :
    M.loop handler (choices ++ choices') c = (M.loop handler choices c).bind (M.loop handler choices') := by
  induction choices generalizing c with
  | nil => rfl
  | cons choice rest ih =>
    cases hturn : M.turn handler choice c with
    | none => simp [loop, hturn]
    | some c' => simpa [loop, hturn] using ih c'

def Later : S → S → Prop := ReflTransGen (fun s s' => ∃ label, M.other label s = some s')

def Stable (P : S → Prop) : Prop := ∀ label s s', M.other label s = some s' → P s → P s'

/-- Whatever the others do in between, each request of the program is made where `ok` allows it, and the program
can only return as `Q` says. -/
def keeps (ok : E → S → Prop) : Program E Reply α → (α → S → Prop) → S → Prop
  | .done a, Q, s => ∀ s', M.Later s s' → Q a s'
  | .call e next, Q, s =>
    ∀ s', M.Later s s' → ok e s' ∧ ∀ r s'', M.own e s' = some (r, s'') → keeps ok (next r) Q s''

variable {M} {ok : E → S → Prop} {P : S → Prop} {Q : α → S → Prop} {s s' : S}

lemma Stable.later (hP : M.Stable P) (h : P s) (hlater : M.Later s s') : P s' := by
  induction hlater with
  | refl => exact h
  | tail _ hstep ih =>
    obtain ⟨label, hstep⟩ := hstep
    exact hP label _ _ hstep ih

lemma keeps_done {a : α} (hQ : M.Stable (Q a)) (h : Q a s) : M.keeps ok (.done a) Q s :=
  fun _ hlater => hQ.later h hlater

lemma keeps_call {e : E} {next : Reply e → Program E Reply α} (hP : M.Stable P) (h : P s)
    (hok : ∀ s', P s' → ok e s')
    (hnext : ∀ s' r s'', P s' → M.own e s' = some (r, s'') → M.keeps ok (next r) Q s'') :
    M.keeps ok (.call e next) Q s :=
  fun s' hlater => ⟨hok s' (hP.later h hlater), fun r s'' hown => hnext s' r s'' (hP.later h hlater) hown⟩

lemma keeps_later {p : Program E Reply α} (h : M.keeps ok p Q s) (hlater : M.Later s s') : M.keeps ok p Q s' := by
  cases p with
  | done a => exact fun t ht => h t (hlater.trans ht)
  | call e next => exact fun t ht => h t (hlater.trans ht)

lemma keeps_returned {a : α} (h : M.keeps ok (.done a) Q s) : Q a s := h s .refl

lemma keeps_asked {e : E} {next : Reply e → Program E Reply α} (h : M.keeps ok (.call e next) Q s) : ok e s :=
  (h s .refl).1

variable {handler : H → Program E Reply Unit} {p p' : Program E Reply Unit} {choices : List (Choice L H)}

lemma keeps_turn (hhandler : ∀ event s, P s → M.keeps ok (handler event) (fun _ => P) s) {choice : Choice L H}
    (hturn : M.turn handler choice (p, s) = some (p', s')) (h : M.keeps ok p (fun _ => P) s) :
    M.keeps ok p' (fun _ => P) s' := by
  cases choice with
  | own =>
    cases p with
    | done a => cases hturn
    | call e next =>
      obtain ⟨⟨r, t⟩, hown, heq⟩ := Option.map_eq_some_iff.mp hturn
      obtain ⟨rfl, rfl⟩ := Prod.mk.inj heq
      exact (h s .refl).2 r t hown
  | other label =>
    obtain ⟨t, hother, heq⟩ := Option.map_eq_some_iff.mp hturn
    obtain ⟨rfl, rfl⟩ := Prod.mk.inj heq
    exact keeps_later h (.single ⟨label, hother⟩)
  | handle event =>
    cases p with
    | done a =>
      obtain ⟨rfl, rfl⟩ := Prod.mk.inj (Option.some.inj hturn)
      exact hhandler event s (keeps_returned h)
    | call e next => cases hturn

lemma loop_trans {choices' : List (Choice L H)} {c c' c'' : Program E Reply Unit × S}
    (h : M.loop handler choices c = some c') (h' : M.loop handler choices' c' = some c'') :
    M.loop handler (choices ++ choices') c = some c'' := by
  rw [loop_append, h, Option.bind_some, h']

lemma loop_of_later (handler : H → Program E Reply Unit) (p : Program E Reply Unit) (h : M.Later s s') :
    ∃ choices, M.loop handler choices (p, s) = some (p, s') := by
  induction h with
  | refl => exact ⟨[], rfl⟩
  | tail _ hstep ih =>
    obtain ⟨choices, hloop⟩ := ih
    obtain ⟨label, hstep⟩ := hstep
    refine ⟨choices ++ [.other label], loop_trans hloop ?_⟩
    simp [loop, turn, hstep]

theorem keeps_loop (hhandler : ∀ event s, P s → M.keeps ok (handler event) (fun _ => P) s)
    (hloop : M.loop handler choices (p, s) = some (p', s')) (h : M.keeps ok p (fun _ => P) s) :
    M.keeps ok p' (fun _ => P) s' := by
  induction choices generalizing p s with
  | nil =>
    obtain ⟨rfl, rfl⟩ := Prod.mk.inj (Option.some.inj hloop)
    exact h
  | cons choice rest ih =>
    obtain ⟨⟨q, t⟩, hturn, hrest⟩ := Option.bind_eq_some_iff.mp hloop
    exact ih hrest (keeps_turn hhandler hturn h)

end Shared

end NsxManager.Lib
