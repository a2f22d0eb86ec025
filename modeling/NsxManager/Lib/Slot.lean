import Mathlib.Tactic

/-! One name of a merge that can be undone: what is in place under it, what was put aside, and what
waits to take the place. -/

namespace NsxManager.Lib

structure Slot (β : Type) where
  live : Option β
  kept : Option β
  staged : Option β

namespace Slot

variable {β : Type} {old : Option β} {new : β} {s : Slot β} {listed : Bool}

def displaced (s : Slot β) : Slot β := ⟨none, s.live, s.staged⟩

def installed (s : Slot β) : Slot β := ⟨s.staged, s.kept, none⟩

def restored (s : Slot β) : Slot β := ⟨s.kept, none, s.staged⟩

def withdrawn (s : Slot β) : Slot β := ⟨none, s.kept, s.staged⟩

def forgotten (s : Slot β) : Slot β := ⟨s.live, none, s.staged⟩

def unstaged (s : Slot β) : Slot β := ⟨s.live, s.kept, none⟩

/-- What undoing leaves in place: the file put aside or, under a name it was told of, nothing unless
the new file still waits. -/
def settled (listed : Bool) (s : Slot β) : Option β :=
  match s.kept with
  | some b => some b
  | none => if listed && s.staged.isNone then none else s.live

def Fresh (s : Slot β) : Prop := s.live.isSome ∧ s.kept = none ∧ s.staged = none

inductive Merging (old : Option β) (new : β) : Slot β → Prop
  | untouched : Merging old new ⟨old, none, some new⟩
  | displaced (h : old.isSome) : Merging old new ⟨none, old, some new⟩
  | installed : Merging old new ⟨some new, old, none⟩

lemma Merging.settled_iff (h : Merging old new s) : s.settled listed = old ↔ listed = true ∨ ¬s.Fresh := by
  cases h with
  | untouched => simp [settled, Fresh]
  | displaced h =>
    obtain ⟨b, rfl⟩ := Option.isSome_iff_exists.mp h
    simp [settled, Fresh]
  | installed => cases old <;> cases listed <;> simp [settled, Fresh]

/-- The same where `spare` lay in the backup before the merge began and, if `blind`, a file in place may
have been taken for missing. -/
inductive Replacing (blind : Bool) (old spare : Option β) (new : β) : Slot β → Prop
  | untouched : Replacing blind old spare new ⟨old, spare, some new⟩
  | displaced (h : old.isSome) : Replacing blind old spare new ⟨none, old, some new⟩
  | installed : Replacing blind old spare new ⟨some new, old.or spare, none⟩
  | overwritten (h : blind = true) : Replacing blind old spare new ⟨some new, spare, none⟩

lemma Replacing.of_displaced {blind : Bool} {spare : Option β} (h : old.isSome) :
    Replacing blind old spare new ⟨some new, old, none⟩ := by
  obtain ⟨b, rfl⟩ := Option.isSome_iff_exists.mp h
  exact .installed

lemma Replacing.settled_iff {spare : Option β} (h : Replacing false old spare new s) :
    s.settled listed = old ↔ (s.kept.isSome → s.kept = old) ∧ (s.Fresh → listed = true) := by
  cases h with
  | untouched => cases spare <;> simp [settled, Fresh]
  | displaced h =>
    obtain ⟨b, rfl⟩ := Option.isSome_iff_exists.mp h
    simp [settled, Fresh]
  | installed => cases old <;> cases spare <;> cases listed <;> simp [settled, Fresh]
  | overwritten h => cases h

/-- Nothing was merged under the name, but `kept` may lie in the backup. -/
lemma settled_false_iff (hlive : s.live = old) : s.settled false = old ↔ (s.kept.isSome → s.kept = old) := by
  cases hkept : s.kept <;> simp [settled, hkept, hlive]

/-- The new file is in place and its backup may be gone. -/
lemma settled_installed_iff (hlive : s.live = some new) (hstaged : s.staged = none) :
    s.settled listed = some new ∨ s.settled listed = old ↔
      (s.kept.isSome → s.kept = some new ∨ s.kept = old) ∧ (listed = true → old.isSome → s.kept.isSome) := by
  cases hkept : s.kept <;> cases listed <;> cases old <;> simp [settled, hkept, hlive, hstaged]

structure Trimmed (s t : Slot β) : Prop where
  live : t.live = s.live
  kept : t.kept = s.kept ∨ t.kept = none
  staged : t.staged = s.staged ∨ t.staged = none

lemma Trimmed.refl (s : Slot β) : Trimmed s s := ⟨rfl, .inl rfl, .inl rfl⟩

lemma Trimmed.forget {t : Slot β} (h : Trimmed s t) : Trimmed s t.forgotten := ⟨h.live, .inr rfl, h.staged⟩

lemma Trimmed.unstage {t : Slot β} (h : Trimmed s t) : Trimmed s t.unstaged := ⟨h.live, h.kept, .inr rfl⟩

lemma Trimmed.eq_of_bare {t : Slot β} {b : Option β} (h : Trimmed ⟨b, none, none⟩ t) : t = ⟨b, none, none⟩ := by
  obtain ⟨live, kept, staged⟩ := t
  obtain rfl : live = b := h.live
  obtain rfl : kept = none := h.kept.elim id id
  obtain rfl : staged = none := h.staged.elim id id
  rfl

def undone (listed : Bool) (s : Slot β) : Slot β := ⟨s.settled listed, none, s.staged⟩

lemma restored_eq_undone (h : s.kept.isSome) : s.restored = s.undone listed := by
  obtain ⟨b, hb⟩ := Option.isSome_iff_exists.mp h
  simp [restored, undone, settled, hb]

lemma eq_undone (hkept : s.kept = none) (h : listed = true → s.staged.isSome) : s = s.undone listed := by
  obtain ⟨live, kept, staged⟩ := s
  obtain rfl : kept = none := hkept
  cases listed with
  | false => simp [undone, settled]
  | true =>
    obtain ⟨b, hb⟩ := Option.isSome_iff_exists.mp (h rfl)
    simp only at hb
    simp [undone, settled, hb]

/-- Between two attempts to undo `s`, where `goal` is what they are to leave in place. -/
inductive Retried (s : Slot β) (goal : Option β) : Slot β → Prop
  | untouched : Retried s goal s
  | undone (staged : Option β) : Retried s goal ⟨goal, none, staged⟩

lemma Retried.undoing {t : Slot β} {goal : Option β} (h : Retried s goal t) {u : Slot β}
    (hgoal : t.settled listed = goal) (hu : u = t ∨ u = t.undone listed) : Retried s goal u := by
  rcases hu with rfl | rfl
  · exact h
  · rw [Slot.undone, hgoal]
    exact .undone _

lemma retried_of_trimmed {t u : Slot β} {goal : Option β} (hgoal : t.settled listed = goal)
    (hu : Trimmed (t.undone listed) u) : Retried s goal u := by
  have hkept : u.kept = none := hu.kept.elim id id
  have heq : u = ⟨goal, none, u.staged⟩ := by
    rw [← hgoal, ← hkept, ← show u.live = t.settled listed from hu.live]
  rw [heq]
  exact .undone _

lemma Retried.settled_true {t : Slot β} (h : Retried s (s.settled true) t) (horphan : t.Fresh → s.Fresh) :
    t.settled true = s.settled true := by
  cases h with
  | untouched => rfl
  | undone staged =>
    cases staged with
    | some b => simp [settled]
    | none =>
      by_cases hgoal : (s.settled true).isSome
      · obtain ⟨_, hkept, hstaged⟩ := horphan ⟨hgoal, rfl, rfl⟩
        simp [settled, hkept, hstaged] at hgoal
      · rw [Option.not_isSome_iff_eq_none] at hgoal
        rw [hgoal]
        rfl

lemma Retried.settled_false {t : Slot β} {goal : Option β} (h : Retried s goal t)
    (huntouched : t = s → s.settled false = goal) : t.settled false = goal := by
  cases h with
  | untouched => exact huntouched rfl
  | undone staged => simp [settled]

lemma settled_false_of_not_fresh (hkept : s.kept = none) (h : ¬s.Fresh) : s.settled false = s.settled listed := by
  cases listed with
  | false => rfl
  | true =>
    cases hstaged : s.staged with
    | some b => simp [settled, hkept, hstaged]
    | none =>
      have hlive : s.live = none := by simpa [Fresh, hkept, hstaged] using h
      simp [settled, hkept, hstaged, hlive]

end Slot

end NsxManager.Lib
