import NsxManager.Core.Text
import Mathlib.Data.List.AList

/-! The SD card: which path holds which bytes. -/

namespace NsxManager

open NsxManager.Core

abbrev Card := AList (fun _ : Bytes => Bytes)

namespace Card

variable (c : Card) (p q : Bytes)

def has : Bool := (c.lookup p).isSome

/-- A rename, on a card that lets no file be renamed onto another. -/
def move (source destination : Bytes) : Card :=
  match c.lookup source with
  | some bytes => if c.has destination then c else (c.erase source).insert destination bytes
  | none => c

@[simp] lemma lookup_empty : (∅ : Card).lookup p = none := rfl

lemma lookup_erase_eq : (c.erase p).lookup q = if q = p then none else c.lookup q := by
  split
  · next h => subst h; exact AList.lookup_erase _ _
  · next h => exact AList.lookup_erase_ne h

lemma lookup_insert_eq (bytes : Bytes) :
    (c.insert p bytes).lookup q = if q = p then some bytes else c.lookup q := by
  split
  · next h => subst h; exact AList.lookup_insert _
  · next h => exact AList.lookup_insert_ne h

def Agree (names : List Bytes) (c c' : Card) : Prop := ∀ p ∉ names, c'.lookup p = c.lookup p

lemma has_eq_true : c.has p = true ↔ ∃ bytes, c.lookup p = some bytes := Option.isSome_iff_exists

lemma has_eq_false : c.has p = false ↔ c.lookup p = none := by
  simp [has]

lemma lookup_move {source destination bytes : Bytes} (hs : c.lookup source = some bytes)
    (hd : c.lookup destination = none) :
    (c.move source destination).lookup q =
      if q = destination then some bytes else if q = source then none else c.lookup q := by
  have hfree : c.has destination = false := (c.has_eq_false _).mpr hd
  simp only [move, hs, hfree, Bool.false_eq_true, if_false, lookup_insert_eq, lookup_erase_eq]

lemma move_of_missing {source : Bytes} (hs : c.lookup source = none) : c.move source p = c := by
  simp only [move, hs]

lemma move_onto (hp : c.has p = true) : c.move q p = c := by
  unfold move
  split
  · simp [hp]
  · rfl

lemma lookup_move_of_ne {source destination : Bytes} (hs : q ≠ source) (hd : q ≠ destination) :
    (c.move source destination).lookup q = c.lookup q := by
  unfold move
  split
  · split
    · rfl
    · rw [lookup_insert_eq, if_neg hd, lookup_erase_eq, if_neg hs]
  · rfl

lemma lookup_replace {source destination : Bytes} (hne : source ≠ destination) :
    (move (c.erase destination) source destination).lookup q =
      if q = destination then c.lookup source else if q = source then none else c.lookup q := by
  have hsource : (c.erase destination).lookup source = c.lookup source := AList.lookup_erase_ne hne
  cases hs : c.lookup source with
  | none =>
    rw [move_of_missing _ _ (hsource.trans hs), lookup_erase_eq]
    split_ifs with hd hq
    · rfl
    · rw [hq, hs]
    · rfl
  | some bytes =>
    rw [lookup_move _ _ (hsource.trans hs) (AList.lookup_erase _ _), lookup_erase_eq]
    split_ifs <;> rfl

lemma has_insert_self (bytes : Bytes) : has (c.insert p bytes) p = true := by
  rw [has, AList.lookup_insert]
  rfl

lemma has_insert_of_has (bytes : Bytes) (h : c.has q = true) : has (c.insert p bytes) q = true := by
  rw [has, lookup_insert_eq]
  split
  · rfl
  · exact h

lemma has_erase_of_ne (h : p ≠ q) : has (c.erase q) p = c.has p := by
  rw [has, AList.lookup_erase_ne h, has]

section Agree

variable {c c' c'' : Card} {names : List Bytes}

lemma Agree.refl (names : List Bytes) (c : Card) : Agree names c c := fun _ _ => rfl

lemma Agree.trans (h : Agree names c c') (h' : Agree names c' c'') : Agree names c c'' :=
  fun p hp => (h' p hp).trans (h p hp)

lemma Agree.erase {p : Bytes} (h : Agree names c c') (hp : p ∈ names) : Agree names c (c'.erase p) := by
  intro q hq
  have hne : q ≠ p := fun heq => hq (heq ▸ hp)
  rw [lookup_erase_eq, if_neg hne, h q hq]

lemma Agree.insert {p : Bytes} (h : Agree names c c') (hp : p ∈ names) (bytes : Bytes) :
    Agree names c (c'.insert p bytes) := by
  intro q hq
  have hne : q ≠ p := fun heq => hq (heq ▸ hp)
  rw [lookup_insert_eq, if_neg hne, h q hq]

lemma Agree.move {p q : Bytes} (h : Agree names c c') (hp : p ∈ names) (hq : q ∈ names) :
    Agree names c (c'.move p q) := by
  unfold Card.move
  split
  · split
    · exact h
    · exact (h.erase hp).insert hq _
  · exact h

lemma Agree.replace {p q : Bytes} (hp : p ∈ names) (hq : q ∈ names) (c : Card) :
    Agree names c (Card.move (c.erase q) p q) :=
  ((Agree.refl names c).erase hq).move hp hq

end Agree

end Card

end NsxManager
