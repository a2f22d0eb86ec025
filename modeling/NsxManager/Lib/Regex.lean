import Mathlib.Computability.RegularExpressions
import Mathlib.Tactic

/-! Regular expressions made of character classes and sequences, and the words they match. -/

namespace NsxManager.Lib.Regex

open RegularExpression

variable {α : Type*}

/-- `[abc]` -/
def oneOf (cs : List α) : RegularExpression α := (cs.map char).sum

/-- `rst` -/
def seq (rs : List (RegularExpression α)) : RegularExpression α := rs.prod

/-- `r?` -/
def maybe (r : RegularExpression α) : RegularExpression α := 1 + r

/-- `r+` -/
def several (r : RegularExpression α) : RegularExpression α := r * r.star

section Words

variable {cs w : List α} {q r : RegularExpression α} {rs : List (RegularExpression α)}

lemma mem_char {c : α} : w ∈ (char c).matches' ↔ w = [c] := Iff.rfl

lemma mem_star : w ∈ r.star.matches' ↔ ∃ us : List (List α), w = us.flatten ∧ ∀ u ∈ us, u ∈ r.matches' :=
  Language.mem_kstar

lemma mem_seq_nil : w ∈ (seq ([] : List (RegularExpression α))).matches' ↔ w = [] := Iff.rfl

lemma mem_seq_cons :
    w ∈ (seq (r :: rs)).matches' ↔ ∃ u ∈ r.matches', ∃ v ∈ (seq rs).matches', u ++ v = w := Iff.rfl

lemma mem_oneOf : w ∈ (oneOf cs).matches' ↔ ∃ c ∈ cs, w = [c] := by
  induction cs with
  | nil => exact ⟨False.elim, fun ⟨_, hc, _⟩ => absurd hc List.not_mem_nil⟩
  | cons c cs ih =>
    have hcons : w ∈ (oneOf (c :: cs)).matches' ↔ w = [c] ∨ w ∈ (oneOf cs).matches' := Iff.rfl
    rw [hcons, ih]
    simp

lemma mem_star_oneOf : w ∈ (oneOf cs).star.matches' ↔ ∀ c ∈ w, c ∈ cs := by
  rw [mem_star]
  constructor
  · rintro ⟨us, rfl, hus⟩ c hc
    obtain ⟨u, hu, hcu⟩ := List.mem_flatten.mp hc
    obtain ⟨c', hc', rfl⟩ := mem_oneOf.mp (hus u hu)
    rwa [List.mem_singleton.mp hcu]
  · intro h
    refine ⟨w.map ([·]), by simp [← List.flatMap_def], fun u hu => ?_⟩
    obtain ⟨c, hc, rfl⟩ := List.mem_map.mp hu
    exact mem_oneOf.mpr ⟨c, h c hc, rfl⟩

lemma mem_star_add_left (h : w ∈ q.star.matches') : w ∈ (q + r).star.matches' := by
  obtain ⟨us, rfl, hus⟩ := mem_star.mp h
  exact mem_star.mpr ⟨us, rfl, fun u hu => .inl (hus u hu)⟩

lemma mem_several_oneOf : w ∈ (several (oneOf cs)).matches' ↔ w ≠ [] ∧ ∀ c ∈ w, c ∈ cs := by
  constructor
  · rintro ⟨u, hu, v, hv, rfl⟩
    obtain ⟨c, hc, rfl⟩ := mem_oneOf.mp hu
    exact ⟨by simp, List.forall_mem_cons.mpr ⟨hc, mem_star_oneOf.mp hv⟩⟩
  · rintro ⟨hne, h⟩
    obtain ⟨c, w, rfl⟩ := List.exists_cons_of_ne_nil hne
    exact ⟨[c], mem_oneOf.mpr ⟨c, h c List.mem_cons_self, rfl⟩, w,
      mem_star_oneOf.mpr (fun d hd => h d (List.mem_cons_of_mem _ hd)), rfl⟩

lemma mem_seq_replicate_oneOf {n : ℕ} :
    w ∈ (seq (List.replicate n (oneOf cs))).matches' ↔ w.length = n ∧ ∀ c ∈ w, c ∈ cs := by
  induction n generalizing w with
  | zero =>
    rw [List.replicate_zero, mem_seq_nil, List.length_eq_zero_iff]
    exact ⟨fun h => ⟨h, by rw [h]; exact fun c hc => absurd hc List.not_mem_nil⟩, And.left⟩
  | succ n ih =>
    rw [List.replicate_succ, mem_seq_cons]
    constructor
    · rintro ⟨u, hu, v, hv, rfl⟩
      obtain ⟨c, hc, rfl⟩ := mem_oneOf.mp hu
      obtain ⟨hlen, hall⟩ := ih.mp hv
      exact ⟨congrArg Nat.succ hlen, List.forall_mem_cons.mpr ⟨hc, hall⟩⟩
    · rintro ⟨hlen, hall⟩
      obtain ⟨c, w, rfl⟩ := List.exists_cons_of_length_pos (hlen.symm ▸ Nat.succ_pos n : 0 < w.length)
      obtain ⟨hc, hall⟩ := List.forall_mem_cons.mp hall
      exact ⟨[c], mem_oneOf.mpr ⟨c, hc, rfl⟩, w, ih.mpr ⟨Nat.succ.inj hlen, hall⟩, rfl⟩

end Words

section Foreign

variable {A : α → Prop} {w : List α} {q r : RegularExpression α}

def Foreign (A : α → Prop) (r : RegularExpression α) : Prop := ∀ w ∈ r.matches', ∃ c ∈ w, ¬ A c

lemma Foreign.mem_add (hr : Foreign A r) (hw : ∀ c ∈ w, A c) : w ∈ (q + r).matches' ↔ w ∈ q.matches' := by
  refine ⟨fun h => h.resolve_right (fun h => ?_), .inl⟩
  obtain ⟨c, hc, hA⟩ := hr w h
  exact hA (hw c hc)

lemma Foreign.mem_star (hr : Foreign A r) (hw : ∀ c ∈ w, A c) (h : w ∈ (q + r).star.matches') :
    w ∈ q.star.matches' := by
  obtain ⟨us, rfl, hus⟩ := Regex.mem_star.mp h
  refine Regex.mem_star.mpr ⟨us, rfl, fun u hu => ?_⟩
  exact (hr.mem_add (fun c hc => hw c (List.mem_flatten.mpr ⟨u, hu, hc⟩))).mp (hus u hu)

lemma forall₂_of_mem_seq {rs : List (RegularExpression α)} (hw : ∀ c ∈ w, A c)
    (hs : ∀ r ∈ rs, ∀ u ∈ r.matches', (∀ c ∈ u, A c) → ∃ c, u = [c]) (h : w ∈ (seq rs).matches') :
    List.Forall₂ (fun c r => [c] ∈ r.matches') w rs := by
  induction rs generalizing w with
  | nil =>
    obtain rfl := mem_seq_nil.mp h
    exact .nil
  | cons r rs ih =>
    obtain ⟨u, hu, v, hv, rfl⟩ := mem_seq_cons.mp h
    obtain ⟨hwu, hwv⟩ := List.forall_mem_append.mp hw
    obtain ⟨c, rfl⟩ := hs r List.mem_cons_self u hu hwu
    exact .cons hu (ih hwv (fun s hs' => hs s (List.mem_cons_of_mem _ hs')) hv)

lemma mem_seq_of_forall₂ {rs : List (RegularExpression α)} (h : List.Forall₂ (fun c r => [c] ∈ r.matches') w rs) :
    w ∈ (seq rs).matches' := by
  induction h with
  | nil => exact mem_seq_nil.mpr rfl
  | cons hc _ ih => exact mem_seq_cons.mpr ⟨_, hc, _, ih, rfl⟩

end Foreign

section Lines

variable [DecidableEq α] {newline : α} {r : RegularExpression α} {w : List α}

/-- `^r$`, where the end of the line may be followed by the end of the text. -/
def matchesLine (newline : α) (r : RegularExpression α) (w : List α) : Bool :=
  r.rmatch w || (w.getLast? == some newline && r.rmatch w.dropLast)

lemma matchesLine_iff : matchesLine newline r w = true ↔
    w ∈ r.matches' ∨ ∃ u ∈ r.matches', w = u ++ [newline] := by
  simp only [matchesLine, Bool.or_eq_true, Bool.and_eq_true, beq_iff_eq, rmatch_iff_matches']
  refine or_congr Iff.rfl ⟨?_, ?_⟩
  · rintro ⟨hlast, h⟩
    exact ⟨_, h, (List.dropLast_append_getLast? newline hlast).symm⟩
  · rintro ⟨u, hu, rfl⟩
    simpa using hu

lemma mem_of_matchesLine (h : matchesLine newline r w = true) (hlast : w.getLast? ≠ some newline) :
    w ∈ r.matches' := by
  refine (matchesLine_iff.mp h).resolve_right ?_
  rintro ⟨u, _, rfl⟩
  exact hlast List.getLast?_concat

end Lines

end NsxManager.Lib.Regex
