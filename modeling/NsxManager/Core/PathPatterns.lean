import NsxManager.Core.Glob

/-! Paths and patterns as lists of components: what slashes and letter case leave unchanged, and the
dynamic program of `matchAll` against its meaning. -/

namespace NsxManager.Core

open Lib

section Slashes

lemma components_separator (u v : Bytes) : components (u ++ byte '/' :: v) = components u ++ components v := by
  rw [components, List.splitOn_append_cons_self, List.filter_append, components, components]

lemma components_slash_cons (path : Bytes) : components (byte '/' :: path) = components path :=
  components_separator [] path

lemma components_concat_slash (path : Bytes) : components (path ++ [byte '/']) = components path := by
  rw [components_separator]
  exact List.append_nil _

lemma components_letter_cons_ne_nil {c : UInt8} (hc : c ≠ byte '/') (path : Bytes) : components (c :: path) ≠ [] := by
  rw [components, List.splitOn_cons_eq_if_modifyHead, if_neg (by simpa using hc)]
  cases hpath : List.splitOn (byte '/') path with
  | nil => exact absurd hpath (List.splitOn_ne_nil _ _)
  | cons piece pieces => simp

/-- `u` is what `normalise` has already put out of the component it is in. -/
lemma components_normaliseFrom (u path : Bytes) :
    components (u ++ normaliseFrom u.isEmpty path) = components (u ++ path) := by
  induction path generalizing u with
  | nil => rfl
  | cons c path ih =>
    rw [normaliseFrom]
    by_cases hc : c = byte '/'
    · subst hc
      have hrest : components (normaliseFrom true path) = components path := ih []
      rw [if_pos (beq_self_eq_true _), components_separator, ← hrest]
      cases u with
      | nil => rfl
      | cons d u => exact components_separator (d :: u) _
    · have hnext := ih (u ++ [c])
      have hinside : (u ++ [c]).isEmpty = false := by cases u <;> rfl
      rw [hinside, List.append_assoc, List.append_assoc] at hnext
      rwa [if_neg (by simpa using hc)]

lemma components_normalise (path : Bytes) : components (normalise path) = components path :=
  components_normaliseFrom [] path

lemma normalise_eq_nil_iff (path : Bytes) : normalise path = [] ↔ components path = [] := by
  refine ⟨fun h => by rw [← components_normalise, h]; rfl, fun h => ?_⟩
  induction path with
  | nil => rfl
  | cons c path ih =>
    by_cases hc : c = byte '/'
    · subst hc
      exact ih ((components_slash_cons path).symm.trans h)
    · exact absurd h (components_letter_cons_ne_nil hc path)

lemma dots_cons_iff (c : UInt8) (path : Bytes) : ascii ".." <:+: c :: path ↔
    (c = byte '.' ∧ path.head? = some (byte '.')) ∨ ascii ".." <:+: path := by
  have hdots : ascii ".." = [byte '.', byte '.'] := by decide
  rw [List.infix_cons_iff, hdots, List.cons_prefix_cons, eq_comm]
  refine or_congr_left (and_congr_right' ?_)
  cases path with
  | nil => simp
  | cons d path => simp [List.cons_prefix_cons, eq_comm]

lemma head?_normaliseFrom_false (path : Bytes) : (normaliseFrom false path).head? = path.head? := by
  cases path with
  | nil => rfl
  | cons c path =>
    rw [normaliseFrom]
    split <;> rfl

lemma dots_normaliseFrom (lastWasSlash : Bool) (path : Bytes) :
    ascii ".." <:+: normaliseFrom lastWasSlash path ↔ ascii ".." <:+: path := by
  induction path generalizing lastWasSlash with
  | nil => rfl
  | cons c path ih =>
    rw [normaliseFrom, dots_cons_iff]
    by_cases hc : c = byte '/'
    · subst hc
      have hnone : ¬(byte '/' = byte '.' ∧ path.head? = some (byte '.')) := fun h => absurd h.1 (by decide)
      rw [if_pos (beq_self_eq_true _), or_iff_right hnone, ← ih true]
      cases lastWasSlash with
      | true => rfl
      | false => exact (dots_cons_iff _ _).trans (or_iff_right (fun h => absurd h.1 (by decide)))
    · rw [if_neg (by simpa using hc), dots_cons_iff, head?_normaliseFrom_false, ih]

lemma dots_concat_slash (path : Bytes) : ascii ".." <:+: path ++ [byte '/'] ↔ ascii ".." <:+: path := by
  rw [List.infix_concat_iff]
  refine or_iff_right (fun h => ?_)
  have hlast := h.getLast (by decide)
  rw [List.getLast_concat] at hlast
  exact absurd hlast (by decide)

end Slashes

section Case

lemma lower_slash {c : UInt8} : lower c = byte '/' ↔ c = byte '/' := by
  refine ⟨eq_of_lower_eq (by decide), ?_⟩
  rintro rfl
  decide

lemma splitOn_map_lower (path : Bytes) :
    List.splitOn (byte '/') (path.map lower) = (List.splitOn (byte '/') path).map (List.map lower) := by
  induction path with
  | nil => rfl
  | cons c path ih =>
    rw [List.map_cons, List.splitOn_cons_eq_if_modifyHead, List.splitOn_cons_eq_if_modifyHead, ih]
    by_cases hc : c = byte '/'
    · rw [if_pos (beq_iff_eq.mpr hc), if_pos (beq_iff_eq.mpr (lower_slash.mpr hc)), List.map_cons, List.map_nil]
    · rw [if_neg (by simpa [lower_slash] using hc), if_neg (by simpa using hc)]
      cases List.splitOn (byte '/') path <;> rfl

lemma components_map_lower (path : Bytes) : components (path.map lower) = (components path).map (List.map lower) := by
  rw [components, splitOn_map_lower, List.filter_map]
  congr 2
  funext piece
  simp

lemma globLoop_map_lower (pattern text : Bytes) (rounds : ℕ) (g : GlobState) :
    globLoop pattern (text.map lower) rounds g = globLoop pattern text rounds g := by
  have hbyte : ∀ i, lower ((text.map lower).getD i 0) = lower (text.getD i 0) := by
    intro i
    rw [List.getD_eq_getElem?_getD, List.getD_eq_getElem?_getD, List.getElem?_map]
    cases text[i]? with
    | none => rfl
    | some c => exact lower_lower c
  induction rounds generalizing g with
  | zero => rfl
  | succ rounds ih => simp only [globLoop, List.length_map, hbyte, ih]

lemma matchComponent_map_lower (pattern text : Bytes) :
    matchComponent pattern (text.map lower) = matchComponent pattern text := by
  rw [matchComponent, globLoop_map_lower, List.length_map, matchComponent]

lemma nextReachable_map_lower (path : List Bytes) (reachable : List Bool) (component : Bytes) :
    nextReachable (path.map (List.map lower)) reachable component = nextReachable path reachable component := by
  rw [nextReachable, nextReachable, List.zipWith_map_right]
  simp only [matchComponent_map_lower]

lemma matchAll_map_lower (pattern path : List Bytes) :
    matchAll pattern (path.map (List.map lower)) = matchAll pattern path := by
  rw [matchAll, matchAll, List.map_map]
  congr 3
  funext reachable component
  exact nextReachable_map_lower path reachable component

end Case

abbrev Covers (pattern path : List Bytes) : Prop :=
  Glob (ascii "**") (fun component piece => matchComponent component piece = true) pattern path

section Rows

variable {path done : List Bytes} {reachable : List Bool} {component : Bytes}

structure Row (path done : List Bytes) (reachable : List Bool) : Prop where
  length : reachable.length = path.length + 1
  entry : ∀ j ≤ path.length, reachable.getD j false = true ↔ Covers done (path.take j)

lemma Row.first (path : List Bytes) : Row path [] (true :: path.map (fun _ => false)) := by
  refine ⟨by simp, fun j hj => ?_⟩
  rw [Covers, Glob.nil_iff]
  cases j with
  | zero => simp
  | succ j =>
    have hne : path.take (j + 1) ≠ [] := by
      rw [Ne, List.take_eq_nil_iff, ← List.length_eq_zero_iff]
      omega
    have hfalse : (true :: path.map (fun _ => false)).getD (j + 1) false = false := by
      rw [List.getD_cons_succ, List.getD_eq_getElem?_getD, List.getElem?_map]
      cases path[j]? <;> rfl
    rw [hfalse]
    exact ⟨nofun, fun h => absurd h hne⟩

lemma getD_scanl_or (carry : Bool) {j : ℕ} (hj : j < reachable.length) :
    (reachable.scanl (fun carry r => carry || r) carry).tail.getD j false = true ↔
      carry = true ∨ ∃ i ≤ j, reachable.getD i false = true := by
  induction reachable generalizing carry j with
  | nil => simp at hj
  | cons r reachable ih =>
    have hhead : reachable.scanl (fun carry r => carry || r) (carry || r) =
        (carry || r) :: (reachable.scanl (fun carry r => carry || r) (carry || r)).tail := by
      cases reachable <;> simp
    rw [List.scanl_cons, List.tail_cons, hhead]
    cases j with
    | zero => simp
    | succ j =>
      rw [List.getD_cons_succ, ih _ (by simpa using hj), Bool.or_eq_true, or_assoc]
      refine or_congr_right ⟨?_, ?_⟩
      · rintro (hr | ⟨i, hi, hentry⟩)
        · exact ⟨0, Nat.zero_le _, hr⟩
        · exact ⟨i + 1, Nat.succ_le_succ hi, hentry⟩
      · rintro ⟨i, hi, hentry⟩
        cases i with
        | zero => exact .inl hentry
        | succ i => exact .inr ⟨i, Nat.le_of_succ_le_succ hi, hentry⟩

lemma Row.wild (h : Row path done reachable) :
    Row path (done ++ [ascii "**"]) (nextReachable path reachable (ascii "**")) := by
  rw [nextReachable, if_pos rfl]
  refine ⟨by simp [h.length], fun j hj => ?_⟩
  rw [getD_scanl_or false (by rw [h.length]; omega), Covers, Glob.append_wild_iff, List.length_take,
    Nat.min_eq_left hj]
  constructor
  · rintro (hcarry | ⟨i, hi, hentry⟩)
    · cases hcarry
    · refine ⟨i, hi, ?_⟩
      rw [List.take_take, Nat.min_eq_left hi]
      exact (h.entry i (hi.trans hj)).mp hentry
  · rintro ⟨i, hi, hcovers⟩
    rw [List.take_take, Nat.min_eq_left hi] at hcovers
    exact .inr ⟨i, hi, (h.entry i (hi.trans hj)).mpr hcovers⟩

lemma Row.letter (h : Row path done reachable) (hc : component ≠ ascii "**") :
    Row path (done ++ [component]) (nextReachable path reachable component) := by
  rw [nextReachable, if_neg hc]
  refine ⟨by simp [h.length], fun j hj => ?_⟩
  cases j with
  | zero =>
    rw [List.take_zero, Covers, Glob.text_nil_iff]
    simp [hc]
  | succ j =>
    have hlast : (false :: List.zipWith (fun r piece => r && matchComponent component piece) reachable path).getD
        (j + 1) false = (reachable.getD j false && matchComponent component (path.get ⟨j, hj⟩)) := by
      have hshort : j < reachable.length := by rw [h.length]; omega
      simp [List.getD_eq_getElem?_getD, List.getElem?_zipWith, List.getElem?_eq_getElem hj,
        List.getElem?_eq_getElem hshort]
    rw [hlast, Bool.and_eq_true, h.entry j (Nat.le_of_succ_le hj), List.take_succ_eq_append_getElem hj]
    exact (Glob.append_letter_iff hc).symm

lemma Row.next (h : Row path done reachable) (component : Bytes) :
    Row path (done ++ [component]) (nextReachable path reachable component) := by
  by_cases hc : component = ascii "**"
  · rw [hc]
    exact h.wild
  · exact h.letter hc

lemma Row.foldl (h : Row path done reachable) (pattern : List Bytes) :
    Row path (done ++ pattern) (pattern.foldl (nextReachable path) reachable) := by
  induction pattern generalizing done reachable with
  | nil => rwa [List.append_nil]
  | cons component pattern ih =>
    have hrest := ih (h.next component)
    rwa [List.append_assoc] at hrest

end Rows

lemma matchAll_iff (pattern path : List Bytes) : matchAll pattern path = true ↔ Covers pattern path := by
  have hrow := (Row.first path).foldl pattern
  have hlast := hrow.entry path.length (Nat.le_refl _)
  rw [List.take_length, List.nil_append, List.getD_eq_getElem?_getD] at hlast
  rw [matchAll, List.getLast?_eq_getElem?, hrow.length, Nat.add_sub_cancel]
  exact hlast

end NsxManager.Core
