import NsxManager.Core.Resolver

/-! The second guard, which takes two paths apart, and where it agrees with the first. -/

namespace NsxManager.Core

def isWithin (root path : Bytes) : Bool :=
  if root.isEmpty || path.isEmpty then false
  else
    let rootParts := List.splitOn (byte '/') (stripTrailingSlashes root)
    let pathParts := List.splitOn (byte '/') (stripTrailingSlashes path)
    if pathParts.length < rootParts.length then false
    else if pathParts.take rootParts.length != rootParts then false
    else (pathParts.drop rootParts.length).all (fun part => !(part == ascii ".." || part.isEmpty))

variable {root path entry : Bytes}

lemma isWithin_iff (hroot : root ≠ []) (hpath : path ≠ []) : isWithin root path = true ↔
    ∃ below, List.splitOn (byte '/') (stripTrailingSlashes path) = List.splitOn (byte '/') (stripTrailingSlashes root) ++ below ∧
      ∀ part ∈ below, part ≠ ascii ".." ∧ part ≠ [] := by
  have hempty : (root.isEmpty || path.isEmpty) = false := by simp [hroot, hpath]
  rw [isWithin, hempty, if_neg Bool.false_ne_true]
  generalize List.splitOn (byte '/') (stripTrailingSlashes path) = pathParts
  generalize List.splitOn (byte '/') (stripTrailingSlashes root) = rootParts
  constructor
  · intro h
    dsimp only at h
    split at h
    · cases h
    · split at h
      · cases h
      · next hsame =>
        refine ⟨pathParts.drop rootParts.length, ?_, fun part hpart => ?_⟩
        · have htake : pathParts.take rootParts.length = rootParts := by simpa using hsame
          conv_lhs => rw [← List.take_append_drop rootParts.length pathParts, htake]
        · simpa using List.all_eq_true.mp h part hpart
  · rintro ⟨below, rfl, hbelow⟩
    simpa using hbelow

lemma stripTrailingSlashes_append (hne : path ≠ []) :
    stripTrailingSlashes (path ++ ascii "/") = stripTrailingSlashes path := by
  have hdrop : ((path ++ ascii "/").reverse.dropWhile (fun c => c == byte '/')) =
      path.reverse.dropWhile (fun c => c == byte '/') := by
    simp [ascii, byte]
  rw [stripTrailingSlashes, stripTrailingSlashes, hdrop]
  cases path with
  | nil => exact absurd rfl hne
  | cons c path => rfl

lemma stripTrailingSlashes_ne_nil (hne : path ≠ []) : stripTrailingSlashes path ≠ [] := by
  rw [stripTrailingSlashes]
  split
  · simpa using hne
  · next hstripped => exact hstripped

lemma entryBody_ends (h : entryError entry = none) :
    entryBody entry ≠ [] ∧ (entryBody entry).getLast? ≠ some (byte '/') := by
  have hparts := componentError_of_entryError h
  constructor
  · intro hnil
    rw [hnil] at hparts
    exact absurd (hparts [] List.mem_cons_self) (by decide)
  · intro hlast
    obtain ⟨body, hbody⟩ := List.getLast?_eq_some_iff.mp hlast
    rw [hbody, List.splitOn_append_cons_self] at hparts
    exact absurd (hparts [] (List.mem_append_right _ List.mem_cons_self)) (by decide)

lemma stripTrailingSlashes_resolved (front : Bytes) (h : entryError entry = none) :
    stripTrailingSlashes (front ++ byte '/' :: entry) = front ++ byte '/' :: entryBody entry := by
  obtain ⟨hne, hlast⟩ := entryBody_ends h
  have hkeep : stripTrailingSlashes (front ++ byte '/' :: entryBody entry) = front ++ byte '/' :: entryBody entry := by
    refine stripTrailingSlashes_eq (by simp) ?_
    obtain ⟨c, body, hbody⟩ := List.exists_cons_of_ne_nil hne
    rw [hbody] at hlast ⊢
    rwa [List.getLast?_append_cons, List.getLast?_cons_cons]
  conv_lhs => rw [← entryBody_append entry]
  split
  · rw [← List.cons_append, ← List.append_assoc, stripTrailingSlashes_append (by simp), hkeep]
  · rw [List.append_nil, hkeep]

lemma bareRoot_ne_nil : bareRoot root ≠ [] ↔ ∃ c ∈ root, c ≠ byte '/' := by
  simp [bareRoot, List.rdropWhile_eq_nil_iff]

theorem guards_agree_iff (root entry out : Bytes) (h : resolveUnder root entry = .ok out) :
    isWithin root out = true ↔ ∃ c ∈ root, c ≠ byte '/' := by
  obtain ⟨hout, hentry⟩ := resolveUnder_eq h
  have hroot : root ≠ [] := by
    rintro rfl
    simp [resolveUnder] at h
  have hnames := componentError_of_entryError hentry
  rw [isWithin_iff hroot (by simp [hout]), hout, stripTrailingSlashes_resolved _ hentry, List.splitOn_append_cons_self,
    ← bareRoot_ne_nil]
  rcases stripTrailingSlashes_eq_bareRoot hroot with ⟨hstrip, _⟩ | ⟨hbare, hstrip⟩
  · have hne : bareRoot root ≠ [] := hstrip ▸ stripTrailingSlashes_ne_nil hroot
    refine iff_of_true ⟨List.splitOn (byte '/') (entryBody entry), by rw [hstrip], fun name hname => ⟨?_, ?_⟩⟩ hne
    · rintro rfl
      exact absurd (hnames _ hname) (by decide)
    · rintro rfl
      exact absurd (hnames _ hname) (by decide)
  · rw [hstrip, hbare]
    refine iff_of_false ?_ (fun hne => hne rfl)
    rintro ⟨below, hparts, _⟩
    -- the parts of the root are two empty names, those of the path only start with one
    have hbody : List.splitOn (byte '/') (entryBody entry) = [] :: below := (List.cons.inj hparts).2
    rw [hbody] at hnames
    exact absurd (hnames [] List.mem_cons_self) (by decide)

theorem guards_agree_below_switch : isWithin (ascii "sdmc:/switch//") (ascii "sdmc:/switch/a/b.nro") = true :=
  (guards_agree_iff (ascii "sdmc:/switch//") (ascii "a/b.nro") _ (by decide +kernel)).mpr
    ⟨byte 's', List.mem_cons_self, by decide⟩

theorem guards_disagree_at_the_card_root :
    resolveUnder (ascii "/") (ascii "a") = .ok (ascii "/a") ∧ isWithin (ascii "/") (ascii "/a") = false := by
  decide +kernel

end NsxManager.Core
