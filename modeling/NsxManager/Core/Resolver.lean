import NsxManager.Core.Extraction
import Mathlib.Data.List.DropRight

/-! Where the strictest reading of a path leads, and that no accepted archive entry leaves its root. -/

namespace NsxManager.Core

structure Location where
  volume : Bytes
  components : List Bytes
  deriving DecidableEq

def Location.below (place : Location) (names : List Bytes) : Location :=
  ⟨place.volume, place.components ++ names⟩

/-- FAT keeps no dots and no spaces at the end of a name. -/
def fatName (component : Bytes) : Bytes := component.rdropWhile (fun c => c == byte '.' || c == byte ' ')

def enter (place : List Bytes) (component : Bytes) : List Bytes :=
  if component.isEmpty || component = ascii "." then place
  else if component = ascii ".." then place.dropLast
  else if (fatName component).isEmpty then place
  else place ++ [fatName component]

def separated (c : UInt8) : UInt8 := if c = 0x5c then byte '/' else c

def walk (path : Bytes) : List Bytes := (List.splitOn (byte '/') (path.map separated)).foldl enter []

/-- The reference reading of a path: it ends at the first NUL, starts afresh after every colon, and
is taken apart at slashes and backslashes alike. -/
def resolve (path : Bytes) : Location :=
  let text := path.takeWhile (fun c => c != 0)
  ⟨text.rdropWhile (fun c => c != byte ':'), walk (text.rtakeWhile (fun c => c != byte ':'))⟩

lemma walk_append (u v : Bytes) :
    walk (u ++ byte '/' :: v) = (List.splitOn (byte '/') (v.map separated)).foldl enter (walk u) := by
  have hslash : separated (byte '/') = byte '/' := by decide
  rw [walk, List.map_append, List.map_cons, hslash, List.splitOn_append_cons_self, List.foldl_append, walk]

lemma walk_slashes (u : Bytes) (k : ℕ) : walk (u ++ List.replicate k (byte '/')) = walk u := by
  induction k with
  | zero => simp
  | succ k ih =>
    rw [List.replicate_succ', ← List.append_assoc, walk_append, ih]
    rfl

lemma enter_of_componentError {component : Bytes} (h : componentError component = none) (place : List Bytes) :
    enter place component = place ++ [component] := by
  simp only [componentError] at h
  split at h
  · cases h
  · next hempty =>
    split at h
    · cases h
    · next hdot =>
      split at h
      · cases h
      · next hparent =>
        split at h
        · cases h
        · split at h
          · cases h
          · next hlast =>
            have hfat : fatName component = component := by
              refine List.rdropWhile_eq_self_iff.mpr (fun hne => ?_)
              rw [List.getLast?_eq_some_getLast hne] at hlast
              simpa using hlast
            rw [enter, hfat]
            simp [hempty, hdot, hparent]

lemma foldl_enter (names : List Bytes) (h : ∀ name ∈ names, componentError name = none) (place : List Bytes) :
    names.foldl enter place = place ++ names := by
  induction names generalizing place with
  | nil => simp
  | cons name names ih =>
    rw [List.foldl_cons, enter_of_componentError (h name List.mem_cons_self),
      ih (fun n hn => h n (List.mem_cons_of_mem _ hn)), List.append_assoc, List.singleton_append]

lemma componentError_of_entryError {entry : Bytes} (h : entryError entry = none) :
    ∀ name ∈ List.splitOn (byte '/') (entryBody entry), componentError name = none := by
  simp only [entryError] at h
  split at h
  · cases h
  · split at h
    · cases h
    · split at h
      · cases h
      · split at h
        · cases h
        · split at h
          · cases h
          · simpa [List.findSome?_eq_none_iff] using h

def bareRoot (root : Bytes) : Bytes := root.rdropWhile (fun c => c == byte '/')

lemma bareRoot_append (root : Bytes) : ∃ k, root = bareRoot root ++ List.replicate k (byte '/') := by
  have hslashes : ∀ c ∈ root.rtakeWhile (fun c => c == byte '/'), c = byte '/' :=
    fun c hc => by simpa using List.mem_rtakeWhile_imp hc
  refine ⟨(root.rtakeWhile (fun c => c == byte '/')).length, ?_⟩
  rw [← List.eq_replicate_of_mem hslashes, bareRoot, List.rdropWhile_append_rtakeWhile]

lemma stripTrailingSlashes_eq_bareRoot {root : Bytes} (hne : root ≠ []) :
    stripTrailingSlashes root = bareRoot root ∧ (bareRoot root).getLast? ≠ some (byte '/') ∨
      bareRoot root = [] ∧ stripTrailingSlashes root = ascii "/" := by
  have hbare : (root.reverse.dropWhile (fun c => c == byte '/')).reverse = bareRoot root := rfl
  cases hbase : bareRoot root with
  | nil =>
    refine .inr ⟨rfl, ?_⟩
    obtain ⟨c, rest, rfl⟩ := List.exists_cons_of_ne_nil hne
    have hc := List.rdropWhile_eq_nil_iff.mp hbase c List.mem_cons_self
    rw [stripTrailingSlashes, hbare, hbase]
    simpa [ascii] using hc
  | cons c rest =>
    refine .inl ⟨by rw [stripTrailingSlashes, hbare, hbase], fun hlast => ?_⟩
    have hne' : bareRoot root ≠ [] := by simp [hbase]
    rw [← hbase, List.getLast?_eq_some_getLast hne', Option.some.injEq] at hlast
    exact List.rdropWhile_last_not (fun c => c == byte '/') root hne' (beq_iff_eq.mpr hlast)

lemma resolveUnder_eq {root entry out : Bytes} (h : resolveUnder root entry = .ok out) :
    out = bareRoot root ++ byte '/' :: entry ∧ entryError entry = none := by
  simp only [resolveUnder] at h
  split at h
  · cases h
  · next hempty =>
    split at h
    · cases h
    · next hvalid =>
      have hentry : entryError entry = none := by
        cases hentry : entryError entry with
        | none => rfl
        | some error => simp [validateEntryName, hentry] at hvalid
      have hne : root ≠ [] := by
        rintro rfl
        simp at hempty
      rw [List.append_assoc _ (entryBody entry), entryBody_append] at h
      generalize hfront : (if (stripTrailingSlashes root).getLast? == some (byte '/') then
        stripTrailingSlashes root else stripTrailingSlashes root ++ ascii "/") = front at h
      split at h
      · cases h
      · refine ⟨?_, hentry⟩
        rw [← Except.ok.inj h, ← hfront]
        rcases stripTrailingSlashes_eq_bareRoot hne with ⟨hstrip, hlast⟩ | ⟨hbare, hstrip⟩
        · simp [hstrip, hlast, ascii]
        · rw [hstrip, hbare]
          rfl

lemma colon_passes {text : Bytes} (h : byte ':' ∉ text) : ∀ c ∈ text.reverse, (c != byte ':') = true := by
  intro c hc
  have hne : c ≠ byte ':' := by
    rintro rfl
    exact h (List.mem_reverse.mp hc)
  simpa using hne

lemma rtakeWhile_append {u v : Bytes} (h : byte ':' ∉ v) :
    (u ++ v).rtakeWhile (fun c => c != byte ':') = u.rtakeWhile (fun c => c != byte ':') ++ v := by
  rw [List.rtakeWhile, List.reverse_append, List.takeWhile_append_of_pos (colon_passes h), List.reverse_append,
    List.reverse_reverse, List.rtakeWhile]

lemma rdropWhile_append {u v : Bytes} (h : byte ':' ∉ v) :
    (u ++ v).rdropWhile (fun c => c != byte ':') = u.rdropWhile (fun c => c != byte ':') := by
  rw [List.rdropWhile, List.reverse_append, List.dropWhile_append_of_pos (colon_passes h), List.rdropWhile]

lemma resolve_append {u v : Bytes} (hu : 0 ∉ u) (hv : 0 ∉ v) (hcolon : byte ':' ∉ v) :
    resolve (u ++ v) = ⟨u.rdropWhile (fun c => c != byte ':'), walk (u.rtakeWhile (fun c => c != byte ':') ++ v)⟩ := by
  have htext : (u ++ v).takeWhile (fun c => c != 0) = u ++ v := by
    refine List.takeWhile_eq_self_iff.mpr (fun c hc => ?_)
    have hne : c ≠ 0 := by
      rintro rfl
      rcases List.mem_append.mp hc with hc | hc
      · exact hu hc
      · exact hv hc
    simpa using hne
  simp only [resolve, htext, rtakeWhile_append hcolon, rdropWhile_append hcolon]

lemma foldl_enter_entry {entry : Bytes} (h : entryError entry = none) (place : List Bytes) :
    (List.splitOn (byte '/') entry).foldl enter place = place ++ List.splitOn (byte '/') (entryBody entry) := by
  have hbody := foldl_enter _ (componentError_of_entryError h) place
  have hentry := entryBody_append entry
  split at hentry
  · rw [← hbody]
    conv_lhs => rw [← hentry]
    rw [show ascii "/" = byte '/' :: [] from rfl, List.splitOn_append_cons_self, List.foldl_append]
    rfl
  · rw [List.append_nil] at hentry
    rw [hentry] at hbody ⊢
    exact hbody

theorem accepted_entry_stays_below_root (root entry out : Bytes) (hroot : 0 ∉ root)
    (h : resolveUnder root entry = .ok out) :
    resolve out = (resolve root).below (List.splitOn (byte '/') (entryBody entry)) ∧
      (∀ name ∈ List.splitOn (byte '/') (entryBody entry), name ≠ []) ∧
      ∀ entry', resolveUnder root entry' = .ok out → entry' = entry := by
  obtain ⟨hout, hentry⟩ := resolveUnder_eq h
  obtain ⟨k, hk⟩ := bareRoot_append root
  have hcharacter := characterError_of_entryError hentry
  have hbase : 0 ∉ bareRoot root := by
    intro hmem
    rw [hk] at hroot
    exact hroot (List.mem_append_left _ hmem)
  have hnul : 0 ∉ byte '/' :: entry := by
    intro hmem
    rcases List.mem_cons.mp hmem with heq | hmem
    · exact absurd heq (by decide)
    · exact absurd (hcharacter _ hmem) (by decide)
  have hcolon : byte ':' ∉ byte '/' :: entry := by
    intro hmem
    rcases List.mem_cons.mp hmem with heq | hmem
    · exact absurd heq (by decide)
    · exact absurd (hcharacter _ hmem) (by decide)
  have hseparated : entry.map separated = entry := by
    refine (List.map_congr_left (fun c hc => ?_)).trans (List.map_id entry)
    rw [separated, if_neg, id]
    rintro rfl
    exact absurd (hcharacter _ hc) (by decide)
  have hslash : ∀ c ∈ List.replicate k (byte '/'), c = byte '/' := fun c hc => List.eq_of_mem_replicate hc
  refine ⟨?_, fun name hname => ?_, fun entry' h' => ?_⟩
  · have hthere : resolve root = ⟨(bareRoot root).rdropWhile (fun c => c != byte ':'),
        walk ((bareRoot root).rtakeWhile (fun c => c != byte ':'))⟩ := by
      conv_lhs => rw [hk]
      rw [resolve_append hbase (fun hmem => absurd (hslash _ hmem) (by decide))
        (fun hmem => absurd (hslash _ hmem) (by decide)), walk_slashes]
    rw [hout, hthere, resolve_append hbase hnul hcolon, walk_append, hseparated, foldl_enter_entry hentry]
    rfl
  · rintro rfl
    exact absurd (componentError_of_entryError hentry [] hname) (by decide)
  · have hsame := (resolveUnder_eq h').1.symm.trans hout
    exact (List.cons.inj (List.append_cancel_left hsame)).2

theorem accepted_entry_stays_below_card :
    resolve (ascii "sdmc:/switch/a/b.nro") =
        (resolve (ascii "sdmc:/switch//")).below (List.splitOn (byte '/') (entryBody (ascii "a/b.nro"))) ∧
      (∀ name ∈ List.splitOn (byte '/') (entryBody (ascii "a/b.nro")), name ≠ []) ∧
      ∀ entry', resolveUnder (ascii "sdmc:/switch//") entry' = .ok (ascii "sdmc:/switch/a/b.nro") →
        entry' = ascii "a/b.nro" :=
  accepted_entry_stays_below_root (ascii "sdmc:/switch//") (ascii "a/b.nro") _ (by decide) (by decide +kernel)

example : resolve (ascii "sdmc:/switch\\..\\a. /./b") = ⟨ascii "sdmc:", [ascii "a", ascii "b"]⟩ := by
  decide +kernel

end NsxManager.Core
