import NsxManager.Maintenance.Overlap

/-! A card with its directories: every file and every directory under the names that lead to it. -/

namespace NsxManager

open NsxManager.Core Maintenance

abbrev Path := List Bytes

inductive Node where
  | file (bytes : Bytes)
  | directory
  deriving DecidableEq

abbrev Disk := List (Path × Node)

namespace Disk

def node (d : Disk) (p : Path) : Option Node := d.lookup p

def isDirectory (d : Disk) (p : Path) : Bool := d.node p == some .directory

def erase (d : Disk) (p : Path) : Disk := d.filter (fun entry => entry.1 != p)

def nameIn (p q : Path) : Option Bytes := q.getLast?.filter (fun n => q == p ++ [n])

def children (d : Disk) (p : Path) : List Bytes := (d.filterMap (fun entry => nameIn p entry.1)).dedup

variable {d : Disk} {p q : Path} {n : Bytes}

lemma nameIn_eq_some : nameIn p q = some n ↔ q = p ++ [n] := by
  rw [nameIn, Option.filter_eq_some_iff]
  constructor
  · rintro ⟨_, h⟩
    exact eq_of_beq h
  · rintro rfl
    simp

lemma node_cons (entry : Path × Node) : node (entry :: d) p = if p = entry.1 then some entry.2 else d.node p := by
  obtain ⟨q, content⟩ := entry
  rw [node, List.lookup_cons]
  by_cases h : p = q
  · simp [h]
  · rw [if_neg h, beq_eq_false_iff_ne.mpr h, node]

lemma isSome_node : (d.node p).isSome = true ↔ p ∈ d.map Prod.fst := by
  induction d with
  | nil => simp [node]
  | cons entry d ih =>
    rw [node_cons, List.map_cons, List.mem_cons, ← ih]
    split <;> simp_all

lemma mem_children : n ∈ d.children p ↔ (d.node (p ++ [n])).isSome = true := by
  rw [isSome_node, children, List.mem_dedup, List.mem_filterMap, List.mem_map]
  simp only [nameIn_eq_some]

lemma node_erase (d : Disk) (p q : Path) : (d.erase p).node q = if q = p then none else d.node q := by
  induction d with
  | nil => simp [erase, node]
  | cons entry d ih =>
    rw [erase, List.filter_cons, node_cons]
    by_cases hentry : entry.1 = p
    · rw [if_neg (by simp [hentry]), ← erase, ih]
      split_ifs <;> simp_all
    · rw [if_pos (by simp [hentry]), node_cons, ← erase, ih]
      split_ifs <;> simp_all

lemma isDirectory_iff : d.isDirectory p = true ↔ d.node p = some .directory := by
  simp [isDirectory]

def height (d : Disk) : ℕ := (d.map (fun entry => entry.1.length + 1)).sum

lemma length_lt_height (h : (d.node p).isSome = true) : p.length < d.height := by
  rw [isSome_node, List.mem_map] at h
  obtain ⟨entry, hentry, rfl⟩ := h
  exact List.single_le_sum (fun _ _ => Nat.zero_le _) _ (List.mem_map.mpr ⟨entry, hentry, rfl⟩)

def Rooted (d : Disk) : Prop := ∀ p n, (d.node (p ++ [n])).isSome = true → d.node p = some .directory

structure IsTree (d : Disk) : Prop where
  parent : d.Rooted
  named : ∀ p n, (d.node (p ++ [n])).isSome = true → IsName n

instance (part : Bytes) : Decidable (IsName part) :=
  decidable_of_iff (part ≠ [] ∧ part ≠ ascii "." ∧ part ≠ ascii ".." ∧ byte '/' ∉ part)
    ⟨fun h => ⟨h.1, h.2.1, h.2.2.1, h.2.2.2⟩, fun h => ⟨h.1, h.2, h.3, h.4⟩⟩

lemma isTree_of_entries (h : ∀ entry ∈ d, entry.1 = [] ∨
    d.node entry.1.dropLast = some .directory ∧ ∀ n ∈ entry.1.getLast?, IsName n) : d.IsTree := by
  have hentry : ∀ p n, (d.node (p ++ [n])).isSome = true → d.node p = some .directory ∧ IsName n := by
    intro p n hnode
    obtain ⟨entry, hmem, heq⟩ := List.mem_map.mp (isSome_node.mp hnode)
    have hboth := (h entry hmem).resolve_left (by simp [heq])
    rw [heq, List.dropLast_concat, List.getLast?_concat] at hboth
    exact ⟨hboth.1, hboth.2 n rfl⟩
  exact ⟨fun p n hnode => (hentry p n hnode).1, fun p n hnode => (hentry p n hnode).2⟩

lemma Rooted.above (h : d.Rooted) {names : Path} (hd : (d.node (p ++ names)).isSome = true) :
    (d.node p).isSome = true := by
  induction names using List.reverseRecOn with
  | nil => rwa [List.append_nil] at hd
  | append_singleton names last ih =>
    rw [← List.append_assoc] at hd
    exact ih (by rw [h _ _ hd]; rfl)

lemma Rooted.child (h : d.Rooted) {names : Path} (hd : (d.node (p ++ n :: names)).isSome = true) :
    (d.node (p ++ [n])).isSome = true := by
  rw [← List.singleton_append, ← List.append_assoc] at hd
  exact h.above hd

lemma Rooted.none_below (h : d.Rooted) (hnone : d.node p = none) (names : Path) : d.node (p ++ names) = none := by
  cases hnode : d.node (p ++ names) with
  | none => rfl
  | some node =>
    have hpresent := h.above (show (d.node (p ++ names)).isSome = true by rw [hnode]; rfl)
    rw [hnone] at hpresent
    cases hpresent

lemma IsTree.named_of_mem (h : d.IsTree) {names : Path} (hd : (d.node (p ++ names)).isSome = true) :
    ∀ n ∈ names, IsName n := by
  induction names using List.reverseRecOn with
  | nil => exact fun _ hn => absurd hn List.not_mem_nil
  | append_singleton names last ih =>
    rw [← List.append_assoc] at hd
    intro n hn
    rcases List.mem_append.mp hn with hn | hn
    · exact ih (by rw [h.parent _ _ hd]; rfl) n hn
    · rw [List.mem_singleton.mp hn]
      exact h.named _ _ hd

section Moves

def rename (d : Disk) (source destination : Path) : Disk :=
  (d.filter (fun entry => !destination.isPrefixOf entry.1)).map (fun entry =>
    if source.isPrefixOf entry.1 then (destination ++ entry.1.drop source.length, entry.2) else entry)

/-- As on the console's file system, nothing may have the new name. -/
def movable (d : Disk) (source destination : Path) : Bool :=
  (d.node source).isSome && (d.node destination).isNone && !source.isPrefixOf destination &&
    !destination.isEmpty && d.isDirectory destination.dropLast

def create (d : Disk) (p : Path) : Disk :=
  (p.inits.filter (fun q => (d.node q).isNone)).map (fun q => (q, .directory)) ++ d

def creatable (d : Disk) (p : Path) : Bool := p.inits.all (fun q => (d.node q).all (· == .directory))

variable {source destination : Path}

lemma node_rename (hsource : ¬source <+: destination) (hdestination : ¬destination <+: source) (q : Path) :
    (d.rename source destination).node q =
      if destination <+: q then d.node (source ++ q.drop destination.length)
      else if source <+: q then none else d.node q := by
  induction d with
  | nil => simp [rename, node]
  | cons entry d ih =>
    rw [rename, List.filter_cons]
    by_cases hcovered : destination <+: entry.1
    · -- an entry under the new name goes, and it lay under the old one only if one path leads through the other
      rw [if_neg (by simpa using hcovered), ← rename, ih, node_cons, node_cons]
      have hapart : source ++ q.drop destination.length ≠ entry.1 := by
        intro heq
        exact (List.prefix_or_prefix_of_prefix hcovered (heq ▸ List.prefix_append _ _)).elim hdestination hsource
      have hother : ¬destination <+: q → q ≠ entry.1 := fun h heq => h (heq ▸ hcovered)
      split_ifs <;> simp_all
    · rw [if_pos (by simpa [← Bool.not_eq_true] using hcovered), List.map_cons]
      by_cases hmoved : source <+: entry.1
      · obtain ⟨r, hr⟩ := hmoved
        have hnew : (if source.isPrefixOf entry.1 = true then (destination ++ entry.1.drop source.length, entry.2)
            else entry) = (destination ++ r, entry.2) := by
          rw [if_pos (by simp [← hr]), ← hr, List.drop_left]
        rw [hnew, node_cons, ← rename, ih, node_cons, node_cons, ← hr]
        by_cases hq : destination <+: q
        · obtain ⟨r', rfl⟩ := hq
          simp only [List.prefix_append, if_true, List.drop_left, List.append_cancel_left_eq]
        · have hne : q ≠ destination ++ r := fun h => hq (h ▸ List.prefix_append _ _)
          have hother : ¬source <+: q → q ≠ source ++ r := fun h heq => h (heq ▸ List.prefix_append _ _)
          simp only [if_neg hne, if_neg hq]
          split_ifs <;> simp_all
      · have hkept : ∀ r, source ++ r ≠ entry.1 := fun r h => hmoved ⟨r, h⟩
        have hsame : (if source.isPrefixOf entry.1 = true then (destination ++ entry.1.drop source.length, entry.2)
            else entry) = entry := if_neg (by simpa using hmoved)
        rw [hsame, node_cons, ← rename, ih, node_cons, node_cons, if_neg (hkept _)]
        by_cases hq : q = entry.1
        · rw [if_pos hq, if_neg (hq ▸ hcovered), if_neg (hq ▸ hmoved), if_pos hq]
        · rw [if_neg hq, if_neg hq]

lemma movable_iff : d.movable source destination = true ↔
    (d.node source).isSome = true ∧ d.node destination = none ∧ ¬source <+: destination ∧ destination ≠ [] ∧
      d.node destination.dropLast = some .directory := by
  simp only [movable, Bool.and_eq_true, Option.isNone_iff_eq_none, Bool.not_eq_true', isDirectory_iff,
    ← Bool.not_eq_true, List.isPrefixOf_iff_prefix, List.isEmpty_iff, and_assoc, ne_eq]

lemma Rooted.not_above (hd : d.Rooted) (h : d.movable source destination = true) : ¬destination <+: source := by
  obtain ⟨hsource, hdestination, -⟩ := movable_iff.mp h
  rintro ⟨r, rfl⟩
  have hpresent := hd.above hsource
  rw [hdestination] at hpresent
  cases hpresent

variable (hd : d.Rooted) (h : d.movable source destination = true)
include hd h

lemma node_rename_destination (r : Path) :
    (d.rename source destination).node (destination ++ r) = d.node (source ++ r) := by
  rw [node_rename (movable_iff.mp h).2.2.1 (hd.not_above h), if_pos (List.prefix_append _ _), List.drop_left]

lemma node_rename_source (r : Path) : (d.rename source destination).node (source ++ r) = none := by
  have hdestination := hd.not_above h
  have hsource := (movable_iff.mp h).2.2.1
  rw [node_rename hsource hdestination, if_neg, if_pos (List.prefix_append _ _)]
  intro hbegins
  exact (List.prefix_or_prefix_of_prefix hbegins (List.prefix_append _ _)).elim hdestination hsource

lemma node_rename_other (hsource : ¬source <+: q) (hdestination : ¬destination <+: q) :
    (d.rename source destination).node q = d.node q := by
  rw [node_rename (movable_iff.mp h).2.2.1 (hd.not_above h), if_neg hdestination, if_neg hsource]

lemma Rooted.rename : (d.rename source destination).Rooted := by
  obtain ⟨-, hfree, hsource, hne, hparent⟩ := movable_iff.mp h
  intro q n hnode
  by_cases hmoved : destination <+: q
  · obtain ⟨r, rfl⟩ := hmoved
    rw [List.append_assoc, node_rename_destination hd h, ← List.append_assoc] at hnode
    rw [node_rename_destination hd h]
    exact hd _ _ hnode
  · by_cases hroot : destination <+: q ++ [n]
    · obtain rfl : destination = q ++ [n] := (List.prefix_concat_iff.mp hroot).resolve_right hmoved
      rw [List.dropLast_concat] at hparent
      rw [node_rename_other hd h (fun hq => hsource (hq.trans (List.prefix_append _ _))) hmoved]
      exact hparent
    · have hkept : ¬source <+: q ++ [n] := by
        rintro ⟨r, hr⟩
        rw [← hr, node_rename_source hd h] at hnode
        cases hnode
      rw [node_rename_other hd h hkept hroot] at hnode
      rw [node_rename_other hd h (fun hq => hkept (hq.trans (List.prefix_append _ _))) hmoved]
      exact hd _ _ hnode

omit hd h

lemma node_create (d : Disk) (p q : Path) :
    (d.create p).node q = if q <+: p ∧ d.node q = none then some .directory else d.node q := by
  have hnew : ∀ l : List Path,
      node (l.map (fun q => (q, Node.directory))) q = if q ∈ l then some .directory else none := by
    intro l
    induction l with
    | nil => rfl
    | cons q' l ih =>
      rw [List.map_cons, node_cons, ih]
      simp only [List.mem_cons]
      split_ifs <;> simp_all
  rw [create, node, List.lookup_append]
  change (node _ q).or (d.node q) = _
  rw [hnew]
  simp only [List.mem_filter, List.mem_inits, Option.isNone_iff_eq_none]
  split_ifs <;> rfl

end Moves

end Disk

/-- The order in which a directory's names are listed is a matter of that directory. -/
structure DirListing where
  names : Disk → Path → List Bytes
  nodup : ∀ d p, (names d p).Nodup
  complete : ∀ d p n, n ∈ names d p ↔ (d.node (p ++ [n])).isSome = true
  own : ∀ d d' p, (∀ n, (d.node (p ++ [n])).isSome = (d'.node (p ++ [n])).isSome) → names d p = names d' p

def sortNames : List Bytes → List Bytes := List.insertionSort (fun a b => (Ord.compare a b).isLE = true)

lemma perm_sortNames (l : List Bytes) : (sortNames l).Perm l := List.perm_insertionSort _ l

lemma pairwise_sortNames (l : List Bytes) : (sortNames l).Pairwise (fun a b => (Ord.compare a b).isLE = true) := by
  have : Std.Total (fun a b : Bytes => (Ord.compare a b).isLE = true) := ⟨fun a b => by
    rw [show Ord.compare b a = (Ord.compare a b).swap from Std.OrientedCmp.eq_swap]
    cases Ord.compare a b <;> simp⟩
  have : IsTrans Bytes (fun a b => (Ord.compare a b).isLE = true) := ⟨fun _ _ _ => Std.TransCmp.isLE_trans⟩
  exact List.pairwise_insertionSort _ l

lemma sortNames_congr {l l' : List Bytes} (h : l.Perm l') : sortNames l = sortNames l' := by
  refine List.Perm.eq_of_pairwise (fun a b _ _ hab hba => ?_) (pairwise_sortNames l) (pairwise_sortNames l')
    ((perm_sortNames l).trans (h.trans (perm_sortNames l').symm))
  exact Std.LawfulEqCmp.eq_of_compare (Std.OrientedCmp.isLE_antisymm hab hba)

def DirListing.sorted : DirListing where
  names d p := sortNames (d.children p)
  nodup d p := (perm_sortNames _).nodup_iff.mpr (List.nodup_dedup _)
  complete d p n := by rw [(perm_sortNames _).mem_iff, Disk.mem_children]
  own d d' p h := by
    refine sortNames_congr ((List.perm_ext_iff_of_nodup (List.nodup_dedup _) (List.nodup_dedup _)).mpr (fun n => ?_))
    rw [← Disk.children, ← Disk.children, Disk.mem_children, Disk.mem_children, h n]

structure Tree where
  disk : Disk
  isTree : disk.IsTree

end NsxManager
