import NsxManager.Directories
import NsxManager.Lib.Worklist

/-! The file store's two ways through a directory tree: listing its files, and removing it. -/

namespace NsxManager.SdTree

open NsxManager.Core Lib Maintenance

/-- What `readdir` gives of a directory, in an order of its own; the two names that stand for the directory itself and
its parent may be among them. -/
structure Readdir where
  entries : Disk → Path → List Bytes
  nodup : ∀ d p, (entries d p).Nodup
  complete : ∀ d p n, n ≠ ascii "." → n ≠ ascii ".." → (n ∈ entries d p ↔ (d.node (p ++ [n])).isSome = true)

/-- `std::sort` by descending length, which says nothing about texts of the same length. -/
structure LongestFirst where
  sort : List Bytes → List Bytes
  perm : ∀ l, (sort l).Perm l
  sorted : ∀ l, (sort l).Pairwise (fun a b => b.length ≤ a.length)

section Model

variable (R : Readdir) (d : Disk)

def resolve (path : Bytes) : Option Path := if path = [] then none else some (places path)

def opendir (path : Bytes) : Option (List Bytes) :=
  ((resolve path).filter (fun p => d.isDirectory p)).map (fun p => R.entries d p)

def stat (path : Bytes) : Option Node := (resolve path).bind (fun p => d.node p)

def childOf (relative name : Bytes) : Bytes := if relative.isEmpty then name else relative ++ ascii "/" ++ name

def absoluteOf (dir relative : Bytes) : Bytes := if relative.isEmpty then dir else dir ++ ascii "/" ++ relative

def scan (keeps : Node → Bool) (relative absolute : Bytes) : List Bytes → Visit Bytes Bytes
  | [] => ⟨[], []⟩
  | name :: names =>
    let rest := scan keeps relative absolute names
    if name = ascii "." ∨ name = ascii ".." then rest
    else
      match stat d (absolute ++ ascii "/" ++ name) with
      | none => rest
      | some node =>
        ⟨if node = .directory then childOf relative name :: rest.pushed else rest.pushed,
          if keeps node then childOf relative name :: rest.found else rest.found⟩

/-- A directory that cannot be opened is passed over. -/
def visit (keeps : Node → Bool) (dir relative : Bytes) : Visit Bytes Bytes :=
  match opendir R d (absoluteOf dir relative) with
  | none => ⟨[], []⟩
  | some names => scan d keeps relative (absoluteOf dir relative) names

def isFile (node : Node) : Bool := node != .directory

def isDir (node : Node) : Bool := node == .directory

/-- There is no result while the stack is not empty after so many visits. -/
def listFilesRecursive (fuel : ℕ) (dir : Bytes) : Option (List Bytes) := walk (visit R d isFile dir) fuel [[]] []

def listDirectoriesBelow (fuel : ℕ) (dir : Bytes) : Option (List Bytes) := walk (visit R d isDir dir) fuel [[]] []

/-- `std::remove` and `rmdir` take a file, or a directory with nothing in it, unless the card refuses. -/
def discard (refuses : Path → Bool) (accepts : Node → Bool) (path : Bytes) : Disk :=
  match resolve path with
  | none => d
  | some p =>
    if !refuses p && (d.node p).any accepts && (d.children p).isEmpty then d.erase p else d

def remove (refuses : Path → Bool) (path : Bytes) : Disk := discard d refuses (fun _ => true) path

def rmdir (refuses : Path → Bool) (path : Bytes) : Disk := discard d refuses isDir path

def removeTree (order : LongestFirst) (refuses : Path → Bool) (fuel : ℕ) (dir : Bytes) : Option (Bool × Disk) := do
  let files ← listFilesRecursive R d fuel dir
  let d := files.foldl (fun d relative => remove d refuses (dir ++ ascii "/" ++ relative)) d
  let directories ← listDirectoriesBelow R d fuel dir
  let d := (order.sort directories).foldl (fun d relative => rmdir d refuses (dir ++ ascii "/" ++ relative)) d
  let d := rmdir d refuses dir
  return ((stat d dir).isNone, d)

end Model

section Names

variable {dir relative name : Bytes}

lemma childOf_ne_nil (h : IsName name) : childOf relative name ≠ [] := by
  rw [childOf]
  split
  · exact h.ne_nil
  · simp [h.ne_nil]

lemma absoluteOf_of_ne_nil (h : relative ≠ []) : absoluteOf dir relative = dir ++ ascii "/" ++ relative := by
  rw [absoluteOf, if_neg (by simpa using h)]

lemma absoluteOf_childOf (h : IsName name) :
    absoluteOf dir (childOf relative name) = absoluteOf dir relative ++ ascii "/" ++ name := by
  rw [absoluteOf_of_ne_nil (childOf_ne_nil h), childOf, absoluteOf]
  split <;> simp

def place (dir relative : Bytes) : Path := places (absoluteOf dir relative)

lemma places_child (path : Bytes) (h : IsName name) : places (path ++ ascii "/" ++ name) = places path ++ [name] := by
  have hslash : path ++ ascii "/" ++ name = path ++ byte '/' :: name := List.append_assoc ..
  rw [hslash, places_append, List.splitOn_eq_singleton h.bare, List.foldl_cons, List.foldl_nil, descend_of_isName h]

lemma place_childOf (h : IsName name) : place dir (childOf relative name) = place dir relative ++ [name] := by
  rw [place, absoluteOf_childOf h, places_child _ h, place]

def spell (relative : Bytes) (names : Path) : Bytes := names.foldl childOf relative

lemma place_spell {names : Path} (h : ∀ n ∈ names, IsName n) :
    place dir (spell relative names) = place dir relative ++ names := by
  induction names generalizing relative with
  | nil => simp [spell]
  | cons n names ih =>
    rw [spell, List.foldl_cons, ← spell, ih (fun m hm => h m (List.mem_cons_of_mem _ hm)),
      place_childOf (h n List.mem_cons_self), List.append_assoc, List.singleton_append]

lemma spell_concat (relative : Bytes) (names : Path) (n : Bytes) :
    spell relative (names ++ [n]) = childOf (spell relative names) n := by
  simp [spell]

lemma spell_ne_nil {names : Path} (hne : names ≠ []) (h : ∀ n ∈ names, IsName n) : spell relative names ≠ [] := by
  induction names using List.reverseRecOn with
  | nil => exact absurd rfl hne
  | append_singleton names n _ =>
    rw [spell_concat]
    exact childOf_ne_nil (h n (by simp))

lemma spell_of_ne_nil {names : Path} (h : relative ≠ []) :
    spell relative names = relative ++ names.flatMap (ascii "/" ++ ·) := by
  induction names generalizing relative with
  | nil => simp [spell]
  | cons n names ih =>
    have hchild : childOf relative n = relative ++ ascii "/" ++ n := by rw [childOf, if_neg (by simpa using h)]
    rw [spell, List.foldl_cons, ← spell, hchild, ih (by simp [h])]
    simp

lemma intercalate_cons (separator n : Bytes) (names : Path) :
    separator.intercalate (n :: names) = n ++ names.flatMap (separator ++ ·) := by
  induction names generalizing n with
  | nil => simp [List.intercalate]
  | cons m names ih =>
    rw [List.flatMap_cons, List.append_assoc, ← ih m]
    simp [List.intercalate]

lemma spell_nil {names : Path} (h : ∀ n ∈ names, IsName n) : spell [] names = (ascii "/").intercalate names := by
  cases names with
  | nil => rfl
  | cons n names => rw [intercalate_cons, ← spell_of_ne_nil (h n List.mem_cons_self).ne_nil, spell, spell]; rfl

lemma length_childOf (h : IsName name) : relative.length < (childOf relative name).length := by
  have hname : 0 < name.length := List.length_pos_iff.mpr h.ne_nil
  rw [childOf]
  split
  · simp_all
  · simp only [List.length_append]
    omega

end Names

section Visits

variable {R : Readdir} {d : Disk} {keeps kind : Node → Bool} {dir relative : Bytes}

def ofKind (d : Disk) (kind : Node → Bool) (absolute : Bytes) (names : List Bytes) : List Bytes :=
  names.filter (fun name =>
    !(name = ascii "." || name = ascii "..") && (stat d (absolute ++ ascii "/" ++ name)).any kind)

lemma ofKind_cons {absolute name : Bytes} {names : List Bytes} (h : ¬(name = ascii "." ∨ name = ascii "..")) :
    ofKind d kind absolute (name :: names) =
      if (stat d (absolute ++ ascii "/" ++ name)).any kind then name :: ofKind d kind absolute names
      else ofKind d kind absolute names := by
  have hname : (!(decide (name = ascii ".") || decide (name = ascii ".."))) = true := by simpa using h
  rw [ofKind, List.filter_cons, hname, Bool.true_and, ofKind]

lemma ofKind_dot {absolute name : Bytes} {names : List Bytes} (h : name = ascii "." ∨ name = ascii "..") :
    ofKind d kind absolute (name :: names) = ofKind d kind absolute names := by
  have hname : (!(decide (name = ascii ".") || decide (name = ascii ".."))) = false := by
    simpa [or_iff_not_imp_left] using h
  rw [ofKind, List.filter_cons, hname, Bool.false_and, if_neg Bool.false_ne_true, ofKind]

lemma scan_eq (relative absolute : Bytes) (names : List Bytes) : scan d keeps relative absolute names =
    ⟨(ofKind d isDir absolute names).map (childOf relative), (ofKind d keeps absolute names).map (childOf relative)⟩ := by
  induction names with
  | nil => rfl
  | cons name names ih =>
    rw [scan, ih]
    by_cases hdot : name = ascii "." ∨ name = ascii ".."
    · rw [if_pos hdot, ofKind_dot hdot, ofKind_dot hdot]
    · rw [if_neg hdot, ofKind_cons hdot, ofKind_cons hdot]
      cases stat d (absolute ++ ascii "/" ++ name) with
      | none => rfl
      | some node =>
        cases node with
        | file bytes => cases hkeeps : keeps (.file bytes) <;> simp [isDir, hkeeps]
        | directory => cases hkeeps : keeps .directory <;> simp [isDir, hkeeps]

lemma stat_child {absolute name : Bytes} (h : IsName name) :
    stat d (absolute ++ ascii "/" ++ name) = d.node (places absolute ++ [name]) := by
  rw [stat, resolve, if_neg (by simp [h.ne_nil]), Option.bind_some, places_child _ h]

lemma mem_ofKind (hd : d.IsTree) {absolute n : Bytes} :
    n ∈ ofKind d kind absolute (R.entries d (places absolute)) ↔
      ∃ node, d.node (places absolute ++ [n]) = some node ∧ kind node = true := by
  simp only [ofKind, List.mem_filter, Bool.and_eq_true, Bool.not_eq_true', Bool.or_eq_false_iff, decide_eq_false_iff_not]
  constructor
  · rintro ⟨hentry, ⟨hdot, hparent⟩, hkind⟩
    have hpresent := (R.complete d _ n hdot hparent).mp hentry
    rw [stat_child (hd.named _ _ hpresent), Option.any_eq_true] at hkind
    exact hkind
  · rintro ⟨node, hnode, hkind⟩
    have hpresent : (d.node (places absolute ++ [n])).isSome = true := by rw [hnode]; rfl
    have hname := hd.named _ _ hpresent
    refine ⟨(R.complete d _ n hname.ne_dot hname.ne_parent).mpr hpresent, ⟨hname.ne_dot, hname.ne_parent⟩, ?_⟩
    rw [stat_child hname, hnode]
    exact hkind

lemma visit_eq (R : Readdir) (hd : d.IsTree) (hdir : dir ≠ []) (keeps : Node → Bool) (relative : Bytes) :
    ∃ names : (Node → Bool) → List Bytes,
      (∀ kind, (names kind).Nodup ∧ ∀ n, n ∈ names kind ↔
        ∃ node, d.node (place dir relative ++ [n]) = some node ∧ kind node = true) ∧
      visit R d keeps dir relative =
        ⟨(names isDir).map (childOf relative), (names keeps).map (childOf relative)⟩ := by
  have habsolute : absoluteOf dir relative ≠ [] := by
    rw [absoluteOf]
    split
    · exact hdir
    · simp [hdir]
  by_cases hopen : d.isDirectory (place dir relative) = true
  · refine ⟨fun kind => ofKind d kind (absoluteOf dir relative) (R.entries d (place dir relative)),
      fun kind => ⟨(R.nodup d _).filter _, fun n => mem_ofKind hd⟩, ?_⟩
    have hopendir : opendir R d (absoluteOf dir relative) = some (R.entries d (place dir relative)) := by
      rw [opendir, resolve, if_neg habsolute, ← place, Option.filter_some_pos hopen]
      rfl
    rw [visit, hopendir]
    exact scan_eq _ _ _
  · refine ⟨fun _ => [], fun kind => ⟨List.nodup_nil, fun n => ?_⟩, ?_⟩
    · refine iff_of_false List.not_mem_nil ?_
      rintro ⟨node, hnode, -⟩
      exact hopen (Disk.isDirectory_iff.mpr (hd.parent _ _ (by rw [hnode]; rfl)))
    · have hopendir : opendir R d (absoluteOf dir relative) = none := by
        rw [opendir, resolve, if_neg habsolute, ← place, Option.filter_some_neg (Bool.not_eq_true _ ▸ hopen)]
        rfl
      rw [visit, hopendir]
      rfl

lemma finds_visit_iff (hd : d.IsTree) (hdir : dir ≠ []) {b : Bytes} :
    Finds (visit R d keeps dir) relative b ↔
      ∃ names ≠ [], ∃ node, d.node (place dir relative ++ names) = some node ∧ keeps node = true ∧
        b = spell relative names := by
  constructor
  · intro h
    induction h with
    | @here relative b h =>
      obtain ⟨names, hnames, hvisit⟩ := visit_eq R hd hdir keeps relative
      rw [hvisit, List.mem_map] at h
      obtain ⟨n, hn, rfl⟩ := h
      obtain ⟨node, hnode, hkeeps⟩ := ((hnames keeps).2 n).mp hn
      exact ⟨[n], List.cons_ne_nil _ _, node, hnode, hkeeps, rfl⟩
    | @beyond relative child b h _ ih =>
      obtain ⟨names, hnames, hvisit⟩ := visit_eq R hd hdir keeps relative
      rw [hvisit, List.mem_map] at h
      obtain ⟨n, hn, rfl⟩ := h
      obtain ⟨node, hnode, -⟩ := ((hnames isDir).2 n).mp hn
      obtain ⟨more, -, last, hlast, hkeeps, rfl⟩ := ih
      have hname : IsName n := hd.named _ _ (by rw [hnode]; rfl)
      rw [place_childOf hname, List.append_assoc] at hlast
      exact ⟨n :: more, List.cons_ne_nil _ _, last, hlast, hkeeps, rfl⟩
  · rintro ⟨names, hne, node, hnode, hkeeps, rfl⟩
    induction names generalizing relative with
    | nil => exact absurd rfl hne
    | cons n more ih =>
      obtain ⟨names, hnames, hvisit⟩ := visit_eq R hd hdir keeps relative
      have hpresent : (d.node (place dir relative ++ [n])).isSome = true := hd.parent.child (by rw [hnode]; rfl)
      cases more with
      | nil =>
        refine .here ?_
        rw [hvisit]
        exact List.mem_map.mpr ⟨n, ((hnames keeps).2 n).mpr ⟨node, hnode, hkeeps⟩, rfl⟩
      | cons m more =>
        have happend : place dir relative ++ n :: m :: more = (place dir relative ++ [n]) ++ m :: more := by simp
        have hname : IsName n := hd.named _ _ hpresent
        have hdirectory : d.node (place dir relative ++ [n]) = some .directory := by
          rw [happend] at hnode
          exact hd.parent _ m (hd.parent.child (by rw [hnode]; rfl))
        refine .beyond (show childOf relative n ∈ _ from ?_) (ih (List.cons_ne_nil _ _) ?_)
        · rw [hvisit]
          exact List.mem_map.mpr ⟨n, ((hnames isDir).2 n).mpr ⟨_, hdirectory, rfl⟩, rfl⟩
        · rw [place_childOf hname, ← happend]
          exact hnode

lemma place_of_finds (hd : d.IsTree) (hdir : dir ≠ []) {b : Bytes} (h : Finds (visit R d keeps dir) relative b) :
    ∃ names ≠ [], place dir b = place dir relative ++ names := by
  obtain ⟨names, hne, node, hnode, -, rfl⟩ := (finds_visit_iff hd hdir).mp h
  exact ⟨names, hne, place_spell (hd.named_of_mem (by rw [hnode]; rfl))⟩

lemma apart_visit (hd : d.IsTree) (hdir : dir ≠ []) (relative : Bytes) : Apart (visit R d keeps dir) relative := by
  obtain ⟨names, hnames, hvisit⟩ := visit_eq R hd hdir keeps relative
  have hname : ∀ kind, ∀ n ∈ names kind, IsName n := by
    intro kind n hn
    obtain ⟨node, hnode, -⟩ := ((hnames kind).2 n).mp hn
    exact hd.named _ _ (by rw [hnode]; rfl)
  have hinj : ∀ kind, ∀ n ∈ names kind, ∀ kind', ∀ n' ∈ names kind', ∀ more,
      place dir (childOf relative n) = place dir (childOf relative n') ++ more → n = n' ∧ more = [] := by
    intro kind n hn kind' n' hn' more h
    rw [place_childOf (hname kind n hn), place_childOf (hname kind' n' hn'), List.append_assoc,
      List.append_cancel_left_eq] at h
    simpa [eq_comm] using h
  refine ⟨?_, ?_, ?_⟩
  · rw [hvisit]
    refine List.Nodup.map_on (fun n hn n' hn' h => ?_) (hnames keeps).1
    exact (hinj keeps n hn keeps n' hn' [] (by rw [h, List.append_nil])).1
  · rw [hvisit]
    intro b hb a' ha' hfinds
    obtain ⟨n, hn, rfl⟩ := List.mem_map.mp hb
    obtain ⟨n', hn', rfl⟩ := List.mem_map.mp ha'
    obtain ⟨more, hmore, hplace⟩ := place_of_finds hd hdir hfinds
    exact hmore (hinj keeps n hn isDir n' hn' more hplace).2
  · rw [hvisit]
    refine List.pairwise_map.mpr ((hnames isDir).1.imp_of_mem (fun {n n'} hn hn' hne b hb hb' => hne ?_))
    obtain ⟨more, -, hplace⟩ := place_of_finds hd hdir hb
    obtain ⟨more', -, hplace'⟩ := place_of_finds hd hdir hb'
    rw [hplace, place_childOf (hname isDir n hn), place_childOf (hname isDir n' hn'), List.append_assoc,
      List.append_assoc, List.append_cancel_left_eq] at hplace'
    simpa using (List.cons.inj hplace').1

lemma rank_visit (hd : d.IsTree) (hdir : dir ≠ []) :
    ∀ relative, ∀ child ∈ (visit R d keeps dir relative).pushed,
      d.height - (place dir child).length < d.height - (place dir relative).length := by
  intro relative child hchild
  obtain ⟨names, hnames, hvisit⟩ := visit_eq R hd hdir keeps relative
  rw [hvisit, List.mem_map] at hchild
  obtain ⟨n, hn, rfl⟩ := hchild
  obtain ⟨node, hnode, -⟩ := ((hnames isDir).2 n).mp hn
  have hpresent : (d.node (place dir relative ++ [n])).isSome = true := by rw [hnode]; rfl
  have hheight := Disk.length_lt_height hpresent
  rw [place_childOf (hd.named _ _ hpresent)]
  simp only [List.length_append, List.length_singleton] at hheight ⊢
  omega

lemma walk_visit (R : Readdir) (hd : d.IsTree) (hdir : dir ≠ []) (keeps : Node → Bool) :
    ∃ n found, (∀ fuel, n ≤ fuel → walk (visit R d keeps dir) fuel [[]] [] = some found) ∧ found.Nodup ∧
      ∀ b, b ∈ found ↔ ∃ names ≠ [], ∃ node, d.node (places dir ++ names) = some node ∧ keeps node = true ∧
        b = spell [] names := by
  obtain ⟨n, hn⟩ := walk_ends (fun relative child (h : child ∈ (visit R d keeps dir relative).pushed) =>
    rank_visit hd hdir relative child h) [[]]
  obtain ⟨found, hfound⟩ := hn []
  refine ⟨n, found, fun fuel hfuel => walk_mono hfound hfuel, ?_, fun b => ?_⟩
  · exact nodup_walk (apart_visit hd hdir) hfound List.nodup_nil (fun _ _ _ h => absurd h List.not_mem_nil)
      (List.pairwise_singleton _ _)
  · rw [mem_walk hfound]
    simp only [List.not_mem_nil, false_or, List.mem_singleton, exists_eq_left]
    exact finds_visit_iff hd hdir

end Visits

section Removal

variable {d : Disk} {refuses : Path → Bool} {accepts : Node → Bool} {dir path : Bytes}

lemma isTree_erase {p : Path} (hd : d.IsTree) (hempty : d.children p = []) : (d.erase p).IsTree := by
  have hpresent : ∀ q n, ((d.erase p).node (q ++ [n])).isSome = true → (d.node (q ++ [n])).isSome = true := by
    intro q n h
    rw [Disk.node_erase] at h
    split at h
    · cases h
    · exact h
  refine ⟨fun q n h => ?_, fun q n h => hd.named q n (hpresent q n h)⟩
  rw [Disk.node_erase, if_neg, hd.parent q n (hpresent q n h)]
  rintro rfl
  have hchild := Disk.mem_children.mpr (hpresent q n h)
  rw [hempty] at hchild
  cases hchild

lemma isTree_discard (hd : d.IsTree) : (discard d refuses accepts path).IsTree := by
  rw [discard]
  split
  · exact hd
  · split
    · next h =>
      simp only [Bool.and_eq_true, List.isEmpty_iff] at h
      exact isTree_erase hd h.2
    · exact hd

lemma isTree_foldl {f : Disk → Bytes → Disk} (hf : ∀ d relative, Disk.IsTree d → (f d relative).IsTree) (hd : d.IsTree)
    (l : List Bytes) : (l.foldl f d).IsTree := by
  induction l generalizing d with
  | nil => exact hd
  | cons relative l ih => exact ih (hf d relative hd)

lemma node_discard {p : Path} (hpath : resolve path = some p) (hrefuses : ∀ p, refuses p = false)
    (haccepts : ∀ node, d.node p = some node → accepts node = true) (hempty : d.children p = []) (q : Path) :
    (discard d refuses accepts path).node q = if q = p then none else d.node q := by
  simp only [discard, hpath, hrefuses, hempty]
  cases hnode : d.node p with
  | none =>
    rw [if_neg (by simp)]
    split
    · next heq => rw [heq, hnode]
    · rfl
  | some node =>
    rw [if_pos (by simp [haccepts node hnode]), Disk.node_erase]

lemma children_of_not_directory {p : Path} (hd : d.IsTree) (h : d.node p ≠ some .directory) : d.children p = [] := by
  refine List.eq_nil_iff_forall_not_mem.mpr (fun n hn => h ?_)
  exact hd.parent p n (Disk.mem_children.mp hn)

lemma resolve_below {relative : Bytes} (h : relative ≠ []) :
    resolve (dir ++ ascii "/" ++ relative) = some (place dir relative) := by
  rw [resolve, if_neg (by simp [h]), place, absoluteOf_of_ne_nil h]

lemma node_foldl_remove (hrefuses : ∀ p, refuses p = false) {l : List Bytes} (hd : d.IsTree)
    (hl : ∀ relative ∈ l, relative ≠ [] ∧ d.node (place dir relative) ≠ some .directory) (q : Path) :
    (l.foldl (fun d relative => remove d refuses (dir ++ ascii "/" ++ relative)) d).node q =
      if q ∈ l.map (place dir) then none else d.node q := by
  induction l generalizing d with
  | nil => simp
  | cons relative l ih =>
    obtain ⟨hne, hfile⟩ := hl relative List.mem_cons_self
    have hremoved : ∀ q, (remove d refuses (dir ++ ascii "/" ++ relative)).node q =
        if q = place dir relative then none else d.node q :=
      node_discard (resolve_below hne) hrefuses (fun _ _ => rfl) (children_of_not_directory hd hfile)
    have htree : (remove d refuses (dir ++ ascii "/" ++ relative)).IsTree := isTree_discard hd
    rw [List.foldl_cons, ih htree, hremoved, List.map_cons]
    · simp only [List.mem_cons]
      split_ifs <;> tauto
    · intro relative' hrelative'
      obtain ⟨hne', hfile'⟩ := hl relative' (List.mem_cons_of_mem _ hrelative')
      refine ⟨hne', ?_⟩
      rw [hremoved]
      split
      · exact (Option.some_ne_none _).symm
      · exact hfile'

structure Remaining (d : Disk) (dir : Bytes) (l : List Bytes) : Prop where
  isTree : d.IsTree
  nodup : l.Nodup
  sorted : l.Pairwise (fun a b => b.length ≤ a.length)
  directories : ∀ relative ∈ l, ∃ names ≠ [], d.node (places dir ++ names) = some .directory ∧ relative = spell [] names
  all : ∀ names ≠ [], (d.node (places dir ++ names)).isSome = true → spell [] names ∈ l

lemma place_of_node (hd : d.IsTree) {names : Path} (h : (d.node (places dir ++ names)).isSome = true) :
    place dir (spell [] names) = places dir ++ names :=
  place_spell (hd.named_of_mem h)

lemma Remaining.children_eq_nil {relative : Bytes} {l : List Bytes} (h : Remaining d dir (relative :: l)) :
    d.children (place dir relative) = [] := by
  obtain ⟨names, -, hnode, rfl⟩ := h.directories relative List.mem_cons_self
  rw [place_of_node h.isTree (by rw [hnode]; rfl)]
  refine List.eq_nil_iff_forall_not_mem.mpr (fun n hn => ?_)
  have hpresent := Disk.mem_children.mp hn
  have hlonger : (spell [] names).length < (spell [] (names ++ [n])).length := by
    rw [spell_concat]
    exact length_childOf (h.isTree.named _ _ hpresent)
  rw [List.append_assoc] at hpresent
  rcases List.mem_cons.mp (h.all (names ++ [n]) (by simp) hpresent) with heq | hmem
  · rw [heq] at hlonger
    exact lt_irrefl _ hlonger
  · have hshorter := (List.pairwise_cons.mp h.sorted).1 _ hmem
    omega

lemma Remaining.node_rmdir {relative : Bytes} {l : List Bytes} (h : Remaining d dir (relative :: l))
    (hrefuses : ∀ p, refuses p = false) (q : Path) :
    (rmdir d refuses (dir ++ ascii "/" ++ relative)).node q = if q = place dir relative then none else d.node q := by
  obtain ⟨names, hne, hnode, rfl⟩ := h.directories relative List.mem_cons_self
  have hspelled : spell [] names ≠ [] := spell_ne_nil hne (h.isTree.named_of_mem (by rw [hnode]; rfl))
  refine node_discard (resolve_below hspelled) hrefuses (fun node hnode' => ?_) h.children_eq_nil q
  rw [place_of_node h.isTree (by rw [hnode]; rfl), hnode] at hnode'
  exact Option.some.inj hnode' ▸ rfl

lemma Remaining.step {relative : Bytes} {l : List Bytes} (h : Remaining d dir (relative :: l))
    (hrefuses : ∀ p, refuses p = false) : Remaining (rmdir d refuses (dir ++ ascii "/" ++ relative)) dir l := by
  have hnode := h.node_rmdir hrefuses
  obtain ⟨hfirst, hnodup⟩ := List.nodup_cons.mp h.nodup
  refine ⟨isTree_discard h.isTree, hnodup, (List.pairwise_cons.mp h.sorted).2, fun relative' hmem => ?_,
    fun names hne hpresent => ?_⟩
  · obtain ⟨names, hne, hdirectory, rfl⟩ := h.directories relative' (List.mem_cons_of_mem _ hmem)
    refine ⟨names, hne, ?_, rfl⟩
    rw [hnode, if_neg, hdirectory]
    obtain ⟨first, -, hfirst', rfl⟩ := h.directories relative List.mem_cons_self
    rw [place_of_node h.isTree (by rw [hfirst']; rfl), List.append_cancel_left_eq]
    rintro rfl
    exact hfirst hmem
  · rw [hnode] at hpresent
    split at hpresent
    · cases hpresent
    · next hother =>
      rcases List.mem_cons.mp (h.all names hne hpresent) with heq | hmem
      · rw [← heq, place_of_node h.isTree hpresent] at hother
        exact absurd rfl hother
      · exact hmem

lemma Remaining.node_foldl {l : List Bytes} (h : Remaining d dir l) (hrefuses : ∀ p, refuses p = false) (q : Path) :
    (l.foldl (fun d relative => rmdir d refuses (dir ++ ascii "/" ++ relative)) d).node q =
      if places dir <+: q ∧ q ≠ places dir then none else d.node q := by
  induction l generalizing d with
  | nil =>
    rw [List.foldl_nil]
    split
    · next hbelow =>
      obtain ⟨⟨names, rfl⟩, hne⟩ := hbelow
      cases hnode : d.node (places dir ++ names) with
      | none => rfl
      | some node => exact absurd (h.all names (by simpa using hne) (by rw [hnode]; rfl)) List.not_mem_nil
    · rfl
  | cons relative l ih =>
    obtain ⟨names, hne, hnode, rfl⟩ := h.directories relative List.mem_cons_self
    rw [List.foldl_cons, ih (h.step hrefuses), h.node_rmdir hrefuses, place_of_node h.isTree (by rw [hnode]; rfl)]
    split_ifs with hbelow heq
    · rfl
    · exact absurd ⟨⟨names, heq.symm⟩, by rw [heq]; simpa using hne⟩ hbelow
    · rfl

end Removal

section Whole

variable {R : Readdir} {d : Disk} {dir : Bytes}

lemma isDirectory_of_opendir (h : (opendir R d dir).isSome = true) : dir ≠ [] ∧ d.node (places dir) = some .directory := by
  rw [opendir, resolve] at h
  split at h
  · cases h
  · next hne =>
    refine ⟨hne, ?_⟩
    by_contra hnot
    rw [Option.filter_some_neg (by rw [← Bool.not_eq_true, Disk.isDirectory_iff]; exact hnot)] at h
    cases h

lemma remaining_of_removed (order : LongestFirst) {refuses : Path → Bool} (hrefuses : ∀ p, refuses p = false)
    (hd : d.IsTree) {files directories : List Bytes} {d' : Disk}
    (hd' : d' = files.foldl (fun d relative => remove d refuses (dir ++ ascii "/" ++ relative)) d)
    (hfiles : ∀ b, b ∈ files ↔ ∃ names ≠ [], ∃ node, d.node (places dir ++ names) = some node ∧ isFile node = true ∧
      b = spell [] names)
    (hnodup : directories.Nodup)
    (hdirectories : ∀ b, b ∈ directories ↔ ∃ names ≠ [], ∃ node, d'.node (places dir ++ names) = some node ∧
      isDir node = true ∧ b = spell [] names) :
    Remaining d' dir (order.sort directories) ∧
      ∀ q, ¬(places dir <+: q ∧ q ≠ places dir) → d'.node q = d.node q := by
  have hgone : ∀ q, d'.node q = if q ∈ files.map (place dir) then none else d.node q := by
    rw [hd']
    refine node_foldl_remove hrefuses hd (fun relative hrelative => ?_)
    obtain ⟨names, hne, node, hnode, hfile, rfl⟩ := (hfiles relative).mp hrelative
    have hpresent : (d.node (places dir ++ names)).isSome = true := by rw [hnode]; rfl
    refine ⟨spell_ne_nil hne (hd.named_of_mem hpresent), ?_⟩
    rw [place_of_node hd hpresent, hnode]
    rintro ⟨⟩
    cases hfile
  have hisTree : d'.IsTree := by
    rw [hd']
    exact isTree_foldl (fun _ _ h => isTree_discard h) hd files
  refine ⟨⟨hisTree, (order.perm _).nodup_iff.mpr hnodup, order.sorted _, fun relative hrelative => ?_,
    fun names hne hpresent => ?_⟩, fun q hq => ?_⟩
  · obtain ⟨names, hne, node, hnode, hdir', rfl⟩ := (hdirectories relative).mp ((order.perm _).mem_iff.mp hrelative)
    exact ⟨names, hne, hnode.trans (congrArg some (eq_of_beq hdir')), rfl⟩
  · refine (order.perm _).mem_iff.mpr ((hdirectories _).mpr ?_)
    obtain ⟨node, hnode⟩ := Option.isSome_iff_exists.mp hpresent
    refine ⟨names, hne, node, hnode, ?_, rfl⟩
    by_contra hfile
    rw [hgone] at hnode
    split at hnode
    · cases hnode
    · next hkept =>
      refine hkept (List.mem_map.mpr ⟨spell [] names, (hfiles _).mpr ⟨names, hne, node, hnode, ?_, rfl⟩, ?_⟩)
      · simpa [isFile, isDir] using hfile
      · exact place_of_node hd (by rw [hnode]; rfl)
  · rw [hgone, if_neg]
    intro hmem
    obtain ⟨relative, hrelative, rfl⟩ := List.mem_map.mp hmem
    obtain ⟨names, hne, node, hnode, -, rfl⟩ := (hfiles relative).mp hrelative
    rw [place_of_node hd (by rw [hnode]; rfl)] at hq
    exact hq ⟨List.prefix_append _ _, by simpa using hne⟩

end Whole

theorem trees_are_listed_and_removed (R : Readdir) (order : LongestFirst) (tree : Tree) (dir : Bytes)
    (hdir : (opendir R tree.disk dir).isSome = true) :
    ∃ n, ∀ fuel, n ≤ fuel →
      (∃ files, listFilesRecursive R tree.disk fuel dir = some files ∧ files.Nodup ∧
        ∀ relative, relative ∈ files ↔ ∃ names ≠ [], ∃ bytes,
          tree.disk.node (places dir ++ names) = some (.file bytes) ∧ relative = (ascii "/").intercalate names) ∧
      ∀ refuses, (∀ p, refuses p = false) → ∃ d, removeTree R tree.disk order refuses fuel dir = some (true, d) ∧
        ∀ p, d.node p = if places dir <+: p then none else tree.disk.node p := by
  obtain ⟨hne, hdirectory⟩ := isDirectory_of_opendir hdir
  obtain ⟨n, files, hwalk, hnodup, hfiles⟩ := walk_visit R tree.isTree hne isFile
  have hnone : ∀ p : Path, (fun _ : Path => false) p = false := fun _ => rfl
  set d₁ := files.foldl (fun d relative => remove d (fun _ => false) (dir ++ ascii "/" ++ relative)) tree.disk with hd₁
  have hisTree : d₁.IsTree := isTree_foldl (fun _ _ h => isTree_discard h) tree.isTree files
  obtain ⟨n', directories, hwalk', hnodup', hdirectories⟩ := walk_visit R hisTree hne isDir
  obtain ⟨hremaining, hkept⟩ := remaining_of_removed order hnone tree.isTree hd₁ hfiles hnodup' hdirectories
  refine ⟨max n n', fun fuel hfuel => ⟨⟨files, hwalk fuel (le_of_max_le_left hfuel), hnodup, fun relative => ?_⟩,
    fun refuses hrefuses => ?_⟩⟩
  · rw [hfiles]
    refine exists_congr (fun names => and_congr_right (fun _ => ⟨?_, ?_⟩))
    · rintro ⟨node, hnode, hfile, rfl⟩
      cases node with
      | file bytes => exact ⟨bytes, hnode, spell_nil (tree.isTree.named_of_mem (by rw [hnode]; rfl))⟩
      | directory => cases hfile
    · rintro ⟨bytes, hnode, rfl⟩
      exact ⟨.file bytes, hnode, rfl, (spell_nil (tree.isTree.named_of_mem (by rw [hnode]; rfl))).symm⟩
  · obtain rfl : refuses = fun _ => false := funext hrefuses
    set d₂ := (order.sort directories).foldl (fun d relative => rmdir d (fun _ => false) (dir ++ ascii "/" ++ relative))
      d₁ with hd₂
    have hbelow : ∀ q, d₂.node q = if places dir <+: q ∧ q ≠ places dir then none else d₁.node q :=
      hremaining.node_foldl hnone
    have htop : ∀ q, ¬(places dir <+: q ∧ q ≠ places dir) → d₂.node q = tree.disk.node q := fun q hq => by
      rw [hbelow, if_neg hq, hkept q hq]
    have hchildren : d₂.children (places dir) = [] := by
      refine List.eq_nil_iff_forall_not_mem.mpr (fun m hm => ?_)
      rw [Disk.mem_children, hbelow, if_pos ⟨List.prefix_append _ _, by simp⟩] at hm
      cases hm
    have hlast : ∀ q, (rmdir d₂ (fun _ => false) dir).node q = if q = places dir then none else d₂.node q := by
      refine node_discard (if_neg hne) hnone (fun node hnode => ?_) hchildren
      rw [htop _ (fun h => h.2 rfl), hdirectory] at hnode
      exact Option.some.inj hnode ▸ rfl
    refine ⟨rmdir d₂ (fun _ => false) dir, ?_, fun p => ?_⟩
    · have hstat : stat (rmdir d₂ (fun _ => false) dir) dir = none := by
        rw [stat, resolve, if_neg hne, Option.bind_some, hlast, if_pos rfl]
      simp only [removeTree, listFilesRecursive, hwalk fuel (le_of_max_le_left hfuel), Option.bind_eq_bind,
        Option.bind_some, ← hd₁, listDirectoriesBelow, hwalk' fuel (le_of_max_le_right hfuel), ← hd₂, hstat]
      rfl
    · rw [hlast]
      split_ifs with heq hbegins hbegins
      · rfl
      · exact absurd (heq ▸ List.prefix_rfl) hbegins
      · rw [hbelow, if_pos ⟨hbegins, heq⟩]
      · exact htop p (fun h => hbegins h.1)

namespace Sample

def dotted : Readdir where
  entries d p := ascii "." :: ascii ".." :: (d.children p).filter (fun n => n != ascii "." && n != ascii "..")
  nodup d p := by
    have hdots : ascii "." ≠ ascii ".." := by decide
    simp only [List.nodup_cons, List.mem_cons, List.mem_filter, not_or]
    exact ⟨⟨hdots, by simp⟩, by simp, (List.nodup_dedup _).filter _⟩
  complete d p n hdot hparent := by simp [hdot, hparent, Disk.mem_children]

def longestFirst : LongestFirst where
  sort := List.insertionSort (fun a b => b.length ≤ a.length)
  perm := List.perm_insertionSort _
  sorted l := by
    have : Std.Total (fun a b : Bytes => b.length ≤ a.length) := ⟨fun _ _ => Nat.le_total _ _⟩
    have : IsTrans Bytes (fun a b => b.length ≤ a.length) := ⟨fun _ _ _ hab hbc => hbc.trans hab⟩
    exact List.pairwise_insertionSort _ _

def tree : Tree where
  disk := [([], .directory), ([ascii "a"], .directory), ([ascii "a", ascii "x"], .file []),
    ([ascii "a", ascii "b"], .directory), ([ascii "a", ascii "b", ascii "y"], .file []), ([ascii "c"], .file [])]
  isTree := Disk.isTree_of_entries (by decide +kernel)

end Sample

open Sample in
theorem a_small_tree_is_removed :
    (opendir dotted tree.disk (ascii "/a")).isSome = true ∧
      ∃ n files d, listFilesRecursive dotted tree.disk n (ascii "/a") = some files ∧ ascii "b/y" ∈ files ∧
        removeTree dotted tree.disk longestFirst (fun _ => false) n (ascii "/a") = some (true, d) ∧
        d.node [ascii "a"] = none ∧ d.node [ascii "c"] = some (.file []) := by
  have hopen : (opendir dotted tree.disk (ascii "/a")).isSome = true := by decide +kernel
  obtain ⟨n, hn⟩ := trees_are_listed_and_removed dotted longestFirst tree (ascii "/a") hopen
  obtain ⟨⟨files, hfiles, -, hmem⟩, hremove⟩ := hn n le_rfl
  obtain ⟨d, hd, hnode⟩ := hremove (fun _ => false) (fun _ => rfl)
  refine ⟨hopen, n, files, d, hfiles, (hmem _).mpr ⟨[ascii "b", ascii "y"], by simp, [], by decide +kernel, by decide⟩,
    hd, ?_, ?_⟩
  · rw [hnode, if_pos (by decide +kernel)]
  · rw [hnode, if_neg (by decide +kernel)]
    decide +kernel

end NsxManager.SdTree
