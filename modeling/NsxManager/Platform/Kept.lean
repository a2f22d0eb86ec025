import NsxManager.Platform.Processed

/-! Which files the repair keeps where they are. -/

namespace NsxManager.Platform

open NsxManager.Core Lib Maintenance

def aside (p t : Path) : Path → Path
  | [] => t
  | n :: r => aside (p ++ [n]) (p ++ [n ++ kTempSuffix]) r

/-- A directory is set aside and made anew, and then one of its entries cannot be moved back: one that it had, or what
such a directory in it has left beside it. -/
inductive Breaks (fails : FsOp → Bool) (d : Disk) : Path → Path → Prop
  | entry {p t : Path} {n : Bytes} (hrename : fails (.rename p t) = false) (hmovable : d.movable p t = true)
      (hcreate : fails (.createDirectories p) = false) (hpresent : (d.node (p ++ [n])).isSome = true)
      (hjams : fails (.rename (t ++ [n]) (p ++ [n])) = true) : Breaks fails d p t
  | leftover {p t : Path} {n : Bytes} (hrename : fails (.rename p t) = false) (hmovable : d.movable p t = true)
      (hcreate : fails (.createDirectories p) = false) (hbreaks : Breaks fails d (p ++ [n]) (p ++ [n ++ kTempSuffix]))
      (hjams : fails (.rename (t ++ [n ++ kTempSuffix]) (p ++ [n ++ kTempSuffix])) = true) : Breaks fails d p t

def Sheltered (fails : FsOp → Bool) (d : Disk) : Path → Path → Path → Prop
  | _, _, [] => True
  | p, t, n :: r => ¬Breaks fails d p t ∧ Sheltered fails d (p ++ [n]) (p ++ [n ++ kTempSuffix]) r

section Broken

variable {fails : FsOp → Bool} {d e : Disk} {p t : Path}

lemma Breaks.directory (hd : d.Rooted) (h : Breaks fails d p t) : d.node p = some .directory := by
  induction h with
  | entry _ _ _ hpresent _ => exact hd _ _ hpresent
  | leftover _ _ _ _ _ ih => exact hd _ _ (by rw [ih]; rfl)

lemma Breaks.above (hd : d.Rooted) {r : Path} (h : Breaks fails d (p ++ r) t) : d.node p = some .directory := by
  cases r with
  | nil =>
    rw [List.append_nil] at h
    exact h.directory hd
  | cons n r => exact directory_above hd (by rw [h.directory hd]; rfl)

lemma same_below (hsame : ∀ r, e.node (p ++ r) = d.node (p ++ r)) (n : Bytes) (r : Path) :
    e.node (p ++ [n] ++ r) = d.node (p ++ [n] ++ r) := by
  rw [List.append_assoc, hsame]

lemma breaks_congr (hsame : ∀ r, e.node (p ++ r) = d.node (p ++ r)) (hmovable : e.movable p t = d.movable p t)
    (h : Breaks fails d p t) : Breaks fails e p t := by
  induction h with
  | entry hrename hmove hcreate hpresent hjams =>
    exact .entry hrename (hmovable.trans hmove) hcreate (by rw [hsame]; exact hpresent) hjams
  | @leftover p t n hrename hmove hcreate _ hjams ih =>
    exact .leftover hrename (hmovable.trans hmove) hcreate (ih (same_below hsame n) (movable_of_same hsame n)) hjams

lemma breaks_below_congr (hsame : ∀ r, e.node (p ++ r) = d.node (p ++ r)) (hmovable : e.movable p t = d.movable p t)
    {r : Path} (h : Breaks fails d (p ++ r) (aside p t r)) : Breaks fails e (p ++ r) (aside p t r) := by
  induction r generalizing p t with
  | nil =>
    rw [List.append_nil] at h ⊢
    exact breaks_congr hsame hmovable h
  | cons n r ih =>
    rw [← List.singleton_append, ← List.append_assoc] at h ⊢
    exact ih (same_below hsame n) (movable_of_same hsame n) h

lemma sheltered_congr (hsame : ∀ r, e.node (p ++ r) = d.node (p ++ r)) (hmovable : e.movable p t = d.movable p t)
    {r : Path} (h : Sheltered fails d p t r) : Sheltered fails e p t r := by
  induction r generalizing p t with
  | nil => trivial
  | cons n r ih =>
    refine ⟨fun hbreaks => h.1 (breaks_congr (fun r => (hsame r).symm) hmovable.symm hbreaks), ?_⟩
    exact ih (same_below hsame n) (movable_of_same hsame n) h.2

lemma sheltered_of_file {bytes : Bytes} {r : Path} (hfile : d.node (p ++ r) = some (.file bytes))
    (h : ∀ r, Breaks fails d (p ++ r) (aside p t r) → ∀ r' bytes, d.node (p ++ r ++ r') ≠ some (.file bytes)) :
    Sheltered fails d p t r := by
  induction r generalizing p t with
  | nil => trivial
  | cons n r ih =>
    refine ⟨fun hbreaks => ?_, ih (by rwa [List.append_assoc, List.singleton_append]) (fun r' hbreaks => ?_)⟩
    · exact h [] (by rwa [List.append_nil]) (n :: r) bytes (by rwa [List.append_nil])
    · rw [List.append_assoc, List.singleton_append] at hbreaks ⊢
      exact h (n :: r') hbreaks

end Broken

section Keep

variable {env : Surroundings} {watched : Bool} {s e e' : Scene} {p t : Path} {done : List Bytes} {n : Bytes}

structure Kept (env : Surroundings) (s : Scene) (p t : Path) (s' : Scene) : Prop where
  files : ∀ r bytes, s.disk.node (p ++ r) = some (.file bytes) → Sheltered env.fails s.disk p t r →
    s'.disk.node (p ++ r) = some (.file bytes)
  fresh : ¬p <+: t → s.disk.node t = none → (s'.disk.node t).isSome = true → Breaks env.fails s.disk p t

structure Keeping (env : Surroundings) (s : Scene) (p _ : Path) (done : List Bytes) (e : Scene) : Prop where
  files : ∀ n ∈ done, ∀ r bytes, s.disk.node (p ++ n :: r) = some (.file bytes) →
    Sheltered env.fails s.disk (p ++ [n]) (p ++ [n ++ kTempSuffix]) r → e.disk.node (p ++ n :: r) = some (.file bytes)
  fresh : ∀ k, s.disk.node (p ++ [k]) = none → (e.disk.node (p ++ [k])).isSome = true →
    ∃ n ∈ done, k = n ++ kTempSuffix ∧ Breaks env.fails s.disk (p ++ [n]) (p ++ [n ++ kTempSuffix])

lemma Kept.same {s' : Scene} (h : s'.disk = s.disk) : Kept env s p t s' := by
  refine ⟨fun r bytes hfile _ => by rw [h, hfile], fun _ hnone hsome => ?_⟩
  rw [h, hnone] at hsome
  cases hsome

lemma Visited.same_child {d e : Disk} (h : Visited d p done e) (hn : n ∉ done)
    (hpresent : (d.node (p ++ [n])).isSome = true) (r : Path) : e.node (p ++ [n] ++ r) = d.node (p ++ [n] ++ r) := by
  rw [List.append_assoc, List.singleton_append]
  exact h.pending n hpresent hn r

lemma aside_apart (p : Path) (n : Bytes) : ¬p ++ [n] <+: p ++ [n ++ kTempSuffix] := by
  rw [prefix_child_iff]
  intro h
  have hlength := congrArg List.length h
  rw [List.length_append] at hlength
  have hsuffix : kTempSuffix.length = 8 := by decide +kernel
  omega

lemma keeping_child (h : Keeping env s p t done e) (hvisited : Visited s.disk p done e.disk) (hn : n ∉ done)
    (hdir : s.disk.node (p ++ [n]) = some .directory) (hchild : Kept env e (p ++ [n]) (p ++ [n ++ kTempSuffix]) e')
    (hcontained : Contained e.disk (p ++ [n]) (p ++ [n ++ kTempSuffix]) e'.disk) :
    Keeping env s p t (done ++ [n]) e' := by
  have hpresent : (s.disk.node (p ++ [n])).isSome = true := by rw [hdir]; rfl
  have hsame := hvisited.same_child hn hpresent
  have hmovable := hvisited.movable_child hn hpresent
  refine ⟨fun m hm r bytes hfile hsheltered => ?_, fun k hk hsome => ?_⟩
  · rcases List.mem_append.mp hm with hm | hm
    · rw [hcontained.sibling (by rw [hvisited.visited m hm]; exact hvisited.listed m hm) (fun h => hn (h ▸ hm))]
      exact h.files m hm r bytes hfile hsheltered
    · obtain rfl := List.mem_singleton.mp hm
      rw [← List.singleton_append, ← List.append_assoc] at hfile ⊢
      exact hchild.files r bytes ((hsame r).trans hfile) (sheltered_congr hsame hmovable hsheltered)
  · cases hnode : e.disk.node (p ++ [k]) with
    | some node =>
      obtain ⟨m, hm, hleft⟩ := h.fresh k hk (by rw [hnode]; rfl)
      exact ⟨m, List.mem_append_left _ hm, hleft⟩
    | none =>
      -- what is new since then is what the last directory has left
      have hkn : k ≠ n := by
        rintro rfl
        rw [hk] at hdir
        cases hdir
      obtain rfl : k = n ++ kTempSuffix := by
        by_contra hother
        rw [hcontained.outside _ (fun h => hkn (prefix_child_iff.mp h).symm)
          (fun h => hother (prefix_child_iff.mp h).symm), hnode] at hsome
        cases hsome
      refine ⟨n, by simp, rfl, ?_⟩
      exact breaks_congr (fun r => (hsame r).symm) hmovable.symm (hchild.fresh (aside_apart p n) hnode hsome)

lemma breaks_of_jammed (h : Keeping env s p t done e) (hvisited : Visited s.disk p done e.disk)
    (hjammed : Jammed env e.disk p t) : Breaks env.fails s.disk p t := by
  obtain ⟨⟨⟨hrename, hmovable⟩, hcreate⟩, k, hpresent, hjams⟩ := hjammed
  rw [hvisited.movable] at hmovable
  cases hnode : s.disk.node (p ++ [k]) with
  | some node => exact .entry hrename hmovable hcreate (by rw [hnode]; rfl) hjams
  | none =>
    obtain ⟨n, -, rfl, hbreaks⟩ := h.fresh k hnode hpresent
    exact .leftover hrename hmovable hcreate hbreaks hjams

lemma rule_kept : Rule env watched (Keeping env) (Kept env) where
  other _ _ _ _ _ := .same rfl
  refused _ _ _ _ _ _ := .same rfl
  start s p t _ _ := by
    refine ⟨fun _ h => absurd h List.not_mem_nil, fun k hk hsome => ?_⟩
    rw [agreed_disk, hk] at hsome
    cases hsome
  skip s p t done n e _ hinv hvisited hn hpresent _ := by
    refine ⟨fun m hm r bytes hfile hsheltered => ?_, fun k hk hsome => ?_⟩
    · rcases List.mem_append.mp hm with hm | hm
      · exact hinv.files m hm r bytes hfile hsheltered
      · obtain rfl := List.mem_singleton.mp hm
        rw [hvisited.pending m hpresent hn, hfile]
    · obtain ⟨m, hm, hleft⟩ := hinv.fresh k hk hsome
      exact ⟨m, List.mem_append_left _ hm, hleft⟩
  child s p t done n e e' _ hinv hvisited hn hdir hpost hcontained :=
    keeping_child hinv hvisited hn hdir hpost hcontained
  finish s p t names e s' more hd hdir hinv hvisited hnames hrecreated _ _ := by
    refine ⟨fun r bytes hfile hsheltered => ?_, fun hpt hnone hsome => ?_⟩
    · cases r with
      | nil =>
        rw [List.append_nil, hdir] at hfile
        cases hfile
      | cons n r =>
        cases hrecreated with
        | left _ hjammed _ _ => exact absurd (breaks_of_jammed hinv hvisited hjammed) hsheltered.1
        | whole _ hsame =>
          have hn : n ∈ names := by
            rw [hnames, env.listing.complete]
            exact hd.child (by rw [hfile]; rfl)
          rw [hsame]
          exact hinv.files n hn r bytes hfile hsheltered.2
    · cases hrecreated with
      | left _ hjammed _ _ => exact breaks_of_jammed hinv hvisited hjammed
      | whole _ hsame =>
        rw [hsame, hvisited.outside t hpt, hnone] at hsome
        cases hsome

end Keep

section Lose

variable {env : Surroundings} {s e e' : Scene} {p t : Path} {done : List Bytes} {n : Bytes}

def JamsFirst (env : Surroundings) (p t : Path) : Prop :=
  ∀ d, (∃ n ∈ env.listing.names d t, jams env p t n = true) →
    (env.listing.names d t).takeWhile (fun n => !jams env p t n) = []

structure Lost (env : Surroundings) (s : Scene) (p t : Path) (s' : Scene) : Prop where
  leaves : Breaks env.fails s.disk p t → (s'.disk.node t).isSome = true
  gone : ∀ r, Breaks env.fails s.disk (p ++ r) (aside p t r) → JamsFirst env (p ++ r) (aside p t r) →
    ∀ n r', s'.disk.node (p ++ r ++ n :: r') = none

structure Losing (env : Surroundings) (s : Scene) (p _ : Path) (done : List Bytes) (e : Scene) : Prop where
  leaves : ∀ n ∈ done, Breaks env.fails s.disk (p ++ [n]) (p ++ [n ++ kTempSuffix]) →
    (e.disk.node (p ++ [n ++ kTempSuffix])).isSome = true
  gone : ∀ n ∈ done, ∀ r, Breaks env.fails s.disk (p ++ [n] ++ r) (aside (p ++ [n]) (p ++ [n ++ kTempSuffix]) r) →
    JamsFirst env (p ++ [n] ++ r) (aside (p ++ [n]) (p ++ [n ++ kTempSuffix]) r) →
    ∀ m r', e.disk.node (p ++ [n] ++ r ++ m :: r') = none

lemma losing_child (h : Losing env s p t done e) (hvisited : Visited s.disk p done e.disk) (hn : n ∉ done)
    (hdir : s.disk.node (p ++ [n]) = some .directory) (hchild : Lost env e (p ++ [n]) (p ++ [n ++ kTempSuffix]) e')
    (hcontained : Contained e.disk (p ++ [n]) (p ++ [n ++ kTempSuffix]) e'.disk) :
    Losing env s p t (done ++ [n]) e' := by
  have hpresent : (s.disk.node (p ++ [n])).isSome = true := by rw [hdir]; rfl
  have hsame := hvisited.same_child hn hpresent
  have hmovable := hvisited.movable_child hn hpresent
  refine ⟨fun m hm hbreaks => ?_, fun m hm r hbreaks hfirst k r' => ?_⟩
  · rcases List.mem_append.mp hm with hm | hm
    · have hleft := h.leaves m hm hbreaks
      by_cases hmn : m ++ kTempSuffix = n
      · rw [hmn] at hleft ⊢
        rw [hcontained.itself]
        exact hleft
      · rw [hcontained.sibling hleft hmn]
        exact hleft
    · obtain rfl := List.mem_singleton.mp hm
      exact hchild.leaves (breaks_congr hsame hmovable hbreaks)
  · rcases List.mem_append.mp hm with hm | hm
    · have hgone := h.gone m hm r hbreaks hfirst k r'
      rw [List.append_assoc, List.append_assoc, List.singleton_append] at hgone ⊢
      rw [hcontained.sibling (by rw [hvisited.visited m hm]; exact hvisited.listed m hm) (fun h => hn (h ▸ hm))]
      exact hgone
    · obtain rfl := List.mem_singleton.mp hm
      exact hchild.gone r (breaks_below_congr hsame hmovable hbreaks) hfirst k r'

lemma jammed_of_breaks (hd : s.disk.Rooted) (h : Losing env s p t done e) (hvisited : Visited s.disk p done e.disk)
    (hall : ∀ n, (s.disk.node (p ++ [n])).isSome = true → n ∈ done) (hbreaks : Breaks env.fails s.disk p t) :
    Jammed env e.disk p t := by
  cases hbreaks with
  | @entry _ _ n hrename hmovable hcreate hpresent hjams =>
    refine ⟨⟨⟨hrename, hvisited.movable.trans hmovable⟩, hcreate⟩, n, ?_, hjams⟩
    rw [hvisited.visited n (hall n hpresent)]
    exact hpresent
  | @leftover _ _ n hrename hmovable hcreate hbreaks hjams =>
    refine ⟨⟨⟨hrename, hvisited.movable.trans hmovable⟩, hcreate⟩, n ++ kTempSuffix, ?_, hjams⟩
    exact h.leaves n (hall n (by rw [hbreaks.directory hd]; rfl)) hbreaks

lemma Recreated.none {d d' : Disk} (h : Recreated env d p t d') {r : Path} (hnone : d.node (p ++ n :: r) = none) :
    d'.node (p ++ n :: r) = none := by
  cases h with
  | whole _ hsame => rw [hsame, hnone]
  | left e _ _ hrefilling =>
    by_cases hmoved : n ∈ (env.listing.names e t).takeWhile (fun n => !jams env p t n)
    · rw [(hrefilling.back n hmoved r).1, hnone]
    · exact (hrefilling.waiting n hmoved r).1

lemma lost_at_finish {s' : Scene} (hd : s.disk.Rooted) (h : Losing env s p t done e)
    (hvisited : Visited s.disk p done e.disk) (hall : ∀ n, (s.disk.node (p ++ [n])).isSome = true → n ∈ done)
    (hrecreated : Recreated env e.disk p t s'.disk) : Lost env s p t s' := by
  refine ⟨fun hbreaks => ?_, fun r hbreaks hfirst k r' => ?_⟩
  · cases hrecreated with
    | whole hwhole _ => exact absurd (jammed_of_breaks hd h hvisited hall hbreaks) hwhole
    | left _ _ _ hrefilling =>
      rw [hrefilling.temporary]
      rfl
  · cases r with
    | nil =>
      rw [List.append_nil, aside] at hbreaks hfirst
      rw [List.append_nil]
      cases hrecreated with
      | whole hwhole _ => exact absurd (jammed_of_breaks hd h hvisited hall hbreaks) hwhole
      | left e₀ hjammed hlisted hrefilling =>
        -- the first entry that is listed stays where it is, and so does every other
        obtain ⟨-, n, hpresent, hjams⟩ := hjammed
        rw [hfirst e₀ ⟨n, (hlisted n).mpr hpresent, hjams⟩] at hrefilling
        exact (hrefilling.waiting k List.not_mem_nil r').1
    | cons n r =>
      rw [← List.singleton_append, ← List.append_assoc] at hbreaks hfirst ⊢
      have hgone := h.gone n (hall n (by rw [hbreaks.above hd]; rfl)) r hbreaks hfirst k r'
      rw [List.append_assoc, List.append_assoc, List.singleton_append] at hgone ⊢
      exact hrecreated.none hgone

lemma rule_lost : Rule env false (Losing env) (Lost env) where
  other s p t hd hother := by
    refine ⟨fun hbreaks => absurd (hbreaks.directory hd) hother, fun r hbreaks => ?_⟩
    exact absurd (hbreaks.above hd) hother
  refused _ _ _ _ hwatched _ := absurd hwatched Bool.false_ne_true
  start s p t _ _ := ⟨fun _ h => absurd h List.not_mem_nil, fun _ h => absurd h List.not_mem_nil⟩
  skip s p t done n e hd hinv hvisited hn hpresent hother := by
    refine ⟨fun m hm hbreaks => ?_, fun m hm r hbreaks => ?_⟩
    · rcases List.mem_append.mp hm with hm | hm
      · exact hinv.leaves m hm hbreaks
      · obtain rfl := List.mem_singleton.mp hm
        exact absurd (hbreaks.directory hd) hother
    · rcases List.mem_append.mp hm with hm | hm
      · exact hinv.gone m hm r hbreaks
      · obtain rfl := List.mem_singleton.mp hm
        exact absurd (hbreaks.above hd) hother
  child s p t done n e e' _ hinv hvisited hn hdir hpost hcontained :=
    losing_child hinv hvisited hn hdir hpost hcontained
  finish s p t names e s' more hd _ hinv hvisited hnames hrecreated _ _ := by
    refine lost_at_finish hd hinv hvisited (fun n hpresent => ?_) hrecreated
    rw [hnames, env.listing.complete]
    exact hpresent

end Lose

def listingFirst (q : Path) (chosen : Bytes → Bool) : DirListing where
  names d p := if p = q then (DirListing.sorted.names d p).filter chosen ++
    (DirListing.sorted.names d p).filter (fun n => !chosen n) else DirListing.sorted.names d p
  nodup d p := by
    split
    · exact (List.filter_append_perm _ _).nodup_iff.mpr (DirListing.sorted.nodup d p)
    · exact DirListing.sorted.nodup d p
  complete d p n := by
    rw [← DirListing.sorted.complete d p n]
    split
    · exact (List.filter_append_perm _ _).mem_iff
    · rfl
  own d d' p h := by rw [DirListing.sorted.own d d' p h]

lemma takeWhile_listingFirst {q : Path} {chosen : Bytes → Bool} {d : Disk}
    (h : ∃ n ∈ (listingFirst q chosen).names d q, chosen n = true) :
    ((listingFirst q chosen).names d q).takeWhile (fun n => !chosen n) = [] := by
  obtain ⟨n, hn, hchosen⟩ := h
  rw [(listingFirst q chosen).complete, ← DirListing.sorted.complete] at hn
  obtain ⟨first, rest, heq⟩ := List.exists_cons_of_ne_nil (List.ne_nil_of_mem (List.mem_filter.mpr ⟨hn, hchosen⟩))
  have hfirst : first ∈ (DirListing.sorted.names d q).filter chosen := heq ▸ List.mem_cons_self
  have hnames : (listingFirst q chosen).names d q =
      first :: rest ++ (DirListing.sorted.names d q).filter (fun n => !chosen n) := by
    rw [← heq]
    exact if_pos rfl
  rw [hnames, List.cons_append, List.takeWhile_cons, (List.mem_filter.mp hfirst).2]
  rfl

def FilesStay (d d' : Disk) : Prop := ∀ q bytes, d.node q = some (.file bytes) → d'.node q = some (.file bytes)

lemma filesStay_of_kept {env : Surroundings} {s s' : Scene} {p t : Path} (hd : s.disk.Rooted) (h : Kept env s p t s')
    (hcontained : Contained s.disk p t s'.disk)
    (hsafe : ∀ r, Breaks env.fails s.disk (p ++ r) (aside p t r) →
      ∀ r' bytes, s.disk.node (p ++ r ++ r') ≠ some (.file bytes)) : FilesStay s.disk s'.disk := by
  intro q bytes hfile
  by_cases hq : p <+: q
  · obtain ⟨r, rfl⟩ := hq
    exact h.files r bytes hfile (sheltered_of_file hfile hsafe)
  · by_cases hq' : t <+: q
    · obtain ⟨r, rfl⟩ := hq'
      rw [hcontained.occupied (hd.above (by rw [hfile]; rfl)) _ hq, hfile]
    · rw [hcontained.outside q hq hq', hfile]

theorem files_stay_iff (tree : Tree) (fails : FsOp → Bool) (rootPath : Bytes) :
    (∀ listing answers watched room, world.ends ⟨listing, fails, answers⟩
        (fixArchiveBit watched (tree.disk.height + 1 + room) rootPath)
        (fun _ s => FilesStay tree.disk s.disk) ⟨tree.disk, []⟩) ↔
      (rootPath.isEmpty = false → ∀ r, Breaks fails tree.disk (places rootPath ++ r)
        (aside (places rootPath) (places (rootPath ++ kTempSuffix)) r) →
          ∀ r' bytes, tree.disk.node (places rootPath ++ r ++ r') ≠ some (.file bytes)) := by
  have hd := tree.isTree.parent
  have hdeep : ∀ room, Deep tree.disk (places rootPath) (tree.disk.height + 1 + room) :=
    fun room => deep_of_height (by omega) _
  constructor
  · intro hall hroot r hbreaks r' bytes hfile
    set x := places rootPath ++ r with hx
    set tx := aside (places rootPath) (places (rootPath ++ kTempSuffix)) r with htx
    -- the order of the listing under which nothing is moved back
    have hstay := hall (listingFirst tx (fun n => fails (.rename (tx ++ [n]) (x ++ [n])))) (fun _ => true) false 0
    have hrun := World.ends_and hstay (ends_fixArchiveBit rule_lost (s := ⟨tree.disk, []⟩) hd (hdeep 0))
    obtain ⟨_, s', -, hkept, hlost, -⟩ := hrun
    rcases hlost with ⟨hempty, -⟩ | ⟨-, hlost⟩
    · rw [hroot] at hempty
      cases hempty
    · cases r' with
      | nil =>
        rw [List.append_nil, hbreaks.directory hd] at hfile
        cases hfile
      | cons n r' =>
        have hgone := hlost.gone r hbreaks (fun _ => takeWhile_listingFirst) n r'
        rw [hkept _ bytes hfile] at hgone
        cases hgone
  · intro hsafe listing answers watched room
    refine World.ends_mono (ends_fixArchiveBit rule_kept (s := ⟨tree.disk, []⟩) hd (hdeep room)) ?_
    rintro _ s' ⟨⟨-, rfl⟩ | ⟨hroot, hkept⟩, hcontained⟩
    · exact fun _ _ hfile => hfile
    · exact filesStay_of_kept hd hkept hcontained (hsafe hroot)

namespace Sample

def oneFile : Tree where
  disk := [([], .directory), ([ascii "switch"], .directory), ([ascii "switch", ascii "a"], .file [1])]
  isTree := Disk.isTree_of_entries (by decide +kernel)

def stuck : Surroundings where
  listing := .sorted
  fails op := op == .rename [ascii "switch.nsx_tmp", ascii "a"] [ascii "switch", ascii "a"]
  answers _ := true

end Sample

theorem a_file_is_left_aside : Sample.oneFile.disk.node [ascii "switch", ascii "a"] = some (.file [1]) ∧
    world.ends Sample.stuck (fixArchiveBit false 10 (ascii "/switch")) (fun report s =>
      report = ⟨1, 0, 1⟩ ∧ s.disk.node [ascii "switch", ascii "a"] = none ∧
        s.disk.node [ascii "switch.nsx_tmp", ascii "a"] = some (.file [1])) ⟨Sample.oneFile.disk, []⟩ := by
  have hrun :
      (world.run Sample.stuck (fixArchiveBit false 10 (ascii "/switch")) ⟨Sample.oneFile.disk, []⟩).1 = some ⟨1, 0, 1⟩ ∧
      (world.run Sample.stuck (fixArchiveBit false 10 (ascii "/switch")) ⟨Sample.oneFile.disk, []⟩).2.disk.node
        [ascii "switch", ascii "a"] = none ∧
      (world.run Sample.stuck (fixArchiveBit false 10 (ascii "/switch")) ⟨Sample.oneFile.disk, []⟩).2.disk.node
        [ascii "switch.nsx_tmp", ascii "a"] = some (.file [1]) ∧
      Sample.oneFile.disk.node [ascii "switch", ascii "a"] = some (.file [1]) := by decide +kernel
  exact ⟨hrun.2.2.2, _, _, Prod.ext hrun.1 rfl, rfl, hrun.2.1, hrun.2.2.1⟩

end NsxManager.Platform
