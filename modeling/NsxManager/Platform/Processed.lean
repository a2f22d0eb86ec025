import NsxManager.Platform.Recreated

/-! What `processDirectory` leaves alone, and a rule for what it does. -/

namespace NsxManager.Platform

open NsxManager.Core Lib Maintenance

structure Contained (d : Disk) (p t : Path) (d' : Disk) : Prop where
  rooted : d'.Rooted
  outside : ∀ q, ¬p <+: q → ¬t <+: q → d'.node q = d.node q
  itself : d'.node p = d.node p
  occupied : (d.node t).isSome = true → ∀ q, ¬p <+: q → d'.node q = d.node q

structure Visited (d : Disk) (p : Path) (done : List Bytes) (e : Disk) : Prop where
  rooted : e.Rooted
  outside : ∀ q, ¬p <+: q → e.node q = d.node q
  itself : e.node p = d.node p
  listed : ∀ n ∈ done, (d.node (p ++ [n])).isSome = true
  pending : ∀ n, (d.node (p ++ [n])).isSome = true → n ∉ done → ∀ r, e.node (p ++ n :: r) = d.node (p ++ n :: r)
  visited : ∀ n ∈ done, e.node (p ++ [n]) = d.node (p ++ [n])
  absent : ∀ k, d.node (p ++ [k]) = none → (∀ n ∈ done, k ≠ n ++ kTempSuffix) → ∀ r, e.node (p ++ k :: r) = none

section Containment

variable {env : Surroundings} {d e d' : Disk} {p t : Path} {done : List Bytes} {n : Bytes}

lemma Contained.refl (hd : d.Rooted) (p t : Path) : Contained d p t d :=
  ⟨hd, fun _ _ _ => rfl, rfl, fun _ _ _ => rfl⟩

lemma rooted_of_same (hd : d.Rooted) (h : ∀ q, d'.node q = d.node q) : d'.Rooted := by
  intro q n hnode
  rw [h] at hnode ⊢
  exact hd q n hnode

lemma Visited.nil (hd : d.Rooted) (p : Path) : Visited d p [] d :=
  ⟨hd, fun _ _ => rfl, rfl, fun _ h => absurd h List.not_mem_nil, fun _ _ _ _ => rfl,
    fun _ h => absurd h List.not_mem_nil, fun _ hk _ r => by simpa using hd.none_below hk r⟩

lemma Visited.skip (h : Visited d p done e) (hn : n ∉ done) (hpresent : (d.node (p ++ [n])).isSome = true) :
    Visited d p (done ++ [n]) e := by
  refine ⟨h.rooted, h.outside, h.itself, fun m hm => ?_, fun m hm hmem => h.pending m hm ?_, fun m hm => ?_,
    fun k hk hmem => h.absent k hk (fun m hm => hmem m (List.mem_append_left _ hm))⟩
  · rcases List.mem_append.mp hm with hm | hm
    · exact h.listed m hm
    · rw [List.mem_singleton.mp hm]
      exact hpresent
  · exact fun hm => hmem (List.mem_append_left _ hm)
  · rcases List.mem_append.mp hm with hm | hm
    · exact h.visited m hm
    · rw [List.mem_singleton.mp hm]
      exact h.pending n hpresent hn []

lemma Contained.sibling (h : Contained e (p ++ [n]) (p ++ [n ++ kTempSuffix]) d') {m : Bytes}
    (hm : (e.node (p ++ [m])).isSome = true) (hne : m ≠ n) (r : Path) :
    d'.node (p ++ m :: r) = e.node (p ++ m :: r) := by
  have hapart : ¬p ++ [n] <+: p ++ m :: r := fun h => hne (prefix_child_iff.mp h).symm
  by_cases htaken : m = n ++ kTempSuffix
  · subst htaken
    exact h.occupied hm _ hapart
  · exact h.outside _ hapart (fun h => htaken (prefix_child_iff.mp h).symm)

lemma Visited.child (h : Visited d p done e) (hn : n ∉ done) (hpresent : (d.node (p ++ [n])).isSome = true)
    (hchild : Contained e (p ++ [n]) (p ++ [n ++ kTempSuffix]) d') : Visited d p (done ++ [n]) d' := by
  have hskip := h.skip hn hpresent
  refine ⟨hchild.rooted, fun q hq => ?_, ?_, hskip.listed, fun m hm hmem r => ?_, fun m hm => ?_, fun k hk hmem r => ?_⟩
  · rw [hchild.outside q (fun h => hq ((List.prefix_append _ _).trans h))
      (fun h => hq ((List.prefix_append _ _).trans h)), h.outside q hq]
  · rw [hchild.outside p (not_prefix_concat p _) (not_prefix_concat p _), h.itself]
  · have hne : m ≠ n := fun heq => hmem (by simp [heq])
    have hsame := hskip.pending m hm hmem
    rw [hchild.sibling (by rw [hsame]; exact hm) hne, hsame]
  · have hsame := hskip.visited m hm
    by_cases hne : m = n
    · rw [hne, hchild.itself, ← hne, hsame]
    · rw [hchild.sibling (by rw [hsame]; exact hskip.listed m hm) hne, hsame]
  · have hkn : ¬p ++ [n] <+: p ++ k :: r := by
      intro hbegins
      rw [← prefix_child_iff.mp hbegins] at hk
      rw [hk] at hpresent
      cases hpresent
    rw [hchild.outside _ hkn (fun h => hmem n (by simp) (prefix_child_iff.mp h).symm), hskip.absent k hk hmem]

lemma contained_of_recreated (h : Visited d p done e) (hp : d.node p = some .directory) (hr : Recreated env e p t d') :
    Contained d p t d' := by
  cases hr with
  | whole _ hsame =>
    refine ⟨rooted_of_same h.rooted hsame, fun q hq _ => ?_, ?_, fun _ q hq => ?_⟩
    · rw [hsame, h.outside q hq]
    · rw [hsame, h.itself]
    · rw [hsame, h.outside q hq]
  | left e' hjammed _ hrefilling =>
    obtain ⟨-, hfree, hpt, -⟩ := Disk.movable_iff.mp hjammed.1.1.2
    refine ⟨hrefilling.rooted, fun q hq hq' => ?_, ?_, fun htaken => ?_⟩
    · rw [hrefilling.outside q hq hq', h.outside q hq]
    · rw [hrefilling.directory, hp]
    · rw [← h.outside t hpt, hfree] at htaken
      cases htaken

lemma movable_congr {source destination : Path} (hsource : (e.node source).isSome = (d.node source).isSome)
    (hdestination : (e.node destination).isSome = (d.node destination).isSome)
    (hparent : ¬source <+: destination → e.node destination.dropLast = d.node destination.dropLast) :
    e.movable source destination = d.movable source destination := by
  rw [Bool.eq_iff_iff, Disk.movable_iff, Disk.movable_iff, hsource, ← Option.not_isSome_iff_eq_none,
    ← Option.not_isSome_iff_eq_none, hdestination]
  constructor
  · rintro ⟨h₁, h₂, h₃, h₄, h₅⟩
    exact ⟨h₁, h₂, h₃, h₄, hparent h₃ ▸ h₅⟩
  · rintro ⟨h₁, h₂, h₃, h₄, h₅⟩
    exact ⟨h₁, h₂, h₃, h₄, (hparent h₃).symm ▸ h₅⟩

lemma movable_of_same (hsame : ∀ r, e.node (p ++ r) = d.node (p ++ r)) (n : Bytes) :
    e.movable (p ++ [n]) (p ++ [n ++ kTempSuffix]) = d.movable (p ++ [n]) (p ++ [n ++ kTempSuffix]) := by
  refine movable_congr (by rw [hsame]) (by rw [hsame]) (fun _ => ?_)
  rw [List.dropLast_concat]
  simpa using hsame []

lemma Visited.movable (h : Visited d p done e) : e.movable p t = d.movable p t := by
  by_cases hbegins : p <+: t
  · have hno : ∀ d : Disk, d.movable p t = false := by
      intro d
      rw [← Bool.not_eq_true, Disk.movable_iff]
      exact fun hmovable => hmovable.2.2.1 hbegins
    rw [hno, hno]
  · refine movable_congr (by rw [h.itself]) (by rw [h.outside t hbegins]) (fun _ => h.outside _ (fun hparent => ?_))
    exact hbegins (hparent.trans (List.dropLast_prefix t))

lemma Visited.movable_child (h : Visited d p done e) (hn : n ∉ done) (hpresent : (d.node (p ++ [n])).isSome = true) :
    e.movable (p ++ [n]) (p ++ [n ++ kTempSuffix]) = d.movable (p ++ [n]) (p ++ [n ++ kTempSuffix]) := by
  refine movable_congr (by rw [h.pending n hpresent hn []]) ?_ (fun _ => by rw [List.dropLast_concat, h.itself])
  cases hnode : d.node (p ++ [n ++ kTempSuffix]) with
  | none =>
    rw [h.absent _ hnode (fun m hm heq => hn (List.append_cancel_right heq ▸ hm)) []]
  | some node =>
    by_cases hdone : n ++ kTempSuffix ∈ done
    · rw [h.visited _ hdone, hnode]
    · rw [h.pending _ (by rw [hnode]; rfl) hdone [], hnode]

end Containment

def agreed (watched : Bool) (p : Path) (s : Scene) : Scene :=
  if watched then { s with history := s.history ++ [.asked p true] } else s

lemma agreed_disk (watched : Bool) (p : Path) (s : Scene) : (agreed watched p s).disk = s.disk := by
  cases watched <;> rfl

def Deep (d : Disk) (p : Path) (fuel : ℕ) : Prop :=
  0 < fuel ∧ ∀ r, (d.node (p ++ r)).isSome = true → r.length < fuel

lemma deep_of_height {d : Disk} {fuel : ℕ} (h : d.height < fuel) (p : Path) : Deep d p fuel := by
  refine ⟨by omega, fun r hr => ?_⟩
  have hlength := Disk.length_lt_height hr
  rw [List.length_append] at hlength
  omega

lemma Deep.child {d e : Disk} {p : Path} {n : Bytes} {fuel : ℕ} (h : Deep d p (fuel + 1))
    (hpresent : (d.node (p ++ [n])).isSome = true) (hsame : ∀ r, e.node (p ++ n :: r) = d.node (p ++ n :: r)) :
    Deep e (p ++ [n]) fuel := by
  refine ⟨by simpa using h.2 [n] hpresent, fun r hr => ?_⟩
  rw [List.append_assoc, List.singleton_append, hsame] at hr
  simpa using h.2 _ hr

/-- `Inv` holds while the entries of a directory are visited, and `Post` when the directory is done. -/
structure Rule (env : Surroundings) (watched : Bool) (Inv : Scene → Path → Path → List Bytes → Scene → Prop)
    (Post : Scene → Path → Path → Scene → Prop) : Prop where
  other : ∀ s p t, s.disk.Rooted → s.disk.node p ≠ some .directory → Post s p t s
  refused : ∀ s p t, s.disk.node p = some .directory → watched = true → env.answers s.calls = false →
    Post s p t { s with history := s.history ++ [.asked p false] }
  start : ∀ s p t, s.disk.node p = some .directory → (watched = true → env.answers s.calls = true) →
    Inv s p t [] (agreed watched p s)
  skip : ∀ s p t done n e, s.disk.Rooted → Inv s p t done e → Visited s.disk p done e.disk → n ∉ done →
    (s.disk.node (p ++ [n])).isSome = true → s.disk.node (p ++ [n]) ≠ some .directory → Inv s p t (done ++ [n]) e
  child : ∀ s p t done n e e', s.disk.Rooted → Inv s p t done e → Visited s.disk p done e.disk → n ∉ done →
    s.disk.node (p ++ [n]) = some .directory → Post e (p ++ [n]) (p ++ [n ++ kTempSuffix]) e' →
    Contained e.disk (p ++ [n]) (p ++ [n ++ kTempSuffix]) e'.disk → Inv s p t (done ++ [n]) e'
  finish : ∀ s p t names e s' more, s.disk.Rooted → s.disk.node p = some .directory → Inv s p t names e →
    Visited s.disk p names e.disk → names = env.listing.names s.disk p → Recreated env e.disk p t s'.disk →
    Quietly e s' more → ((∀ h ∈ more, h.ofFile = true) ↔ ¬Renames env e.disk p t) → Post s p t s'

section Process

variable {env : Surroundings} {watched : Bool} {Inv : Scene → Path → Path → List Bytes → Scene → Prop}
  {Post : Scene → Path → Path → Scene → Prop}

lemma ends_goOn {α : Type} {Q : α → Scene → Prop} {k : Bool → FsProgram α} {s : Scene} {p : Path}
    (hrefused : watched = true → env.answers s.calls = false →
      world.ends env (k false) Q { s with history := s.history ++ [.asked p false] })
    (hagreed : (watched = true → env.answers s.calls = true) → world.ends env (k true) Q (agreed watched p s)) :
    world.ends env (goOn watched p >>= k) Q s := by
  cases watched with
  | false => exact hagreed (fun h => absurd h Bool.false_ne_true)
  | true =>
    refine ends_progress ?_
    cases h : env.answers s.calls with
    | false => exact hrefused rfl h
    | true => exact hagreed (fun _ => h)

lemma ends_visitEach (rule : Rule env watched Inv Post)
    {process : Bytes → ArchiveBitReport → FsProgram ArchiveBitReport} {s : Scene} {p t : Path}
    (hd : s.disk.Rooted) (hprocess : ∀ n e report, s.disk.node (p ++ [n]) = some .directory → e.disk.Rooted →
      (∀ r, e.disk.node (p ++ n :: r) = s.disk.node (p ++ n :: r)) →
      world.ends env (process n report) (fun _ e' => Post e (p ++ [n]) (p ++ [n ++ kTempSuffix]) e' ∧
        Contained e.disk (p ++ [n]) (p ++ [n ++ kTempSuffix]) e'.disk) e)
    (done : List Bytes) {names : List Bytes} (hnodup : (done ++ names).Nodup)
    (hnames : ∀ n ∈ names, (s.disk.node (p ++ [n])).isSome = true) {e : Scene} (hinv : Inv s p t done e)
    (hvisited : Visited s.disk p done e.disk) (report : ArchiveBitReport) :
    world.ends env (visitEach process p names report) (fun _ e' => Inv s p t (done ++ names) e' ∧
      Visited s.disk p (done ++ names) e'.disk) e := by
  induction names generalizing done e report with
  | nil =>
    rw [List.append_nil]
    exact World.ends_done ⟨hinv, hvisited⟩
  | cons n names ih =>
    have hn : n ∉ done := fun hmem => (List.disjoint_of_nodup_append hnodup) hmem List.mem_cons_self
    have hpresent := hnames n List.mem_cons_self
    have hsame := hvisited.pending n hpresent hn
    have hmore : ∀ m ∈ names, (s.disk.node (p ++ [m])).isSome = true := fun m hm => hnames m (List.mem_cons_of_mem _ hm)
    rw [← List.singleton_append, ← List.append_assoc] at hnodup ⊢
    refine ends_isDirectory ?_
    by_cases hdir : s.disk.node (p ++ [n]) = some .directory
    · rw [Disk.isDirectory_iff.mpr ((hsame []).trans hdir)]
      refine World.ends_bind (World.ends_mono (hprocess n e report hdir hvisited.rooted hsame) ?_)
      rintro report' e' ⟨hpost, hcontained⟩
      exact ih _ hnodup hmore (rule.child s p t done n e e' hd hinv hvisited hn hdir hpost hcontained)
        (hvisited.child hn hpresent hcontained) report'
    · have hno : e.disk.isDirectory (p ++ [n]) = false := by
        rw [← Bool.not_eq_true, Disk.isDirectory_iff, hsame []]
        exact hdir
      rw [hno]
      exact ih _ hnodup hmore (rule.skip s p t done n e hd hinv hvisited hn hpresent hdir)
        (hvisited.skip hn hpresent) report

theorem ends_processDirectory (rule : Rule env watched Inv Post) {fuel : ℕ} {s : Scene} {p t : Path}
    (hd : s.disk.Rooted) (hdeep : Deep s.disk p fuel)
    (report : ArchiveBitReport) :
    world.ends env (processDirectory watched fuel p t report) (fun _ s' => Post s p t s' ∧
      Contained s.disk p t s'.disk) s := by
  induction fuel generalizing s p t report with
  | zero => exact absurd hdeep.1 (lt_irrefl 0)
  | succ fuel ih =>
    rw [processDirectory]
    refine ends_isDirectory ?_
    by_cases hdir : s.disk.node p = some .directory
    · rw [Disk.isDirectory_iff.mpr hdir, if_neg (by decide)]
      refine ends_goOn (fun hwatched hno => ?_) (fun hyes => ?_)
      · exact World.ends_done ⟨rule.refused s p t hdir hwatched hno, .refl hd p t⟩
      · rw [if_neg (by decide)]
        refine ends_list ?_
        rw [agreed_disk]
        refine World.ends_bind (World.ends_mono (ends_visitEach rule (s := s) (t := t) hd ?_ []
          (env.listing.nodup _ _) (fun n hn => (env.listing.complete _ _ _).mp hn) (rule.start s p t hdir hyes)
          (by rw [agreed_disk]; exact .nil hd p) _) ?_)
        · intro n e report' hchild hrooted hsame
          exact ih hrooted (hdeep.child (by rw [hchild]; rfl) hsame) report'
        · rintro report' e ⟨hinv, hvisited⟩
          rw [List.nil_append] at hinv hvisited
          refine World.ends_mono (ends_recreate hvisited.rooted (hvisited.itself.trans hdir) report') ?_
          rintro _ s' ⟨hrecreated, more, hquiet, hmore⟩
          exact ⟨rule.finish s p t _ e s' more hd hdir hinv hvisited rfl hrecreated hquiet hmore,
            contained_of_recreated hvisited hdir hrecreated⟩
    · have hno : s.disk.isDirectory p = false := by
        rw [← Bool.not_eq_true, Disk.isDirectory_iff]
        exact hdir
      rw [hno, if_pos (by decide)]
      exact World.ends_done ⟨rule.other s p t hd hdir, .refl hd p t⟩

lemma ends_fixArchiveBit (rule : Rule env watched Inv Post) {fuel : ℕ} {s : Scene} {rootPath : Bytes}
    (hd : s.disk.Rooted) (hdeep : Deep s.disk (places rootPath) fuel) :
    world.ends env (fixArchiveBit watched fuel rootPath) (fun _ s' =>
      (rootPath.isEmpty = true ∧ s' = s ∨
        rootPath.isEmpty = false ∧ Post s (places rootPath) (places (rootPath ++ kTempSuffix)) s') ∧
      Contained s.disk (places rootPath) (places (rootPath ++ kTempSuffix)) s'.disk) s := by
  have hrefl := Contained.refl hd (places rootPath) (places (rootPath ++ kTempSuffix))
  rw [fixArchiveBit]
  cases hempty : rootPath.isEmpty with
  | true => exact World.ends_done ⟨.inl ⟨rfl, rfl⟩, hrefl⟩
  | false =>
    rw [if_neg (by decide)]
    refine ends_isPresent ?_
    cases hpresent : (s.disk.node (places rootPath)).isSome with
    | false =>
      refine World.ends_done ⟨.inr ⟨rfl, rule.other _ _ _ hd (fun hdir => ?_)⟩, hrefl⟩
      rw [hdir] at hpresent
      cases hpresent
    | true =>
      rw [if_neg (by decide)]
      refine ends_isDirectory ?_
      cases hdir : s.disk.isDirectory (places rootPath) with
      | false =>
        refine World.ends_done ⟨.inr ⟨rfl, rule.other _ _ _ hd (fun hnode => ?_)⟩, hrefl⟩
        rw [Disk.isDirectory_iff.mpr hnode] at hdir
        cases hdir
      | true =>
        rw [if_neg (by decide)]
        exact World.ends_mono (ends_processDirectory rule hd hdeep {}) (fun _ _ h => ⟨.inr ⟨rfl, h.1⟩, h.2⟩)

end Process

end NsxManager.Platform
