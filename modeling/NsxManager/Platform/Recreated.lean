import NsxManager.Platform.ArchiveBit

/-! What setting a directory aside and refilling it comes to, whichever of its steps fails. -/

namespace NsxManager.Platform

open NsxManager.Core Lib

section Requests

variable {env : Surroundings} {s : Scene} {α : Type} {Q : α → Scene → Prop} {p q : Path}

lemma ends_isPresent {k : Bool → FsProgram α} (h : world.ends env (k (s.disk.node p).isSome) Q s) :
    world.ends env (isPresent p >>= k) Q s :=
  World.ends_call (e := FsOp.isPresent p) rfl h

lemma ends_isDirectory {k : Bool → FsProgram α} (h : world.ends env (k (s.disk.isDirectory p)) Q s) :
    world.ends env (isDirectory p >>= k) Q s :=
  World.ends_call (e := FsOp.isDirectory p) rfl h

lemma ends_list {k : List Bytes → FsProgram α} (h : world.ends env (k (env.listing.names s.disk p)) Q s) :
    world.ends env (list p >>= k) Q s :=
  World.ends_call (e := FsOp.list p) rfl h

lemma ends_progress {k : Bool → FsProgram α} (h : world.ends env (k (env.answers s.calls)) Q
    { s with history := s.history ++ [.asked p (env.answers s.calls)] }) :
    world.ends env (progress p >>= k) Q s :=
  World.ends_call (e := FsOp.progress p) rfl h

def Renames (env : Surroundings) (d : Disk) (source destination : Path) : Prop :=
  env.fails (.rename source destination) = false ∧ d.movable source destination = true

lemma ends_rename {k : Bool → FsProgram α}
    (hmade : Renames env s.disk p q → world.ends env (k true) Q
      ⟨s.disk.rename p q, s.history ++ [.renamed (s.disk.isDirectory p) p q]⟩)
    (hnot : ¬Renames env s.disk p q → world.ends env (k false) Q s) : world.ends env (rename p q >>= k) Q s := by
  by_cases h : Renames env s.disk p q
  · refine World.ends_call (e := FsOp.rename p q) (if_pos ?_) (hmade h)
    rw [h.1, h.2]
    rfl
  · refine World.ends_call (e := FsOp.rename p q) (if_neg ?_) (hnot h)
    simpa [Renames] using h

lemma ends_restore {k : Bool → FsProgram α} (hmovable : s.disk.movable p q = true)
    (h : world.ends env (k true) Q ⟨s.disk.rename p q, s.history ++ [.renamed (s.disk.isDirectory p) p q]⟩) :
    world.ends env (restore p q >>= k) Q s :=
  World.ends_call (e := FsOp.restore p q) (if_pos hmovable) h

lemma ends_createDirectories {k : Bool → FsProgram α} (hcreatable : s.disk.creatable p = true)
    (hmade : env.fails (.createDirectories p) = false →
      world.ends env (k true) Q ⟨s.disk.create p, s.history ++ [.created p]⟩)
    (hnot : env.fails (.createDirectories p) = true → world.ends env (k false) Q s) :
    world.ends env (createDirectories p >>= k) Q s := by
  cases h : env.fails (.createDirectories p) with
  | false =>
    refine World.ends_call (e := FsOp.createDirectories p) (if_pos ?_) (hmade h)
    rw [h, hcreatable]
    rfl
  | true =>
    refine World.ends_call (e := FsOp.createDirectories p) (if_neg ?_) (hnot h)
    rw [h]
    exact Bool.false_ne_true

lemma ends_remove {k : Bool → FsProgram α} (hpresent : (s.disk.node p).isSome = true) (hempty : s.disk.children p = [])
    (h : world.ends env (k true) Q { s with disk := s.disk.erase p }) : world.ends env (remove p >>= k) Q s := by
  refine World.ends_call (e := FsOp.remove p) (if_pos ?_) h
  rw [hpresent, hempty]
  rfl

end Requests

section Refill

variable {d e : Disk} {p t : Path} {moved : List Bytes} {n : Bytes}

structure Refilling (d : Disk) (p t : Path) (moved : List Bytes) (e : Disk) : Prop where
  rooted : e.Rooted
  outside : ∀ q, ¬p <+: q → ¬t <+: q → e.node q = d.node q
  directory : e.node p = some .directory
  temporary : e.node t = some .directory
  back : ∀ n ∈ moved, ∀ r, e.node (p ++ n :: r) = d.node (p ++ n :: r) ∧ e.node (t ++ n :: r) = none
  waiting : ∀ n ∉ moved, ∀ r, e.node (p ++ n :: r) = none ∧ e.node (t ++ n :: r) = d.node (p ++ n :: r)

lemma not_prefix_of_apart (hpt : ¬p <+: t) (htp : ¬t <+: p) (r r' : Path) : ¬p ++ r <+: t ++ r' := by
  intro h
  exact (List.prefix_or_prefix_of_prefix ((List.prefix_append p r).trans h) (List.prefix_append t r')).elim hpt htp

lemma not_prefix_concat (p : Path) (n : Bytes) : ¬p ++ [n] <+: p := fun h => by simpa using h.length_le

lemma prefix_child_iff {m : Bytes} {r : Path} : p ++ [n] <+: p ++ m :: r ↔ n = m := by
  rw [List.prefix_append_right_inj, List.cons_prefix_cons]
  simp

lemma directory_above (hd : d.Rooted) {q : Path} {r : Path} (h : (d.node (q ++ n :: r)).isSome = true) :
    d.node q = some .directory :=
  hd _ _ (hd.child h)

variable (hd : d.Rooted) (hmovable : d.movable p t = true)
include hd hmovable

lemma node_below_temporary (r : Path) : d.node (t ++ r) = none :=
  hd.none_below (Disk.movable_iff.mp hmovable).2.1 r

lemma refilling_start (hp : d.node p = some .directory) :
    (d.rename p t).creatable p = true ∧ Refilling d p t [] ((d.rename p t).create p) := by
  have hpt := (Disk.movable_iff.mp hmovable).2.2.1
  have htp := hd.not_above hmovable
  have hrooted := hd.rename hmovable
  have hgone : (d.rename p t).node p = none := by
    simpa using Disk.node_rename_source hd hmovable []
  have habove : ∀ q, q <+: p → q ≠ p → (d.rename p t).node q = some .directory := by
    rintro q ⟨r, hr⟩ hne
    obtain ⟨n, r, rfl⟩ : ∃ n r', r = n :: r' := List.exists_cons_of_ne_nil (by rintro rfl; exact hne (by simpa using hr))
    have hq : ¬p <+: q := by
      rintro ⟨r', rfl⟩
      have hlen := congrArg List.length hr
      simp at hlen
    rw [Disk.node_rename_other hd hmovable hq (fun h => htp (h.trans ⟨_, hr⟩))]
    exact directory_above hd (by rw [hr, hp]; rfl)
  have hcreate : ∀ q, ((d.rename p t).create p).node q = if q = p then some .directory else (d.rename p t).node q := by
    intro q
    rw [Disk.node_create]
    by_cases hq : q = p
    · rw [if_pos ⟨hq ▸ List.prefix_rfl, hq ▸ hgone⟩, if_pos hq]
    · rw [if_neg hq, if_neg]
      rintro ⟨hbegins, hnone⟩
      rw [habove q hbegins hq] at hnone
      cases hnone
  refine ⟨?_, ?_, fun q hq hq' => ?_, ?_, ?_, fun _ h => absurd h List.not_mem_nil, fun n _ r => ⟨?_, ?_⟩⟩
  · rw [Disk.creatable, List.all_eq_true]
    intro q hq
    by_cases heq : q = p
    · rw [heq, hgone]
      rfl
    · rw [habove q ((List.mem_inits q p).mp hq) heq]
      rfl
  · intro q n hnode
    have hparent : (d.rename p t).node q = some .directory := by
      by_cases heq : q ++ [n] = p
      · exact habove q ⟨[n], heq⟩ (by rintro rfl; simp at heq)
      · rw [hcreate, if_neg heq] at hnode
        exact hrooted q n hnode
    rw [hcreate, hparent, ite_self]
  · rw [hcreate, if_neg (by rintro rfl; exact hq List.prefix_rfl), Disk.node_rename_other hd hmovable hq hq']
  · rw [hcreate, if_pos rfl]
  · rw [hcreate, if_neg (by rintro rfl; exact htp List.prefix_rfl)]
    simpa [hp] using Disk.node_rename_destination hd hmovable []
  · rw [hcreate, if_neg (by simp), Disk.node_rename_source hd hmovable]
  · rw [hcreate, if_neg (fun h => htp ⟨n :: r, h⟩), Disk.node_rename_destination hd hmovable]

lemma restored (hp : d.node p = some .directory) : (d.rename p t).movable t p = true ∧
    ∀ q, ((d.rename p t).rename t p).node q = d.node q := by
  have hpt := (Disk.movable_iff.mp hmovable).2.2.1
  have htp := hd.not_above hmovable
  have hrooted := hd.rename hmovable
  obtain ⟨parent, last, rfl⟩ : ∃ parent last, p = parent ++ [last] := by
    rcases List.eq_nil_or_concat p with rfl | ⟨parent, last, rfl⟩
    · exact absurd List.nil_prefix hpt
    · exact ⟨parent, last, List.concat_eq_append⟩
  have hparent : (d.rename (parent ++ [last]) t).node parent = some .directory := by
    rw [Disk.node_rename_other hd hmovable (fun h => by simpa using h.length_le)
      (fun h => htp (h.trans (List.prefix_append _ _)))]
    exact hd _ last (by rw [hp]; rfl)
  have hback : (d.rename (parent ++ [last]) t).movable t (parent ++ [last]) = true := by
    refine Disk.movable_iff.mpr ⟨?_, ?_, htp, by simp, by rwa [List.dropLast_concat]⟩
    · have hnew := Disk.node_rename_destination hd hmovable []
      rw [List.append_nil, List.append_nil, hp] at hnew
      rw [hnew]
      rfl
    · simpa using Disk.node_rename_source hd hmovable []
  refine ⟨hback, fun q => ?_⟩
  by_cases hq : parent ++ [last] <+: q
  · obtain ⟨r, rfl⟩ := hq
    rw [Disk.node_rename_destination hrooted hback, Disk.node_rename_destination hd hmovable]
  · by_cases hq' : t <+: q
    · obtain ⟨r, rfl⟩ := hq'
      rw [Disk.node_rename_source hrooted hback, node_below_temporary hd hmovable]
    · rw [Disk.node_rename_other hrooted hback hq' hq, Disk.node_rename_other hd hmovable hq hq']

lemma Refilling.move (h : Refilling d p t moved e) (hn : n ∉ moved) (hpresent : (d.node (p ++ [n])).isSome = true) :
    e.movable (t ++ [n]) (p ++ [n]) = true ∧ Refilling d p t (moved ++ [n]) (e.rename (t ++ [n]) (p ++ [n])) := by
  have hpt := (Disk.movable_iff.mp hmovable).2.2.1
  have htp := hd.not_above hmovable
  have hmove : e.movable (t ++ [n]) (p ++ [n]) = true := by
    refine Disk.movable_iff.mpr ⟨?_, (h.waiting n hn []).1, not_prefix_of_apart htp hpt _ _, by simp, ?_⟩
    · rw [(h.waiting n hn []).2]
      exact hpresent
    · rw [List.dropLast_concat]
      exact h.directory
  have hother : ∀ (q : Path) (m : Bytes) (r : Path), m ≠ n → ¬q ++ [n] <+: q ++ m :: r :=
    fun q m r hne h => hne (prefix_child_iff.mp h).symm
  refine ⟨hmove, h.rooted.rename hmove, fun q hq hq' => ?_, ?_, ?_, fun m hm r => ?_, fun m hm r => ?_⟩
  · rw [Disk.node_rename_other h.rooted hmove (fun h => hq' ((List.prefix_append _ _).trans h))
      (fun h => hq ((List.prefix_append _ _).trans h)), h.outside q hq hq']
  · rw [Disk.node_rename_other h.rooted hmove (fun h => htp ((List.prefix_append _ _).trans h))
      (not_prefix_concat p n), h.directory]
  · rw [Disk.node_rename_other h.rooted hmove (not_prefix_concat t n)
      (fun h => hpt ((List.prefix_append _ _).trans h)), h.temporary]
  · by_cases hmn : m = n
    · subst hmn
      have hnew := Disk.node_rename_destination h.rooted hmove r
      have hold := Disk.node_rename_source h.rooted hmove r
      simp only [List.append_assoc, List.singleton_append] at hnew hold
      exact ⟨hnew.trans (h.waiting m hn r).2, hold⟩
    · have hmoved : m ∈ moved := by simpa [hmn] using hm
      rw [Disk.node_rename_other h.rooted hmove (not_prefix_of_apart htp hpt _ _) (hother p m r hmn),
        Disk.node_rename_other h.rooted hmove (hother t m r hmn) (not_prefix_of_apart hpt htp _ _)]
      exact h.back m hmoved r
  · have hmn : m ≠ n := by
      rintro rfl
      exact hm (by simp)
    rw [Disk.node_rename_other h.rooted hmove (not_prefix_of_apart htp hpt _ _) (hother p m r hmn),
      Disk.node_rename_other h.rooted hmove (hother t m r hmn) (not_prefix_of_apart hpt htp _ _)]
    exact h.waiting m (fun hmem => hm (List.mem_append_left _ hmem)) r

lemma Refilling.finish (h : Refilling d p t moved e) (hp : d.node p = some .directory)
    (hall : ∀ n, (d.node (p ++ [n])).isSome = true → n ∈ moved) :
    e.children t = [] ∧ ∀ q, (e.erase t).node q = d.node q := by
  have habsent : ∀ n ∉ moved, ∀ r, d.node (p ++ n :: r) = none := by
    intro n hn r
    have hnone : d.node (p ++ [n]) = none := Option.not_isSome_iff_eq_none.mp (fun h => hn (hall n h))
    simpa using hd.none_below hnone r
  have hempty : ∀ n r, e.node (t ++ n :: r) = none := by
    intro n r
    by_cases hn : n ∈ moved
    · exact (h.back n hn r).2
    · rw [(h.waiting n hn r).2, habsent n hn r]
  refine ⟨List.eq_nil_iff_forall_not_mem.mpr (fun n hn => ?_), fun q => ?_⟩
  · rw [Disk.mem_children, hempty] at hn
    cases hn
  · rw [Disk.node_erase]
    by_cases hq : t <+: q
    · obtain ⟨r, rfl⟩ := hq
      rw [node_below_temporary hd hmovable]
      cases r with
      | nil => simp
      | cons n r => rw [hempty, ite_self]
    · rw [if_neg (by rintro rfl; exact hq List.prefix_rfl)]
      by_cases hq' : p <+: q
      · obtain ⟨r, rfl⟩ := hq'
        cases r with
        | nil => rw [List.append_nil, h.directory, hp]
        | cons n r =>
          by_cases hn : n ∈ moved
          · exact (h.back n hn r).1
          · rw [(h.waiting n hn r).1, habsent n hn r]
      · exact h.outside q hq' hq

end Refill

section Recreate

variable {env : Surroundings} {d : Disk} {p t : Path} {moved : List Bytes} {s : Scene}

def Quietly (s s' : Scene) (more : List Happening) : Prop :=
  s'.history = s.history ++ more ∧ ∀ h ∈ more, h.isAsked = false

lemma Quietly.refl (s : Scene) : Quietly s s [] := ⟨by simp, fun _ h => absurd h List.not_mem_nil⟩

lemma Quietly.trans {s' s'' : Scene} {more more' : List Happening} (h : Quietly s s' more) (h' : Quietly s' s'' more') :
    Quietly s s'' (more ++ more') :=
  ⟨by rw [h'.1, h.1, List.append_assoc], List.forall_mem_append.mpr ⟨h.2, h'.2⟩⟩

lemma Quietly.cons {s' : Scene} {h : Happening} {more : List Happening} {d : Disk} (hh : h.isAsked = false)
    (hrest : Quietly ⟨d, s.history ++ [h]⟩ s' more) : Quietly s s' (h :: more) := by
  refine ⟨by rw [hrest.1, List.append_assoc, List.singleton_append], fun h' hmem => ?_⟩
  rcases List.mem_cons.mp hmem with rfl | hmem
  · exact hh
  · exact hrest.2 h' hmem

def jams (env : Surroundings) (p t : Path) (n : Bytes) : Bool := env.fails (.rename (t ++ [n]) (p ++ [n]))

def Opens (env : Surroundings) (d : Disk) (p t : Path) : Prop :=
  Renames env d p t ∧ env.fails (.createDirectories p) = false

def Jammed (env : Surroundings) (d : Disk) (p t : Path) : Prop :=
  Opens env d p t ∧ ∃ n, (d.node (p ++ [n])).isSome = true ∧ jams env p t n = true

inductive Recreated (env : Surroundings) (d : Disk) (p t : Path) (d' : Disk) : Prop
  | whole (h : ¬Jammed env d p t) (hsame : ∀ q, d'.node q = d.node q)
  | left (e : Disk) (h : Jammed env d p t) (hlisted : ∀ n, n ∈ env.listing.names e t ↔ (d.node (p ++ [n])).isSome = true)
      (hrefilling : Refilling d p t ((env.listing.names e t).takeWhile (fun n => !jams env p t n)) d')

lemma ends_moveBack (hd : d.Rooted) (hmovable : d.movable p t = true) {names : List Bytes} (hnodup : names.Nodup)
    (hnames : ∀ n ∈ names, (d.node (p ++ [n])).isSome = true ∧ n ∉ moved) (h : Refilling d p t moved s.disk) :
    world.ends env (moveBack p t names) (fun done s' =>
      Refilling d p t (moved ++ names.takeWhile (fun n => !jams env p t n)) s'.disk ∧
        (done = true ↔ ∀ n ∈ names, jams env p t n = false) ∧ ∃ more, Quietly s s' more) s := by
  induction names generalizing s moved with
  | nil => exact World.ends_done ⟨by simpa using h, by simp, [], .refl s⟩
  | cons n names ih =>
    obtain ⟨hfirst, hnodup⟩ := List.nodup_cons.mp hnodup
    obtain ⟨hpresent, hn⟩ := hnames n List.mem_cons_self
    obtain ⟨hmove, hnext⟩ := h.move hd hmovable hn hpresent
    refine ends_rename (fun hmade => ?_) (fun hnot => ?_)
    · have hfree : jams env p t n = false := hmade.1
      refine World.ends_mono (ih (s := ⟨_, _⟩) hnodup
        (fun m hm => ⟨(hnames m (List.mem_cons_of_mem _ hm)).1, ?_⟩) hnext) ?_
      · simp only [List.mem_append, List.mem_singleton, not_or]
        exact ⟨(hnames m (List.mem_cons_of_mem _ hm)).2, fun heq => hfirst (heq ▸ hm)⟩
      · rintro done s' ⟨hrefilling, hdone, more, hquiet⟩
        refine ⟨by simpa [List.takeWhile_cons, hfree] using hrefilling, by simp [hdone, hfree], _, .cons rfl hquiet⟩
    · have hjams : jams env p t n = true := by
        by_contra hfree
        exact hnot ⟨Bool.not_eq_true _ ▸ hfree, hmove⟩
      refine World.ends_done ⟨by simpa [List.takeWhile_cons, hjams] using h, by simp [hjams], [], .refl s⟩

lemma ends_recreate (hd : s.disk.Rooted) (hp : s.disk.node p = some .directory) (report : ArchiveBitReport) :
    world.ends env (recreate p t report) (fun _ s' => Recreated env s.disk p t s'.disk ∧
      ∃ more, Quietly s s' more ∧ ((∀ h ∈ more, h.ofFile = true) ↔ ¬Renames env s.disk p t)) s := by
  have hseen : ∀ more : List Happening,
      ¬∀ h ∈ Happening.renamed (s.disk.isDirectory p) p t :: more, h.ofFile = true := by
    intro more hall
    have hfile := hall _ List.mem_cons_self
    rw [Disk.isDirectory_iff.mpr hp] at hfile
    cases hfile
  refine ends_rename (fun hmade => ?_) (fun hnot => ?_)
  · obtain ⟨hcreatable, hstart⟩ := refilling_start hd hmade.2 hp
    refine ends_createDirectories hcreatable (fun hcreates => ?_) (fun hfails => ?_)
    · have hopens : Opens env s.disk p t := ⟨hmade, hcreates⟩
      refine ends_list ?_
      set e := (s.disk.rename p t).create p with he
      have hlisted : ∀ n, n ∈ env.listing.names e t ↔ (s.disk.node (p ++ [n])).isSome = true := by
        intro n
        rw [env.listing.complete, (hstart.waiting n List.not_mem_nil []).2]
      refine World.ends_bind (World.ends_mono (ends_moveBack hd hmade.2 (env.listing.nodup e t)
        (fun n hn => ⟨(hlisted n).mp hn, List.not_mem_nil⟩) hstart) ?_)
      rintro done s' ⟨hrefilling, hdone, more, hquiet⟩
      rw [List.nil_append] at hrefilling
      cases done with
      | true =>
        have hfree := hdone.mp rfl
        have hall : ∀ n, (s.disk.node (p ++ [n])).isSome = true →
            n ∈ (env.listing.names e t).takeWhile (fun n => !jams env p t n) := by
          intro n hn
          rw [List.takeWhile_eq_self_iff.mpr (fun m hm => by rw [hfree m hm]; rfl)]
          exact (hlisted n).mpr hn
        obtain ⟨hempty, hsame⟩ := hrefilling.finish hd hmade.2 hp hall
        refine ends_remove (by rw [hrefilling.temporary]; rfl) hempty (World.ends_done ⟨.whole ?_ hsame, ?_⟩)
        · rintro ⟨-, n, hpresent, hjams⟩
          rw [hfree n ((hlisted n).mpr hpresent)] at hjams
          cases hjams
        · exact ⟨_, .cons rfl (.cons rfl hquiet), iff_of_false (hseen _) (not_not.mpr hmade)⟩
      | false =>
        refine World.ends_done ⟨.left e ⟨hopens, ?_⟩ hlisted hrefilling, ?_⟩
        · by_contra hnone
          refine absurd (hdone.mpr (fun n hn => ?_)) Bool.false_ne_true
          by_contra hjams
          exact hnone ⟨n, (hlisted n).mp hn, Bool.not_eq_false _ ▸ hjams⟩
        · exact ⟨_, .cons rfl (.cons rfl hquiet), iff_of_false (hseen _) (not_not.mpr hmade)⟩
    · obtain ⟨hback, hsame⟩ := restored hd hmade.2 hp
      refine ends_restore hback (World.ends_done ⟨.whole ?_ hsame, ?_⟩)
      · rintro ⟨⟨-, hcreates⟩, -⟩
        rw [hfails] at hcreates
        cases hcreates
      · exact ⟨_, .cons rfl (.cons rfl (.refl _)), iff_of_false (hseen _) (not_not.mpr hmade)⟩
  · exact World.ends_done ⟨.whole (fun h => hnot h.1.1) (fun _ => rfl), [], .refl s, iff_of_true (by simp) hnot⟩

end Recreate

end NsxManager.Platform
