import NsxManager.Cfw.WriteAhead

/-! Where a merge stands at any instant of its loop, whatever lay in the backup when it began. -/

namespace NsxManager.Cfw

open NsxManager.Core Lib Infra

namespace Workspace

variable {w : Workspace} {marker : MergeMarker} {blind : Bool} {L : Listing}
  {A : Event PortOp PortOp.Reply PortFate → Prop} {names : List Bytes} {old spare : Bytes → Option Bytes}
  {new : Bytes → Bytes} {c : Card}

/-- The merge has still to move `rest`, and has moved its other names. -/
structure Midway (w : Workspace) (blind : Bool) (old spare : Bytes → Option Bytes) (new : Bytes → Bytes)
    (names rest : List Bytes) (c : Card) : Prop where
  waiting : ∀ r ∈ rest, w.slot c r = ⟨old r, spare r, some (new r)⟩
  moved : ∀ r ∈ names, r ∉ rest → (w.slot c r).Replacing blind (old r) (spare r) (new r) ∧
    (w.slot c r).live = some (new r) ∧ (w.slot c r).staged = none

section Midway

variable {r : Bytes} {rest : List Bytes} {c' : Card} (h : w.Midway blind old spare new names (r :: rest) c)
  (hothers : ∀ r' ∈ names, r' ≠ r → w.slot c' r' = w.slot c r')
  (hself : (w.slot c' r).Replacing blind (old r) (spare r) (new r))

include h hothers hself

lemma Midway.replacing : ∀ r' ∈ names, (w.slot c' r').Replacing blind (old r') (spare r') (new r') := by
  intro r' hr'
  by_cases hne : r' = r
  · exact hne ▸ hself
  rw [hothers r' hr' hne]
  by_cases hmem : r' ∈ rest
  · exact h.waiting r' (List.mem_cons_of_mem _ hmem) ▸ .untouched
  · exact (h.moved r' hr' (by simp [hne, hmem])).1

lemma Midway.next (hrest : ∀ r' ∈ rest, r' ∈ names) (hnot : r ∉ rest) (hlive : (w.slot c' r).live = some (new r))
    (hstaged : (w.slot c' r).staged = none) : w.Midway blind old spare new names rest c' := by
  refine ⟨fun r' hr' => ?_, fun r' hr' hmem => ?_⟩
  · rw [hothers r' (hrest r' hr') (ne_of_mem_of_not_mem hr' hnot)]
    exact h.waiting r' (List.mem_cons_of_mem _ hr')
  · by_cases hne : r' = r
    · subst hne
      exact ⟨hself, hlive, hstaged⟩
    · rw [hothers r' hr' hne]
      exact h.moved r' hr' (by simp [hne, hmem])

end Midway

lemma Marks.wp_mergeLoop (hmarks : w.Marks marker) (hclear : ∀ r ∈ names, w.Clear (w.target r)) {watched : Bool}
    {total : ℕ} (rest : List Bytes) (done : ℕ) (tally : Tally) (hrest : ∀ r ∈ rest, r ∈ names) (hnodup : rest.Nodup)
    (hmidway : w.Midway blind old spare new names rest c) :
    (Ports.worldOf blind L).wp A (fun c' => ∀ r ∈ names, (w.slot c' r).Replacing blind (old r) (spare r) (new r))
      (mergeLoop watched marker total done rest tally)
      (fun out c' => (∀ r ∈ names, (w.slot c' r).Replacing blind (old r) (spare r) (new r)) ∧
        (out.2 = none → ∀ r ∈ names, (w.slot c' r).live = some (new r) ∧ (w.slot c' r).staged = none)) c := by
  induction rest generalizing c done tally with
  | nil =>
    have hdone := fun r hr => hmidway.moved r hr (List.not_mem_nil)
    exact ⟨fun r hr => (hdone r hr).1, fun _ r hr => (hdone r hr).2⟩
  | cons r rest ih =>
    obtain ⟨hr, hrest'⟩ := List.forall_mem_cons.mp hrest
    obtain ⟨hnot, hnodup'⟩ := List.nodup_cons.mp hnodup
    have hslot := hmidway.waiting r List.mem_cons_self
    have hagree : ∀ {c c' : Card}, Card.Agree [w.target r, w.name (.kept r), w.name (.staged r)] c c' →
        ∀ r' ∈ names, r' ≠ r → w.slot c' r' = w.slot c r' :=
      fun h r' hr' hne => slot_of_agree (hclear r hr) (hclear r' hr') hne h
    have hhas : ∀ {c : Card} {s : Slot Bytes}, w.slot c r = s → s.staged = some (new r) →
        c.has (w.name (.staged r)) = true := by
      intro c s hs hnew
      rw [Card.has, show c.lookup (w.name (.staged r)) = (w.slot c r).staged from rfl, hs, hnew]
      rfl
    have hlive : c.lookup (w.target r) = old r := congrArg Slot.live hslot
    have hnow := hmidway.replacing (fun _ _ _ => rfl) (hslot ▸ .untouched)
    -- what stopped the loop is in its answer
    have hstopped : ∀ {stop : Interruption} {P : Prop}, some stop = none → P := fun h => absurd h (by simp)
    rw [mergeLoop]
    refine wp_report hnow (fun _ => ⟨hnow, hstopped⟩) ?_
    rw [if_neg (by decide), hmarks.join_target]
    refine Ports.wp_look hnow (fun seen hseen => ?_)
    cases seen with
    | false =>
      -- nothing is in the way, or it is not seen
      have hinstalled := slot_install (c := c) (hclear r hr)
      rw [hslot] at hinstalled
      refine hmarks.wp_moveIn (hclear r hr) hnow (fun _ _ _ => ⟨hnow, hstopped⟩) (hhas hslot rfl)
        (ih _ _ hrest' hnodup' (hmidway.next ?_ ?_ hrest' hnot (congrArg Slot.live hinstalled)
          (congrArg Slot.staged hinstalled)))
      · exact hagree (Card.Agree.replace (by simp) (by simp) c)
      · rw [hinstalled]
        rcases hseen with hmissing | ⟨hblind, _⟩
        · rw [show old r = none from hlive ▸ (c.has_eq_false _).mp hmissing.symm]
          exact .installed
        · exact .overwritten hblind
    | true =>
      have hpresent : c.has (w.target r) = true := hseen.elim Eq.symm (fun h => absurd h.2 (by decide))
      have hold : (old r).isSome = true := hlive ▸ hpresent
      have hdisplaced := slot_displace (c := c) (hclear r hr)
      rw [hslot] at hdisplaced
      have hothers := hagree (Card.Agree.replace (p := w.target r) (q := w.name (.kept r)) (by simp) (by simp) c)
      have hnow₁ := hmidway.replacing hothers (hdisplaced ▸ .displaced hold)
      have hinstalled := slot_install (c := Card.move (c.erase (w.name (.kept r))) (w.target r) (w.name (.kept r)))
        (hclear r hr)
      rw [hdisplaced] at hinstalled
      refine hmarks.wp_setAside (hclear r hr) hnow (fun _ _ _ => ⟨hnow, hstopped⟩) hpresent ?_
      refine hmarks.wp_moveIn (hclear r hr) hnow₁ (fun _ _ _ => ⟨hnow₁, hstopped⟩) (hhas hdisplaced rfl)
        (ih _ _ hrest' hnodup' (hmidway.next ?_ ?_ hrest' hnot (congrArg Slot.live hinstalled)
          (congrArg Slot.staged hinstalled)))
      · intro r' hr' hne
        rw [hagree (Card.Agree.replace (by simp) (by simp) _) r' hr' hne, hothers r' hr' hne]
      · rw [hinstalled]
        exact .of_displaced hold

lemma Marks.wp_mergeLoop_kept (hmarks : w.Marks marker) (hclear : ∀ r ∈ names, w.Clear (w.target r)) {watched : Bool}
    (total done : ℕ) (tally : Tally) :
    (Ports.worldOf blind L).wp A (fun c' => ∀ p, (∃ r ∉ names, p = w.name (.kept r)) → c'.lookup p = c.lookup p)
      (mergeLoop watched marker total done names tally)
      (fun _ c' => ∀ p, (∃ r ∉ names, p = w.name (.kept r)) → c'.lookup p = c.lookup p) c := by
  refine Ports.wp_spares (asks_mergeLoop (fun e he p hp => by simp [he] at hp) _ _ _ _ ?_ ?_)
  · rintro r hr p hp ⟨r', hr', rfl⟩
    rw [hmarks.join_kept, hmarks.join_target] at hp
    simp only [PortOp.changes, List.mem_cons, List.not_mem_nil, or_false, w.name_injective.eq_iff,
      Place.kept.injEq] at hp
    rcases hp with hp | rfl
    · exact hclear r hr _ hp
    · exact hr' hr
  · rintro r hr p hp ⟨r', hr', rfl⟩
    rw [hmarks.join_staged, hmarks.join_target] at hp
    simp only [PortOp.changes, List.mem_cons, List.not_mem_nil, or_false, w.name_injective.eq_iff, reduceCtorEq,
      false_or] at hp
    exact hclear r hr _ hp

end Workspace

structure Reached (blind : Bool) (w : Workspace) (L : Listing) (J : JsonLibrary) (plan : MergePlan) (c c' : Card) :
    Prop where
  marks : w.Marks plan.marker
  staged : plan.toWrite.Sublist (L.files c (w.config.stagingFor w.id))
  clear : ∀ r ∈ plan.toWrite, w.Clear (w.target r)
  record : OnRecord J w.config w.destination plan c c'
  slots : ∀ r ∈ plan.toWrite, (w.slot c' r).Replacing blind (c.lookup (w.target r)) (c.lookup (w.name (.kept r)))
    ((c.lookup (w.name (.staged r))).getD [])
  kept : ∀ r ∉ plan.toWrite, c'.lookup (w.name (.kept r)) = c.lookup (w.name (.kept r))

section Drafted

variable {blind : Bool} {L : Listing} {J : JsonLibrary} {config : CfwInstallConfig} {watched : Bool} {item : CatalogItem}
  {preserve : PreserveRules} {destination : Bytes} {fates : List PortFate} {c c' : Card} {plan : MergePlan}

lemma Drafted.marks (h : Drafted blind L J config item preserve destination c plan c') :
    (Workspace.mk config item.id destination h.valid).Marks plan.marker := by
  obtain ⟨now, hmarker⟩ := h.marker
  rw [hmarker]
  exact ⟨rfl, rfl, rfl, rfl⟩

lemma Drafted.lookup_eq (h : Drafted blind L J config item preserve destination c plan c') {w : Workspace}
    (hconfig : w.config = config) {p : Bytes} (hp : ∀ l, p ≠ w.name (.leaf l)) : c'.lookup p = c.lookup p := by
  subst hconfig
  obtain ⟨document, _, rfl⟩ := h.recorded
  have hmarker : p ≠ w.config.markerPath := hp .marker
  have hmarkerTemporary : p ≠ w.config.markerPath ++ ascii ".tmp" := hp .markerTemporary
  have hlist : p ≠ w.config.mergeFileListPath := hp .list
  have hlistTemporary : p ≠ w.config.mergeFileListPath ++ ascii ".tmp" := hp .listTemporary
  rw [recordedOn, AList.lookup_insert_ne hmarker, AList.lookup_erase_ne hmarkerTemporary,
    AList.lookup_insert_ne hlist, AList.lookup_erase_ne hlistTemporary]

lemma Drafted.lookup_staged (h : Drafted blind L J config item preserve destination c plan c') {r : Bytes}
    (hr : r ∈ plan.toWrite) : c.lookup (config.stagingFor item.id ++ ascii "/" ++ r) =
      some ((c.lookup (config.stagingFor item.id ++ ascii "/" ++ r)).getD []) := by
  obtain ⟨b, hb⟩ := (c.has_eq_true _).mp ((L.complete _ _ _).mp (h.staged.subset hr)).2
  rw [hb, Option.getD_some]

section Loop

variable (h : Drafted blind L J config item preserve destination c plan c')
  (hclear : config.Apart item.id destination plan.toWrite)

include h hclear

lemma Drafted.wp_mergeLoop {A : Event PortOp PortOp.Reply PortFate → Prop} (total : ℕ) (tally : Tally) :
    let w : Workspace := ⟨config, item.id, destination, h.valid⟩
    let I : Card → Prop := fun c' => ∀ r ∈ plan.toWrite, (w.slot c' r).Replacing blind (c.lookup (w.target r))
      (c.lookup (w.name (.kept r))) ((c.lookup (w.name (.staged r))).getD [])
    (Ports.worldOf blind L).wp A I (mergeLoop watched plan.marker total 0 plan.toWrite tally)
      (fun out c'' => I c'' ∧ (out.2 = none → ∀ r ∈ plan.toWrite,
        (w.slot c'' r).live = some ((c.lookup (w.name (.staged r))).getD []) ∧ (w.slot c'' r).staged = none)) c' := by
  intro w I
  have hout : ∀ r ∈ plan.toWrite, w.Clear (w.target r) := w.clear_of_apart hclear
  refine h.marks.wp_mergeLoop (w := w) hout _ _ _ (fun _ h => h) h.nodup
    ⟨fun r hr => ?_, fun r hr hnot => absurd hr hnot⟩
  have hname : ∀ a : Place, (∀ l, a ≠ .leaf l) → c'.lookup (w.name a) = c.lookup (w.name a) :=
    fun a ha => h.lookup_eq rfl (fun l => w.name_injective.ne (ha l))
  rw [Workspace.slot, h.lookup_eq (w := w) rfl (fun l => (hout r hr _).symm), hname _ (by simp), hname _ (by simp)]
  exact congrArg _ (h.lookup_staged hr)

lemma Drafted.reached (total : ℕ) (tally : Tally) :
    Reached blind ⟨config, item.id, destination, h.valid⟩ L J plan c ((Ports.worldOf blind L).exec
      (mergeLoop watched plan.marker total 0 plan.toWrite tally) fates c').state := by
  let w : Workspace := ⟨config, item.id, destination, h.valid⟩
  have hout : ∀ r ∈ plan.toWrite, w.Clear (w.target r) := w.clear_of_apart hclear
  refine ⟨h.marks, h.staged, hout, World.exec_invariant (wp_mergeLoop_onRecord h hclear total tally), ?_, fun r hr => ?_⟩
  · exact World.exec_invariant (World.wp_post (h.wp_mergeLoop hclear total tally) (fun _ _ h => h.1))
  · refine (World.exec_invariant (h.marks.wp_mergeLoop_kept hout total 0 tally) _ ⟨r, hr, rfl⟩).trans ?_
    exact h.lookup_eq (w := w) rfl (fun l => w.name_injective.ne (by simp))

end Loop

lemma drafted_of_begun (hbegun : ((Ports.worldOf blind L).exec (beginMerge J config item preserve
    (config.stagingFor item.id) destination) fates c).outcome = some (.ok plan)) :
    Drafted blind L J config item preserve destination c plan ((Ports.worldOf blind L).exec (beginMerge J config item
      preserve (config.stagingFor item.id) destination) fates c).state :=
  World.exec_post hbegun (wp_openMerge (C := fun _ => True) (fun _ _ => trivial))

/-- Once the marker is written, and wherever the merge is cut off. -/
lemma reached_of_begun (watched : Bool) (hid : isValidId item.id = true)
    (hbegun : ((Ports.worldOf blind L).exec (beginMerge J config item preserve (config.stagingFor item.id) destination)
      fates c).outcome = some (.ok plan))
    (hclear : config.Apart item.id destination plan.toWrite) :
    Reached blind ⟨config, item.id, destination, hid⟩ L J plan c ((Ports.worldOf blind L).exec (moveTree J config watched
      item preserve (config.stagingFor item.id) destination) fates c).state := by
  rw [moveTree, World.exec_bind, hbegun]
  dsimp only
  rw [World.exec_bind]
  split
  · exact (drafted_of_begun hbegun).reached hclear plan.toWrite.length {}
  · exact (drafted_of_begun hbegun).reached hclear plan.toWrite.length {}

lemma moveTree_cases {result : Except InstallOutcome (MergePlan × Tally × Option Interruption)}
    (hmoved : ((Ports.worldOf blind L).exec (moveTree J config watched item preserve (config.stagingFor item.id)
      destination) fates c).outcome = some result) :
    (∃ out, result = .error out ∧ Untouched config c ((Ports.worldOf blind L).exec (moveTree J config watched item
      preserve (config.stagingFor item.id) destination) fates c).state) ∨
    ∃ plan tally stop, result = .ok (plan, tally, stop) ∧
      ((Ports.worldOf blind L).exec (beginMerge J config item preserve (config.stagingFor item.id) destination)
        fates c).outcome = some (.ok plan) ∧
      (stop = none → config.Apart item.id destination plan.toWrite → ∀ r ∈ plan.toWrite,
        let c' := ((Ports.worldOf blind L).exec (moveTree J config watched item preserve (config.stagingFor item.id)
          destination) fates c).state
        c'.lookup (join destination r) = c.lookup (config.stagingFor item.id ++ ascii "/" ++ r) ∧
          c'.lookup (config.stagingFor item.id ++ ascii "/" ++ r) = none) := by
  rw [moveTree] at hmoved ⊢
  obtain ⟨begun, hbegun, hexec⟩ := (Ports.worldOf blind L).exec_bind_some hmoved
  rw [hexec] at hmoved ⊢
  cases begun with
  | error out =>
    refine .inl ⟨out, (Option.some.inj hmoved).symm, ?_⟩
    exact (World.exec_post hbegun (wp_openMerge (C := fun _ => True) (fun _ _ => trivial))).1
  | ok plan =>
    have hdraft := drafted_of_begun hbegun
    dsimp only at hmoved ⊢
    obtain ⟨⟨tally, stop⟩, hlooped, hexec'⟩ := (Ports.worldOf blind L).exec_bind_some hmoved
    rw [hexec'] at hmoved ⊢
    refine .inr ⟨plan, tally, stop, (Option.some.inj hmoved).symm, hbegun, fun hstop hclear r hr => ?_⟩
    obtain ⟨hlive, hstaged⟩ := (World.exec_post hlooped (hdraft.wp_mergeLoop hclear _ _)).2 hstop r hr
    exact ⟨hlive.trans (hdraft.lookup_staged hr).symm, hstaged⟩

end Drafted

namespace Reached

variable {blind : Bool} {w : Workspace} {L : Listing} {J : JsonLibrary} {plan : MergePlan} {c c' : Card} {r : Bytes}

lemma mem_backup (h : Reached blind w L J plan c c') (hr : r ∈ L.files c' (w.config.backupFor w.id)) :
    r ∈ plan.toWrite ∨ r ∈ L.files c (w.config.backupFor w.id) := by
  by_cases hmem : r ∈ plan.toWrite
  · exact .inl hmem
  · obtain ⟨hne, hhas⟩ := Workspace.mem_files_backup.mp hr
    refine .inr (Workspace.mem_files_backup.mpr ⟨hne, ?_⟩)
    have hsame : (w.slot c' r).kept = (w.slot c r).kept := h.kept r hmem
    rwa [← hsame]

lemma clear_of_mem_backup (h : Reached blind w L J plan c c')
    (hleft : w.config.Apart w.id w.destination (L.files c (w.config.backupFor w.id)))
    (hr : r ∈ L.files c' (w.config.backupFor w.id)) : w.Clear (w.target r) :=
  (h.mem_backup hr).elim (h.clear r) (w.clear_of_apart hleft r)

lemma ne_nil (h : Reached blind w L J plan c c') (hr : r ∈ plan.toWrite) : r ≠ [] :=
  ((L.complete _ _ _).mp (h.staged.subset hr)).1

lemma lookup_other (h : Reached blind w L J plan c c') {path : Bytes} (hpath : w.config.Outside path)
    (hother : ∀ r ∈ plan.toWrite, path ≠ w.target r) : c'.lookup path = c.lookup path := by
  refine h.record.others path hpath (fun hmem => ?_)
  obtain ⟨r, hr, heq⟩ := List.mem_map.mp hmem
  exact hother r hr heq.symm

lemma lookup_unplanned (h : Reached blind w L J plan c c') (hr : r ∉ plan.toWrite)
    (hout : w.config.Outside (w.target r)) : c'.lookup (w.target r) = c.lookup (w.target r) := by
  refine h.lookup_other hout (fun r' hr' heq => ?_)
  exact hr (w.target_injective heq ▸ hr')

end Reached

end NsxManager.Cfw
