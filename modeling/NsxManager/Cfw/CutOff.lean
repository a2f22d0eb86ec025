import NsxManager.Cfw.Failing

/-! What startup makes of a merge, or of its commit, that a power cut interrupted. -/

namespace NsxManager.Cfw

open NsxManager.Core Lib Infra

/-- On the card of the cut: the marker can be read, the backup holds nothing but the files that were in place, and
no file of the package is in place unless the plan can be read and there is a backup. -/
def Undoable (L : Listing) (config : CfwInstallConfig) (id destination : Bytes) (plan : MergePlan) (c cut : Card) :
    Prop :=
  Noted config cut ∧
    (∀ r ∈ L.files cut (config.backupFor id), config.Outside (join destination r) →
      cut.lookup (config.backupFor id ++ ascii "/" ++ r) = c.lookup (join destination r)) ∧
    ((∀ r ∈ plan.toWrite, ¬Orphan config id destination cut r) ∨
      L.files cut (config.backupFor id) ≠ [] ∧ Listed config cut)

instance (L : Listing) (config : CfwInstallConfig) (id destination : Bytes) (plan : MergePlan) (c cut : Card) :
    Decidable (Undoable L config id destination plan c cut) := inferInstanceAs (Decidable (_ ∧ _ ∧ _))

namespace Reached

variable {w : Workspace} {L : Listing} {J : JsonLibrary} {plan : MergePlan} {c cut : Card} {r : Bytes}
  (h : Reached false w L J plan c cut) (hplain : ∀ r ∈ plan.toWrite, byte '\n' ∉ r)

include h hplain

lemma mem_planOf : r ∈ planOf (cut.lookup w.config.mergeFileListPath) ↔ Listed w.config cut ∧ r ∈ plan.toWrite := by
  rw [h.record.list, mem_planOf_planText (fun r hr => ⟨h.ne_nil hr, hplain r hr⟩)]
  simp [Listed, h.record.list]

lemma clear_of_onCard (hleft : w.config.Apart w.id w.destination (L.files c (w.config.backupFor w.id)))
    (hr : r ∈ w.onCard L cut) : w.Clear (w.target r) := by
  rcases List.mem_append.mp hr with hr | hr
  · exact h.clear r ((h.mem_planOf hplain).mp hr).2
  · exact h.clear_of_mem_backup hleft hr

lemma settled_iff (hr : w.config.Outside (w.target r)) :
    (w.slot cut r).settled (decide (L.files cut (w.config.backupFor w.id) ≠ [] ∧
        r ∈ planOf (cut.lookup w.config.mergeFileListPath))) = c.lookup (w.target r) ↔
      ((w.slot cut r).kept.isSome → (w.slot cut r).kept = c.lookup (w.target r)) ∧
        (r ∈ plan.toWrite → (w.slot cut r).Fresh →
          L.files cut (w.config.backupFor w.id) ≠ [] ∧ Listed w.config cut) := by
  simp only [h.mem_planOf hplain]
  by_cases hmem : r ∈ plan.toWrite
  · simp only [(h.slots r hmem).settled_iff, hmem, and_true, decide_eq_true_iff, true_imp_iff]
  · simp only [hmem, and_false, decide_false, false_imp_iff, and_true]
    exact Slot.settled_false_iff (h.lookup_unplanned hmem hr)

lemma undone_iff (hout : ∀ r ∈ plan.toWrite, w.config.Outside (w.target r))
    (hleft : w.config.Apart w.id w.destination (L.files c (w.config.backupFor w.id)))
    (hnoted : Noted w.config cut) :
    ∃ out after, (Ports.world L).run .ok (recoverInterruptedMerge J w.config) cut = (some out, after) ∧
      ((∀ path, w.config.Outside path → after.lookup path = c.lookup path) ∧
          after.lookup w.config.markerPath = none ↔ Undoable L w.config w.id w.destination plan c cut) := by
  obtain ⟨document, hdocument, hparse⟩ := h.record.marker
  have hshort : document.length ≤ 64 * 1024 := by
    obtain ⟨document', hdocument', hshort⟩ := hnoted
    exact Option.some.inj (hdocument.symm.trans hdocument') ▸ hshort
  obtain ⟨out, after, hrun, htarget, hother, hgone⟩ :=
    h.marks.run_recover (fun _ => h.clear_of_onCard hplain hleft) hdocument hshort hparse
  refine ⟨out, after, hrun, ?_⟩
  have hback : ∀ r, r ≠ [] → w.config.Outside (w.target r) → (after.lookup (w.target r) = c.lookup (w.target r) ↔
      ((w.slot cut r).kept.isSome → (w.slot cut r).kept = c.lookup (w.target r)) ∧
        (r ∈ plan.toWrite → (w.slot cut r).Fresh →
          L.files cut (w.config.backupFor w.id) ≠ [] ∧ Listed w.config cut)) := by
    intro r hne hr
    rw [htarget r hne (w.clear_of_outside hr)]
    exact h.settled_iff hplain hr
  constructor
  · rintro ⟨hsame, _⟩
    refine ⟨hnoted, fun r hr houtside => ?_, ?_⟩
    · obtain ⟨hne, hsome⟩ := Workspace.mem_files_backup.mp hr
      exact ((hback r hne houtside).mp (hsame _ houtside)).1 hsome
    · by_cases hread : L.files cut (w.config.backupFor w.id) ≠ [] ∧ Listed w.config cut
      · exact .inr hread
      · refine .inl (fun r hr horphan => hread ?_)
        exact ((hback r (h.ne_nil hr) (hout r hr)).mp (hsame _ (hout r hr))).2 hr (w.orphan_iff.mp horphan)
  · rintro ⟨_, hkept, horphan⟩
    refine ⟨fun path hpath => ?_, hgone⟩
    by_cases hpath' : ∃ r, r ≠ [] ∧ path = w.target r
    · obtain ⟨r, hne, rfl⟩ := hpath'
      refine (hback r hne hpath).mpr ⟨fun hsome => ?_, fun hmem hfresh => ?_⟩
      · exact hkept r (Workspace.mem_files_backup.mpr ⟨hne, hsome⟩) hpath
      · exact horphan.resolve_left (fun hno => hno r hmem (w.orphan_iff.mpr hfresh))
    · have hnot : ∀ r, r ≠ [] → path ≠ w.target r := fun r hne heq => hpath' ⟨r, hne, heq⟩
      rw [hother path (w.clear_of_outside hpath) hnot]
      exact h.lookup_other hpath (fun r hr => hnot r (h.ne_nil hr))

end Reached

/-- On the card of the cut, if a recovery will roll back: the backup holds under a planned name only the new file or
the one that was in place and, if the plan can be read, under every name that was replaced. -/
def Reversible (L : Listing) (config : CfwInstallConfig) (id destination : Bytes) (plan : MergePlan) (c cut : Card) :
    Prop :=
  Noted config cut → L.files cut (config.backupFor id) ≠ [] → ∀ r ∈ plan.toWrite,
    (cut.has (config.backupFor id ++ ascii "/" ++ r) = true →
      cut.lookup (config.backupFor id ++ ascii "/" ++ r) = c.lookup (config.stagingFor id ++ ascii "/" ++ r) ∨
        cut.lookup (config.backupFor id ++ ascii "/" ++ r) = c.lookup (join destination r)) ∧
    (Listed config cut → c.has (join destination r) = true →
      cut.has (config.backupFor id ++ ascii "/" ++ r) = true)

instance (L : Listing) (config : CfwInstallConfig) (id destination : Bytes) (plan : MergePlan) (c cut : Card) :
    Decidable (Reversible L config id destination plan c cut) := inferInstanceAs (Decidable (_ → _ → ∀ r ∈ _, _))

/-- A commit that was cut off: it only takes away, and only the item's working files. -/
structure Workspace.Thinned (w : Workspace) (c c' : Card) : Prop where
  clear : ∀ path, w.Clear path → c'.lookup path = c.lookup path
  name : ∀ a, c'.lookup (w.name a) = c.lookup (w.name a) ∨ c'.lookup (w.name a) = none

lemma Workspace.Marks.thinned_commit {w : Workspace} {marker : MergeMarker} {L : Listing} (hmarks : w.Marks marker)
    (cut : List PortFate) (c : Card) :
    w.Thinned c ((Ports.world L).exec (commit w.config marker) cut c).state := by
  refine ⟨fun path hpath => ?_, fun a => ?_⟩
  · exact Ports.lookup_exec (hmarks.asks_commit.mono (fun _ => Sweeps.spares)) cut hpath
  · rw [Ports.lookup_of_deletes (hmarks.asks_commit.mono (fun _ => Sweeps.deletes))]
    split
    · exact .inr rfl
    · exact .inl rfl

namespace Reached

variable {w : Workspace} {L : Listing} {J : JsonLibrary} {plan : MergePlan} {c merged cut : Card} {r : Bytes}
  (h : Reached false w L J plan c merged) (hplain : ∀ r ∈ plan.toWrite, byte '\n' ∉ r) (hthin : w.Thinned merged cut)
  (hplace : ∀ r ∈ plan.toWrite, merged.lookup (w.target r) = c.lookup (w.name (.staged r)) ∧
    merged.lookup (w.name (.staged r)) = none)

include h hthin

lemma parse_thinned {document : Bytes} (hdocument : cut.lookup w.config.markerPath = some document) :
    parseMergeMarker J document = .ok plan.marker := by
  obtain ⟨document', hdocument', hparse⟩ := h.record.marker
  rcases hthin.name (.leaf .marker) with hsame | hnone
  · exact Option.some.inj (hdocument'.symm.trans (hsame.symm.trans hdocument)) ▸ hparse
  · exact absurd (hnone.symm.trans hdocument) (by simp)

include hplain

lemma mem_planOf_thinned :
    r ∈ planOf (cut.lookup w.config.mergeFileListPath) ↔ Listed w.config cut ∧ r ∈ plan.toWrite := by
  rcases hthin.name (.leaf .list) with hsame | hnone
  · have hsame' : cut.lookup w.config.mergeFileListPath = merged.lookup w.config.mergeFileListPath := hsame
    rw [Listed, hsame', h.mem_planOf hplain]
    rfl
  · have hnone' : cut.lookup w.config.mergeFileListPath = none := hnone
    simp [Listed, hnone', planOf]

lemma clear_of_onCard_thinned (hleft : w.config.Apart w.id w.destination (L.files c (w.config.backupFor w.id)))
    (hr : r ∈ w.onCard L cut) : w.Clear (w.target r) := by
  rcases List.mem_append.mp hr with hr | hr
  · exact h.clear r ((h.mem_planOf_thinned hplain hthin).mp hr).2
  · obtain ⟨hne, hsome⟩ := Workspace.mem_files_backup.mp hr
    refine h.clear_of_mem_backup hleft (Workspace.mem_files_backup.mpr ⟨hne, ?_⟩)
    have hsub : (w.slot cut r).kept = (w.slot merged r).kept ∨ (w.slot cut r).kept = none := hthin.name (.kept r)
    rcases hsub with hsame | hnone
    · rwa [← hsame]
    · simp [hnone] at hsome

include hplace

lemma settled_thinned_iff (hr : r ∈ plan.toWrite) :
    (w.slot cut r).settled (decide (L.files cut (w.config.backupFor w.id) ≠ [] ∧
        r ∈ planOf (cut.lookup w.config.mergeFileListPath))) = c.lookup (w.name (.staged r)) ∨
      (w.slot cut r).settled (decide (L.files cut (w.config.backupFor w.id) ≠ [] ∧
        r ∈ planOf (cut.lookup w.config.mergeFileListPath))) = c.lookup (w.target r) ↔
      ((w.slot cut r).kept.isSome → (w.slot cut r).kept = c.lookup (w.name (.staged r)) ∨
        (w.slot cut r).kept = c.lookup (w.target r)) ∧
      (L.files cut (w.config.backupFor w.id) ≠ [] ∧ Listed w.config cut →
        (c.lookup (w.target r)).isSome → (w.slot cut r).kept.isSome) := by
  obtain ⟨hlive, hstaged⟩ := hplace r hr
  have hlive' : (w.slot cut r).live = c.lookup (w.name (.staged r)) := (hthin.clear _ (h.clear r hr)).trans hlive
  have hstaged' : (w.slot cut r).staged = none := (hthin.name (.staged r)).elim (fun heq => heq.trans hstaged) id
  obtain ⟨new, hnew⟩ := Option.isSome_iff_exists.mp ((L.complete _ _ _).mp (h.staged.subset hr)).2
  have hnew' : c.lookup (w.name (.staged r)) = some new := hnew
  simp only [h.mem_planOf_thinned hplain hthin, hr, and_true]
  rw [hnew'] at hlive' ⊢
  rw [Slot.settled_installed_iff hlive' hstaged', decide_eq_true_iff]

lemma committed_iff (hleft : w.config.Apart w.id w.destination (L.files c (w.config.backupFor w.id))) :
    ∃ out after, (Ports.world L).run .ok (recoverInterruptedMerge J w.config) cut = (some out, after) ∧
      ((∀ r ∈ plan.toWrite, after.lookup (w.target r) = c.lookup (w.name (.staged r)) ∨
          after.lookup (w.target r) = c.lookup (w.target r)) ↔
        Reversible L w.config w.id w.destination plan c cut) := by
  by_cases hnoted : Noted w.config cut
  · obtain ⟨document, hdocument, hshort⟩ := hnoted
    obtain ⟨out, after, hrun, htarget, _⟩ := h.marks.run_recover
      (fun _ => h.clear_of_onCard_thinned hplain hthin hleft) hdocument hshort (h.parse_thinned hthin hdocument)
    refine ⟨out, after, hrun, ?_⟩
    have hleaves := fun r hr => h.settled_thinned_iff hplain hthin hplace (r := r) hr
    constructor
    · intro hall _ hbackup r hr
      have hkeeps := hall r hr
      rw [htarget r (h.ne_nil hr) (h.clear r hr)] at hkeeps
      obtain ⟨hkept, hreplaced⟩ := (hleaves r hr).mp hkeeps
      exact ⟨hkept, fun hlisted => hreplaced ⟨hbackup, hlisted⟩⟩
    · intro hcond r hr
      rw [htarget r (h.ne_nil hr) (h.clear r hr)]
      by_cases hbackup : L.files cut (w.config.backupFor w.id) = []
      · have hnone : ¬(w.slot cut r).kept.isSome = true := by
          intro hsome
          have hmem := Workspace.mem_files_backup (L := L).mpr ⟨h.ne_nil hr, hsome⟩
          simp [hbackup] at hmem
        exact (hleaves r hr).mpr ⟨fun hsome => absurd hsome hnone, fun hread => absurd hbackup hread.1⟩
      · obtain ⟨hkept, hreplaced⟩ := hcond ⟨document, hdocument, hshort⟩ hbackup r hr
        exact (hleaves r hr).mpr ⟨hkept, fun hread => hreplaced hread.2⟩
  · obtain ⟨out, hrun⟩ := run_recover_of_not_noted (L := L) (J := J) hnoted
    refine ⟨out, cut, hrun, iff_of_true (fun r hr => .inl ?_) (fun hnow => absurd hnow hnoted)⟩
    rw [hthin.clear _ (h.clear r hr), (hplace r hr).1]

end Reached

namespace Sample

def pair : Card :=
  cardOf [(ascii "/d/a", [1]), (ascii "/d/b", [2]), (ascii "/t/p/a", [3]), (ascii "/t/p/b", [4])]

def pairPlan : MergePlan := ⟨plan.marker, [ascii "b", ascii "a"], 0⟩

def commit (card : Card) (cut : List PortFate) : Card :=
  ((Ports.world .stored).exec (Cfw.commit config plan.marker) cut card).state

end Sample

end NsxManager.Cfw
