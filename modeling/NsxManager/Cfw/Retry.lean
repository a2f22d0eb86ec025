import NsxManager.Cfw.CutOff

/-! Recoveries that are interrupted themselves. -/

namespace NsxManager.Cfw

open NsxManager.Core Lib Infra

def afterRecoveries (L : Listing) (J : JsonLibrary) (config : CfwInstallConfig) (cuts : List (List PortFate))
    (c : Card) : Card :=
  cuts.foldl (fun c fates => ((Ports.world L).exec (recoverInterruptedMerge J config) fates c).state) c

lemma afterRecoveries_append (L : Listing) (J : JsonLibrary) (config : CfwInstallConfig)
    (cuts : List (List PortFate)) (cut : List PortFate) (c : Card) :
    afterRecoveries L J config (cuts ++ [cut]) c =
      ((Ports.world L).exec (recoverInterruptedMerge J config) cut (afterRecoveries L J config cuts c)).state := by
  rw [afterRecoveries, List.foldl_append]
  rfl

lemma faultless_of_cut {L : Listing} {α : Type} {p : PortProgram α} {cut : List PortFate} {c : Card}
    (hcut : ∀ fate ∈ cut, fate.failing = false) : Faultless (· ∈ ((Ports.world L).exec p cut c).log) :=
  fun _ hev => hcut _ ((Ports.world L).fate_mem_of_mem_log hev)

namespace Undo

def goal (M : Undo) (d : Desk) (r : Bytes) : Option Bytes := (d.slot r).settled (decide (r ∈ M.told d))

def Finished (M : Undo) (d d' : Desk) : Prop := ∀ r ∈ M.names, d'.slot r = ⟨M.goal d r, none, none⟩

structure Retrying (M : Undo) (d d' : Desk) : Prop where
  slots : ∀ r ∈ M.names, (d.slot r).Retried (M.goal d r) (d'.slot r)
  marker : d'.marker = d.marker ∨ d'.marker = none ∧ M.Finished d d'
  list : d'.list = d.list ∨ M.Finished d d'

lemma Retrying.refl (M : Undo) (d : Desk) : M.Retrying d d := ⟨fun _ _ => .untouched, .inl rfl, .inl rfl⟩

variable {M : Undo} {L : Listing} {J : JsonLibrary} {d d' : Desk} {c : Card}

lemma Finished.not_displacing (h : M.Finished d d') : ¬M.Displacing d' := by
  rintro ⟨r, hr, hkept⟩
  rw [h r hr] at hkept
  cases hkept

lemma Finished.retried (h : M.Finished d d') : ∀ r ∈ M.names, (d.slot r).Retried (M.goal d r) (d'.slot r) := by
  intro r hr
  rw [h r hr]
  exact .undone none

lemma Retrying.list_eq (h : M.Retrying d d') (hd : M.Displacing d') : d'.list = d.list :=
  h.list.resolve_right (fun hfinished => hfinished.not_displacing hd)

lemma Retrying.recorded (h : M.Retrying d d') (hrec : M.Recorded J d) (hd : M.Displacing d)
    (hmarker : d'.marker = d.marker) : M.Recorded J d' := by
  refine ⟨hmarker ▸ hrec.marker, fun r hr => hrec.list r (mem_told.mpr ⟨hd, ?_⟩)⟩
  obtain ⟨hd', hmem⟩ := mem_told.mp hr
  rwa [← h.list_eq hd']

lemma Finished.undone (h : M.Finished d d') (hgoal : ∀ r ∈ M.names, M.goal d' r = M.goal d r) :
    M.Finished d (Undone (M.told d') d') := by
  intro r hr
  change (⟨M.goal d' r, none, (d'.slot r).staged⟩ : Slot Bytes) = _
  rw [hgoal r hr, h r hr]

lemma Finished.trimming {d'' : Desk} (h : M.Finished d d')
    (htrim : ∀ r ∈ M.names, (d'.slot r).Trimmed (d''.slot r)) : M.Finished d d'' := by
  intro r hr
  have hslot := htrim r hr
  rw [h r hr] at hslot
  exact hslot.eq_of_bare

lemma Retrying.rollingBack (h : M.Retrying d d') (hgoal : ∀ r ∈ M.names, M.goal d' r = M.goal d r)
    (hmarker : d'.marker = d.marker) {c' : Card} (hcut : M.RollingBack (M.told d') d' c') :
    ∃ d'', M.Shows d'' c' ∧ M.Retrying d d'' := by
  rcases hcut with ⟨d'', hs, hundoing⟩ | ⟨d'', hs, htrim, hmarker', hlist⟩ | ⟨d'', hs, hslots, hmarker'⟩
  · refine ⟨d'', hs, fun r hr => ?_, .inl (hundoing.marker.trans hmarker), ?_⟩
    · exact (h.slots r hr).undoing (hgoal r hr) (hundoing.slots r hr)
    · refine h.list.imp (fun hlist => hundoing.list.trans hlist) (fun hfinished r hr => ?_)
      rcases hundoing.slots r hr with heq | heq
      · exact heq.trans (hfinished r hr)
      · exact heq.trans (hfinished.undone hgoal r hr)
  · refine ⟨d'', hs, fun r hr => Slot.retried_of_trimmed (hgoal r hr) (htrim r hr), .inl (hmarker'.trans hmarker), ?_⟩
    exact h.list.imp (fun h => hlist.trans h) (fun hfinished => (hfinished.undone hgoal).trimming htrim)
  · have hfinished : M.Finished d d'' := by
      intro r hr
      rw [hslots r hr, ← hgoal r hr]
      rfl
    refine ⟨d'', hs, hfinished.retried, ?_, .inr hfinished⟩
    exact hmarker'.imp (fun h => h.trans hmarker) (fun hnone => ⟨hnone, hfinished⟩)

lemma not_noted_of_none (hs : M.Shows d c) (hnone : d.marker = none) : ¬Noted M.config c := by
  rintro ⟨document, hdocument, _⟩
  exact absurd ((hs.marker.trans hnone).symm.trans hdocument) (by simp)

section Step

variable (hrec : M.Recorded J d) (hd : M.Displacing d) (hs : M.Shows d' c) (h : M.Retrying d d')
  (hgoal : ∀ r ∈ M.names, M.goal d' r = M.goal d r)

include hrec hd hs h hgoal

lemma Retrying.step {cut : List PortFate} (hcut : ∀ fate ∈ cut, fate.failing = false) :
    ∃ d'', M.Shows d'' ((Ports.world L).exec (recoverInterruptedMerge J M.config) cut c).state ∧
      M.Retrying d d'' := by
  rcases h.marker with hmarker | ⟨hnone, hfinished⟩
  · refine h.rollingBack hgoal hmarker (World.exec_invariant (World.wp_post (wp_recover (faultless_of_cut hcut) hs
      (h.recorded hrec hd hmarker) (fun _ h => h)) ?_))
    exact fun _ _ hend => .inr (.inr hend.1)
  · have hidle := not_noted_of_none hs hnone
    have hsame : ((Ports.world L).exec (recoverInterruptedMerge J M.config) cut c).state = c :=
      World.exec_invariant (I := fun c' => c' = c) (wp_recover_of_not_noted hidle (faultless_of_cut hcut) rfl)
    rw [hsame]
    exact ⟨d', hs, h⟩

lemma Retrying.last : ∃ out c', (Ports.world L).run .ok (recoverInterruptedMerge J M.config) c = (some out, c') ∧
    (∀ r ∈ M.names, c'.lookup (M.target r) = M.goal d r) ∧
    ∀ path, M.Clear path → path ∉ M.names.map M.target → c'.lookup path = M.before path := by
  rcases h.marker with hmarker | ⟨hnone, hfinished⟩
  · obtain ⟨out, c', hrun, hswept, _⟩ := run_recover (L := L) hs (h.recorded hrec hd hmarker)
    exact ⟨out, c', hrun, fun r hr => (hswept.lookup_target hr).trans (hgoal r hr),
      fun path hpath hnot => hswept.lookup_other hpath hnot⟩
  · have hidle := not_noted_of_none hs hnone
    obtain ⟨out, hrun⟩ := run_recover_of_not_noted (L := L) (J := J) hidle
    refine ⟨out, c, hrun, fun r hr => ?_, hs.others⟩
    exact congrArg Slot.live ((hs.slots r hr).trans (hfinished r hr))

end Step

end Undo

/-- Between recoveries of a merge that was cut off on the card `first`: as long as there is a backup,
no file that was put back looks like one the merge created, and after that none of those is left. -/
def Steady (L : Listing) (config : CfwInstallConfig) (id destination : Bytes) (names : List Bytes)
    (first c : Card) : Prop :=
  Listed config first → ∀ r ∈ names,
    (L.files c (config.backupFor id) ≠ [] → Orphan config id destination c r → Orphan config id destination first r) ∧
    (L.files c (config.backupFor id) = [] → Orphan config id destination first r → ¬Orphan config id destination c r)

instance (L : Listing) (config : CfwInstallConfig) (id destination : Bytes) (names : List Bytes) (first c : Card) :
    Decidable (Steady L config id destination names first c) := inferInstanceAs (Decidable (_ → ∀ r ∈ names, _))

namespace Undo

variable {M : Undo} {L : Listing} {J : JsonLibrary} {d d' : Desk} {first c : Card}

lemma goal_eq_of_steady {planned : List Bytes} (hs₁ : M.Shows d first) (hs : M.Shows d' c) (h : M.Retrying d d')
    (hd : M.Displacing d) (hplan : ∀ r, r ∈ planOf d.list ↔ Listed M.config first ∧ r ∈ planned)
    (hsteady : Steady L M.config M.id M.destination planned first c) :
    ∀ r ∈ M.names, M.goal d' r = M.goal d r := by
  intro r hr
  have hslot := h.slots r hr
  have htold' : r ∈ M.told d' ↔ M.Displacing d' ∧ r ∈ planOf d.list := by
    rw [mem_told]
    refine and_congr_right (fun hd' => ?_)
    rw [h.list_eq hd']
  by_cases hmem : r ∈ planOf d.list
  · obtain ⟨hlisted, hplanned⟩ := (hplan r).mp hmem
    obtain ⟨horphan, hleft⟩ := hsteady hlisted r hplanned
    rw [M.orphan_iff, M.orphan_iff, hs₁.slots r hr, hs.slots r hr] at horphan hleft
    rw [← M.backupDir] at horphan hleft
    have htold : decide (r ∈ M.told d) = true := decide_eq_true (mem_told.mpr ⟨hd, hmem⟩)
    rw [goal, htold] at hslot
    rw [goal, goal, htold]
    by_cases hd' : M.Displacing d'
    · rw [decide_eq_true (htold'.mpr ⟨hd', hmem⟩)]
      exact hslot.settled_true (horphan ((displacing_iff hs).mpr hd'))
    · rw [decide_eq_false (fun hin => hd' (htold'.mp hin).1)]
      have hempty : L.files c M.marker.backupDir = [] := by
        by_contra hne
        exact hd' ((displacing_iff hs).mp hne)
      refine hslot.settled_false (fun heq => Slot.settled_false_of_not_fresh ?_ (fun hfresh => ?_))
      · rw [← heq]
        by_contra hne
        exact hd' ⟨r, hr, Option.isSome_iff_ne_none.mpr hne⟩
      · exact hleft hempty hfresh (heq ▸ hfresh)
  · rw [goal, goal, decide_eq_false (fun hin => hmem (htold'.mp hin).2),
      decide_eq_false (fun hin => hmem (mem_told.mp hin).2)]
    rw [goal, decide_eq_false (fun hin => hmem (mem_told.mp hin).2)] at hslot
    exact hslot.settled_false (fun _ => rfl)

lemma retrying_afterRecoveries {planned : List Bytes} (hrec : M.Recorded J d) (hd : M.Displacing d)
    (hs : M.Shows d first) (hplan : ∀ r, r ∈ planOf d.list ↔ Listed M.config first ∧ r ∈ planned)
    (cuts : List (List PortFate)) (hcuts : ∀ cut ∈ cuts, ∀ fate ∈ cut, fate.failing = false)
    (hsteady : ∀ done, done <+: cuts → Steady L M.config M.id M.destination planned first
      (afterRecoveries L J M.config done first)) :
    ∃ d', M.Shows d' (afterRecoveries L J M.config cuts first) ∧ M.Retrying d d' ∧
      ∀ r ∈ M.names, M.goal d' r = M.goal d r := by
  induction cuts using List.reverseRecOn with
  | nil => exact ⟨d, hs, .refl M d, fun _ _ => rfl⟩
  | append_singleton cuts cut ih =>
    obtain ⟨d', hs', hretrying, hgoal⟩ := ih (fun c hc => hcuts c (List.mem_append_left _ hc))
      (fun done hdone => hsteady done (hdone.trans (List.prefix_append _ _)))
    obtain ⟨d'', hs'', hretrying'⟩ := hretrying.step (L := L) hrec hd hs' hgoal (hcuts cut (by simp))
    have hnow := hsteady _ (List.prefix_refl _)
    rw [← afterRecoveries_append] at hs''
    exact ⟨d'', hs'', hretrying', goal_eq_of_steady hs hs'' hretrying' hd hplan hnow⟩

end Undo

lemma afterRecoveries_of_not_noted {L : Listing} {J : JsonLibrary} {config : CfwInstallConfig} {c : Card}
    (h : ¬Noted config c) (cuts : List (List PortFate)) (hcuts : ∀ cut ∈ cuts, ∀ fate ∈ cut, fate.failing = false) :
    afterRecoveries L J config cuts c = c := by
  induction cuts using List.reverseRecOn with
  | nil => rfl
  | append_singleton cuts cut ih =>
    rw [afterRecoveries_append, ih (fun c hc => hcuts c (List.mem_append_left _ hc))]
    exact World.exec_invariant (I := fun c' => c' = c)
      (wp_recover_of_not_noted h (faultless_of_cut (hcuts cut (by simp))) rfl)

theorem interrupted_recoveries_come_to_one (L : Listing) (J : JsonLibrary) (config : CfwInstallConfig)
    (watched : Bool) (item : CatalogItem) (preserve : PreserveRules) (destination : Bytes) (fates : List PortFate)
    (c : Card) (plan : MergePlan) (cuts : List (List PortFate))
    (hplain : ∀ r ∈ L.files c (config.stagingFor item.id), byte '\n' ∉ r)
    (hbegun : ((Ports.world L).exec (beginMerge J config item preserve (config.stagingFor item.id) destination)
      fates c).outcome = some (.ok plan))
    (hdisplaced : L.files ((Ports.world L).exec (moveTree J config watched item preserve (config.stagingFor item.id)
      destination) fates c).state (config.backupFor item.id) ≠ [])
    (hcuts : ∀ cut ∈ cuts, ∀ fate ∈ cut, fate.failing = false)
    (hapart : config.Apart item.id destination (plan.toWrite ++ L.files c (config.backupFor item.id)))
    (hsteady : ∀ done, done <+: cuts → Steady L config item.id destination plan.toWrite
      ((Ports.world L).exec (moveTree J config watched item preserve (config.stagingFor item.id) destination)
        fates c).state
      (afterRecoveries L J config done ((Ports.world L).exec (moveTree J config watched item preserve
        (config.stagingFor item.id) destination) fates c).state)) :
    let first := ((Ports.world L).exec (moveTree J config watched item preserve (config.stagingFor item.id)
      destination) fates c).state
    ∃ out after out' after', (Ports.world L).run .ok (recoverInterruptedMerge J config) first = (some out, after) ∧
      (Ports.world L).run .ok (recoverInterruptedMerge J config) (afterRecoveries L J config cuts first) =
        (some out', after') ∧
      ∀ path, config.Outside path → after'.lookup path = after.lookup path := by
  intro first
  have hdraft := drafted_of_begun hbegun
  have hplain' : ∀ r ∈ plan.toWrite, byte '\n' ∉ r := fun r hr => hplain r (hdraft.staged.subset hr)
  let w : Workspace := ⟨config, item.id, destination, hdraft.valid⟩
  have hreached : Reached false w L J plan c first :=
    reached_of_begun watched hdraft.valid hbegun (fun r hr => hapart r (List.mem_append_left _ hr))
  by_cases hnoted : Noted config first
  · obtain ⟨document, hdocument, hshort⟩ := hnoted
    obtain ⟨document', hdocument', hparse⟩ := hreached.record.marker
    obtain rfl : document' = document := Option.some.inj (hdocument'.symm.trans hdocument)
    have hclear : ∀ r ∈ w.onCard L first, w.Clear (w.target r) :=
      fun _ => hreached.clear_of_onCard hplain' (fun r hr => hapart r (List.mem_append_right _ hr))
    let M : Undo := hreached.marks.undo L first hclear
    have hs : M.Shows (w.desk first) first := hreached.marks.shows_desk hclear
    have hrec : M.Recorded J (w.desk first) := hreached.marks.recorded_desk hclear hdocument' hshort hparse
    have hd : M.Displacing (w.desk first) := (Undo.displacing_iff (L := L) hs).mp (M.backupDir ▸ hdisplaced)
    obtain ⟨d', hs', hretrying, hgoal⟩ := Undo.retrying_afterRecoveries hrec hd hs
      (fun r => hreached.mem_planOf hplain') cuts hcuts hsteady
    obtain ⟨out, after, hrun, htarget, hother⟩ :=
      (Undo.Retrying.refl M (w.desk first)).last (L := L) hrec hd hs (fun _ _ => rfl)
    obtain ⟨out', after', hrun', htarget', hother'⟩ := hretrying.last (L := L) hrec hd hs' hgoal
    refine ⟨out, after, out', after', hrun, hrun', fun path hpath => ?_⟩
    by_cases hmem : path ∈ M.names.map M.target
    · obtain ⟨r, hr, rfl⟩ := List.mem_map.mp hmem
      rw [htarget r hr, htarget' r hr]
    · have hpath' := M.clear_of_outside hpath
      rw [hother path hpath' hmem, hother' path hpath' hmem]
  · obtain ⟨out, hrun⟩ := run_recover_of_not_noted (L := L) (J := J) hnoted
    rw [afterRecoveries_of_not_noted hnoted cuts hcuts]
    exact ⟨out, first, out, first, hrun, hrun, fun _ _ => rfl⟩

theorem recovery_cut_between_moves :
    let first := (Sample.move Sample.pair (List.replicate 7 .ok)).state
    ∃ out after out' after', Sample.recover first = (some out, after) ∧
      Sample.recover (afterRecoveries .stored JsonCodec.library Sample.config [List.replicate 9 .ok] first) =
        (some out', after') ∧
      ∀ path, Sample.config.Outside path → after'.lookup path = after.lookup path := by
  have hsteady : ∀ done ∈ [List.replicate 9 PortFate.ok].inits,
      Steady .stored Sample.config Sample.item.id (ascii "/d") Sample.pairPlan.toWrite
        (Sample.move Sample.pair (List.replicate 7 .ok)).state
        (afterRecoveries .stored JsonCodec.library Sample.config done
          (Sample.move Sample.pair (List.replicate 7 .ok)).state) := by
    decide +kernel
  exact interrupted_recoveries_come_to_one .stored JsonCodec.library Sample.config false Sample.item Sample.rules
    (ascii "/d") (List.replicate 7 .ok) Sample.pair Sample.pairPlan [List.replicate 9 .ok] (by decide +kernel)
    (by decide +kernel) (by decide +kernel) (by decide +kernel) (apart_of_outside (by decide +kernel))
    (fun done hdone => hsteady done ((List.mem_inits _ _).mpr hdone))

theorem restored_file_lost_by_second_recovery :
    (Sample.recover (Sample.move Sample.pair (List.replicate 14 .ok)).state).2.lookup (ascii "/d/a") = some [1] ∧
      (Sample.recover (afterRecoveries .stored JsonCodec.library Sample.config [List.replicate 9 .ok]
        (Sample.move Sample.pair (List.replicate 14 .ok)).state)).2.lookup (ascii "/d/a") = none := by
  decide +kernel

end NsxManager.Cfw
