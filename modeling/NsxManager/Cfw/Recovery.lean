import NsxManager.Cfw.Atomic

/-! What startup makes of a merge that a power cut interrupted. -/

namespace NsxManager.Cfw

open NsxManager.Core Lib Infra

lemma plannedIn_planText {names : List Bytes} (h : ∀ r ∈ names, r ≠ [] ∧ byte '\n' ∉ r) :
    plannedIn (planText names) = names := by
  induction names with
  | nil => decide
  | cons r rest ih =>
    obtain ⟨hne, hnewline⟩ := h r List.mem_cons_self
    have htext : planText (r :: rest) = r ++ byte '\n' :: planText rest := by
      rw [planText, List.flatMap_cons, List.append_assoc]
      rfl
    rw [plannedIn, htext, List.splitOn_append_cons_self_of_not_mem hnewline, List.filter_cons_of_pos (by simpa using hne)]
    exact congrArg (List.cons r) (ih (fun r' hr' => h r' (List.mem_cons_of_mem _ hr')))

/-- What `readPlannedFiles` returns where the plan holds `text`. -/
def planOf (text : Option Bytes) : List Bytes :=
  match text.filter (fun raw => raw.length ≤ 8 * 1024 * 1024) with
  | none => []
  | some raw => plannedIn raw

lemma mem_planOf_planText {names : List Bytes} (h : ∀ r ∈ names, r ≠ [] ∧ byte '\n' ∉ r) {r : Bytes} :
    r ∈ planOf (some (planText names)) ↔ (planText names).length ≤ 8 * 1024 * 1024 ∧ r ∈ names := by
  unfold planOf
  by_cases hshort : (planText names).length ≤ 8 * 1024 * 1024
  · rw [Option.filter_some_pos (by simpa using hshort)]
    simp only [plannedIn_planText h, hshort, true_and]
  · rw [Option.filter_some_neg (by simpa using hshort)]
    simp [hshort]

lemma ne_nil_of_mem_planOf {text : Option Bytes} {r : Bytes} (h : r ∈ planOf text) : r ≠ [] := by
  unfold planOf at h
  split at h
  · cases h
  · simpa using (List.mem_filter.mp h).2

lemma decideMergeRecovery_action {marker : MergeMarker} {present : MergePresence} (h : present.marker = true) :
    (decideMergeRecovery (some marker) present).action =
      if present.backup = true then .rollBack else .cleanUpOnly := by
  simp only [decideMergeRecovery, h, Bool.not_true, Bool.false_eq_true, if_false]
  split
  · rfl
  · split <;> rfl

section Survey

variable {L : Listing} {J : JsonLibrary} {config : CfwInstallConfig} {c : Card} {marker : MergeMarker}
  {document : Bytes}

def seen (L : Listing) (c : Card) (marker : MergeMarker) : MergePresence :=
  ⟨true, !(L.files c marker.stagingDir).isEmpty, !(L.files c marker.backupDir).isEmpty, true⟩

variable (hmarker : c.lookup config.markerPath = some document) (hshort : document.length ≤ 64 * 1024)
  (hparse : parseMergeMarker J document = .ok marker)

include hmarker hshort hparse

lemma wp_survey {α : Type} {A : Event PortOp PortOp.Reply PortFate → Prop} {C : Card → Prop}
    {Q : α → Card → Prop} {k : Option MergeMarker × MergePresence → PortProgram α} (hA : Faultless A) (hC : C c)
    (hk : (Ports.world L).wp A C (k (some marker, seen L c marker)) Q c) :
    (Ports.world L).wp A C (survey J config >>= k) Q c := by
  have hhas : c.has config.markerPath = true := (c.has_eq_true _).mpr ⟨_, hmarker⟩
  rw [survey, Program.bind_assoc]
  refine Ports.wp_probe hC ?_
  rw [hhas, if_neg (by decide), Program.bind_assoc]
  refine Ports.wp_readText hC (fun h => absurd h hA.not) ?_
  rw [hmarker, Option.filter_some_pos (by simpa using hshort)]
  simp only [hparse]
  exact Ports.wp_listFilesRecursive hC (Ports.wp_listFilesRecursive hC hk)

lemma run_survey : (Ports.world L).run .ok (survey J config) c = (some (some marker, seen L c marker), c) := by
  have hhas : c.has config.markerPath = true := (c.has_eq_true _).mpr ⟨_, hmarker⟩
  rw [survey, Ports.run_probe, hhas, if_neg (by decide), Ports.run_readText, hmarker,
    Option.filter_some_pos (by simpa using hshort)]
  simp only [hparse, Ports.run_listFilesRecursive]
  rfl

end Survey

def Noted (config : CfwInstallConfig) (c : Card) : Prop :=
  ∃ document ∈ c.lookup config.markerPath, document.length ≤ 64 * 1024

def Listed (config : CfwInstallConfig) (c : Card) : Prop :=
  ∃ text ∈ c.lookup config.mergeFileListPath, text.length ≤ 8 * 1024 * 1024

instance (config : CfwInstallConfig) (c : Card) : Decidable (Noted config c) :=
  inferInstanceAs (Decidable (∃ document ∈ c.lookup config.markerPath, _))

instance (config : CfwInstallConfig) (c : Card) : Decidable (Listed config c) :=
  inferInstanceAs (Decidable (∃ text ∈ c.lookup config.mergeFileListPath, _))

section Idle

variable {L : Listing} {J : JsonLibrary} {config : CfwInstallConfig} {c : Card}

lemma wp_recover_of_not_noted {A : Event PortOp PortOp.Reply PortFate → Prop} {C : Card → Prop}
    (h : ¬Noted config c) (hA : Faultless A) (hC : C c) :
    (Ports.world L).wp A C (recoverInterruptedMerge J config) (fun _ c' => c' = c) c := by
  rw [recoverInterruptedMerge, survey, Program.bind_assoc]
  refine Ports.wp_probe hC ?_
  cases hmarker : c.lookup config.markerPath with
  | none =>
    rw [(c.has_eq_false _).mpr hmarker]
    rfl
  | some document =>
    have hlong : ¬document.length ≤ 64 * 1024 := fun hshort => h ⟨document, hmarker, hshort⟩
    rw [(c.has_eq_true _).mpr ⟨_, hmarker⟩, if_neg (by decide), Program.bind_assoc]
    refine Ports.wp_readText hC (fun h => absurd h hA.not) ?_
    rw [hmarker, Option.filter_some_neg (by simpa using hlong)]
    rfl

lemma run_recover_of_not_noted (h : ¬Noted config c) :
    ∃ out, (Ports.world L).run .ok (recoverInterruptedMerge J config) c = (some out, c) := by
  rw [recoverInterruptedMerge, survey, Program.bind_assoc, Ports.run_probe]
  cases hmarker : c.lookup config.markerPath with
  | none =>
    rw [(c.has_eq_false _).mpr hmarker]
    exact ⟨_, rfl⟩
  | some document =>
    have hlong : ¬document.length ≤ 64 * 1024 := fun hshort => h ⟨document, hmarker, hshort⟩
    rw [(c.has_eq_true _).mpr ⟨_, hmarker⟩, if_neg (by decide), Program.bind_assoc, Ports.run_readText, hmarker,
      Option.filter_some_neg (by simpa using hlong)]
    exact ⟨_, rfl⟩

end Idle

namespace Undo

section Recover

variable (M : Undo)

def Displacing (d : Desk) : Prop := ∃ r ∈ M.names, (d.slot r).kept.isSome = true

instance (d : Desk) : Decidable (M.Displacing d) := inferInstanceAs (Decidable (∃ r ∈ M.names, _))

/-- The names a recovery is told of: it reads the plan only if there is a backup. -/
def told (d : Desk) : List Bytes := if M.Displacing d then planOf d.list else []

variable {M} {d : Desk} {c : Card}

lemma mem_told {r : Bytes} : r ∈ M.told d ↔ M.Displacing d ∧ r ∈ planOf d.list := by
  unfold told
  split
  · next h => exact (and_iff_right h).symm
  · next h => simp [h]

lemma displacing_iff {L : Listing} (hs : M.Shows d c) : L.files c M.marker.backupDir ≠ [] ↔ M.Displacing d := by
  constructor
  · intro h
    obtain ⟨r, hr⟩ := List.exists_mem_of_ne_nil _ h
    exact ⟨r, (mem_backup hs).mp hr⟩
  · rintro ⟨r, hr⟩ h
    have hmem := (mem_backup (L := L) hs).mpr hr
    rw [h] at hmem
    cases hmem

structure Recorded (M : Undo) (J : JsonLibrary) (d : Desk) : Prop where
  marker : ∃ document, d.marker = some document ∧ document.length ≤ 64 * 1024 ∧
    parseMergeMarker J document = .ok M.marker
  list : ∀ r ∈ M.told d, r ∈ M.names

variable {L : Listing} {J : JsonLibrary} {A : Event PortOp PortOp.Reply PortFate → Prop} {C : Card → Prop}

lemma wp_readPlannedFiles {α : Type} {Q : α → Card → Prop} {k : List Bytes → PortProgram α} (hA : Faultless A)
    (hs : M.Shows d c) (hd : M.Displacing d) (hC : C c) (hk : (Ports.world L).wp A C (k (M.told d)) Q c) :
    (Ports.world L).wp A C (readPlannedFiles M.config >>= k) Q c := by
  have hlist : c.lookup M.config.mergeFileListPath = d.list := hs.list
  rw [told, if_pos hd, planOf] at hk
  rw [readPlannedFiles, Program.bind_assoc]
  refine Ports.wp_readText hC (fun h => absurd h hA.not) ?_
  rw [hlist]
  cases htext : d.list.filter (fun raw => raw.length ≤ 8 * 1024 * 1024) with
  | none =>
    rw [htext] at hk
    exact hk
  | some raw =>
    rw [htext] at hk
    exact hk

lemma wp_undoMerge (hA : Faultless A) (hs : M.Shows d c) (hrec : M.Recorded J d) (hd : M.Displacing d)
    (reason : Bytes) (hC : ∀ c, M.RollingBack (M.told d) d c → C c) :
    (Ports.world L).wp A C (undoMerge M.config M.marker reason)
      (fun _ c' => M.Swept (Undone (M.told d) d) c' ∧ M.Gone c') c := by
  have hnow : C c := hC c (.inl ⟨d, hs, .refl ..⟩)
  rw [undoMerge]
  refine Ports.wp_listFilesRecursive hnow (wp_readPlannedFiles hA hs hd hnow ?_)
  rw [World.wp_bind]
  exact World.wp_post (wp_rollBack hA hs hrec.list hC) (fun _ _ h => h.2)

lemma undone_of_not_displacing (hd : ¬M.Displacing d) :
    ∀ r ∈ M.names, d.slot r = (Undone (M.told d) d).slot r := by
  intro r hr
  have hkept : (d.slot r).kept = none := by
    by_contra h
    exact hd ⟨r, hr, Option.isSome_iff_ne_none.mpr h⟩
  refine Slot.eq_undone hkept (fun h => ?_)
  exact absurd (mem_told.mp (of_decide_eq_true h)).1 hd

lemma Swept.congr {d' : Desk} (h : M.Swept d c) (hslots : ∀ r ∈ M.names, d.slot r = d'.slot r)
    (hmarker : d.marker = d'.marker) : M.Swept d' c := by
  obtain ⟨d₁, hs, hslots₁, hmarker₁⟩ := h
  exact ⟨d₁, hs, fun r hr => hslots r hr ▸ hslots₁ r hr, hmarker ▸ hmarker₁⟩

lemma Trimming.congr {d' : Desk} (h : M.Trimming d c) (hslots : ∀ r ∈ M.names, d.slot r = d'.slot r)
    (hmarker : d.marker = d'.marker) (hlist : d.list = d'.list) : M.Trimming d' c := by
  obtain ⟨d₁, hs, htrim, hmarker₁, hlist₁⟩ := h
  exact ⟨d₁, hs, fun r hr => hslots r hr ▸ htrim r hr, hmarker₁.trans hmarker, hlist₁.trans hlist⟩

lemma wp_carryOut (hA : Faultless A) (hs : M.Shows d c) (hrec : M.Recorded J d)
    (hC : ∀ c, M.RollingBack (M.told d) d c → C c) {decision : MergeRecoveryDecision}
    (haction : decision.action = if M.Displacing d then .rollBack else .cleanUpOnly) :
    (Ports.world L).wp A C (carryOut M.config (some M.marker) decision)
      (fun _ c' => M.Swept (Undone (M.told d) d) c' ∧ M.Gone c') c := by
  unfold carryOut
  by_cases hd : M.Displacing d
  · rw [haction, if_pos hd]
    exact wp_undoMerge hA hs hrec hd _ hC
  · have hslots := undone_of_not_displacing hd
    rw [haction, if_neg hd]
    dsimp only
    rw [World.wp_bind]
    exact World.wp_post (wp_clearUp hA hs (fun c h => hC c (.inr (.inl (h.congr hslots rfl rfl))))
      (fun c h => hC c (.inr (.inr (h.congr hslots rfl)))))
      (fun _ _ h => ⟨h.1.congr hslots rfl, h.2⟩)

lemma action_seen (hs : M.Shows d c) :
    (decideMergeRecovery (some M.marker) (seen L c M.marker)).action =
      if M.Displacing d then .rollBack else .cleanUpOnly := by
  rw [decideMergeRecovery_action rfl]
  congr 1
  rw [← displacing_iff (L := L) hs]
  simp [seen]

lemma wp_recover (hA : Faultless A) (hs : M.Shows d c) (hrec : M.Recorded J d)
    (hC : ∀ c, M.RollingBack (M.told d) d c → C c) :
    (Ports.world L).wp A C (recoverInterruptedMerge J M.config)
      (fun _ c' => M.Swept (Undone (M.told d) d) c' ∧ M.Gone c') c := by
  obtain ⟨document, hmarker, hshort, hparse⟩ := hrec.marker
  exact wp_survey (hs.marker.trans hmarker) hshort hparse hA (hC c (.inl ⟨d, hs, .refl ..⟩))
    (wp_carryOut hA hs hrec hC (action_seen hs))

end Recover

end Undo

section Asks

variable {config : CfwInstallConfig} {marker : MergeMarker}

lemma asks_rollBack (planned : List Bytes) : (rollBack config marker planned).Asks (· ≠ .abort) :=
  ⟨nofun, fun _ => (asks_restoreAll (fun _ => nofun) _ (fun _ _ => nofun)).bind (fun _ =>
    (Program.Asks.each _ (fun _ _ => asks_withdraw (fun _ => nofun) _ nofun)).bind (fun _ =>
      (asks_commit (fun _ => nofun) (fun _ => nofun) (fun _ => nofun) (fun _ _ => nofun)).bind (fun _ => trivial)))⟩

lemma asks_carryOut (decision : MergeRecoveryDecision) :
    (carryOut config (some marker) decision).Asks (· ≠ .abort) := by
  have htree : ∀ directory, (Ports.removeTree directory).Asks (· ≠ .abort) :=
    fun _ => Ports.asks_removeTree nofun (fun _ => nofun)
  unfold carryOut
  cases decision.action with
  | nothing => trivial
  | unrecoverable => trivial
  | cleanUpOnly =>
    refine Program.Asks.bind ?_ (fun _ => trivial)
    exact (htree _).bind (fun _ => (htree _).bind (fun _ => ⟨nofun, fun _ => ⟨nofun, fun _ => ⟨nofun, fun _ => trivial⟩⟩⟩))
  | rollBack =>
    have hread : (readPlannedFiles config).Asks (· ≠ .abort) := by
      refine ⟨nofun, fun raw => ?_⟩
      cases raw <;> trivial
    exact ⟨nofun, fun _ => hread.bind (fun _ => (asks_rollBack _).bind (fun _ => trivial))⟩

end Asks

lemma Undo.run_recover {M : Undo} {L : Listing} {J : JsonLibrary} {d : Desk} {c : Card} (hs : M.Shows d c)
    (hrec : M.Recorded J d) :
    ∃ out c', (Ports.world L).run .ok (recoverInterruptedMerge J M.config) c = (some out, c') ∧
      M.Swept (Undone (M.told d) d) c' ∧ M.Gone c' := by
  obtain ⟨document, hmarker, hshort, hparse⟩ := hrec.marker
  rw [recoverInterruptedMerge, World.run_bind_of_some _ (run_survey (hs.marker.trans hmarker) hshort hparse)]
  exact World.run_of_wp (A := fun ev => ev.fate = .ok) (C := fun _ => True)
    (wp_carryOut (fun ev h => by rw [h]; rfl) hs hrec (fun _ _ => trivial) (action_seen hs)) (asks_carryOut _)
    (fun e c he => Ports.step_isSome L e c he) (fun _ _ => rfl)

lemma run_recover_returns {L : Listing} {J : JsonLibrary} {config : CfwInstallConfig} {c : Card} {marker : MergeMarker}
    (hparse : ∀ document, c.lookup config.markerPath = some document → parseMergeMarker J document = .ok marker) :
    ∃ out c', (Ports.world L).run .ok (recoverInterruptedMerge J config) c = (some out, c') := by
  by_cases hnoted : Noted config c
  · obtain ⟨document, hdocument, hshort⟩ := hnoted
    have hmarker : c.lookup config.markerPath = some document := hdocument
    rw [recoverInterruptedMerge, World.run_bind_of_some _ (run_survey hmarker hshort (hparse document hmarker))]
    obtain ⟨out, c', hrun, _⟩ := World.run_of_wp (A := fun _ => True) (C := fun _ => True) (Q := fun _ _ => True)
      (World.wp_of_asks (I := fun _ => True) (Program.asks_true _) trivial (fun _ _ _ _ _ => trivial))
      (asks_carryOut _) (fun e c he => Ports.step_isSome L e c he) (fun _ _ => trivial)
    exact ⟨out, c', hrun⟩
  · obtain ⟨out, hrun⟩ := run_recover_of_not_noted (L := L) (J := J) hnoted
    exact ⟨out, c, hrun⟩

/-! A recovery of any card: it goes by what the card holds. -/

def Workspace.desk (w : Workspace) (c : Card) : Desk :=
  ⟨w.slot c, c.lookup w.config.markerPath, c.lookup w.config.mergeFileListPath⟩

namespace Workspace

section Card

variable {w : Workspace} {marker : MergeMarker} {L : Listing} {J : JsonLibrary} {c : Card}

def onCard (w : Workspace) (L : Listing) (c : Card) : List Bytes :=
  planOf (c.lookup w.config.mergeFileListPath) ++ L.files c (w.config.backupFor w.id)

def Marks.undo (hmarks : w.Marks marker) (L : Listing) (c : Card)
    (hclear : ∀ r ∈ w.onCard L c, w.Clear (w.target r)) : Undo :=
  { w with
    marker := marker, names := w.onCard L c, before := c.lookup,
    stagingDir := hmarks.stagingDir, backupDir := hmarks.backupDir, destinationRoot := hmarks.destinationRoot,
    itemId := hmarks.itemId, clear := hclear,
    nonempty := fun _ hr => (List.mem_append.mp hr).elim ne_nil_of_mem_planOf
      (fun hfile => ((L.complete _ _ _).mp hfile).1) }

lemma mem_files_backup {r : Bytes} :
    r ∈ L.files c (w.config.backupFor w.id) ↔ r ≠ [] ∧ (w.slot c r).kept.isSome = true := L.complete _ _ _

variable (hmarks : w.Marks marker) (hclear : ∀ r ∈ w.onCard L c, w.Clear (w.target r))

include hmarks hclear

lemma Marks.shows_desk : (hmarks.undo L c hclear).Shows (w.desk c) c := by
  refine ⟨fun _ _ => rfl, fun r hr hne => ?_, fun _ _ _ => rfl, rfl, rfl⟩
  by_contra hkept
  refine hr (List.mem_append_right _ (mem_files_backup.mpr ⟨hne, ?_⟩))
  exact Option.isSome_iff_ne_none.mpr hkept

lemma Marks.mem_told_desk {r : Bytes} : r ∈ (hmarks.undo L c hclear).told (w.desk c) ↔
    L.files c (w.config.backupFor w.id) ≠ [] ∧ r ∈ planOf (c.lookup w.config.mergeFileListPath) := by
  rw [Undo.mem_told, ← Undo.displacing_iff (L := L) (hmarks.shows_desk hclear), (hmarks.undo L c hclear).backupDir]
  rfl

lemma Marks.recorded_desk {document : Bytes} (hmarker : c.lookup w.config.markerPath = some document)
    (hshort : document.length ≤ 64 * 1024) (hparse : parseMergeMarker J document = .ok marker) :
    (hmarks.undo L c hclear).Recorded J (w.desk c) :=
  ⟨⟨document, hmarker, hshort, hparse⟩,
    fun _ hr => List.mem_append_left _ ((hmarks.mem_told_desk hclear).mp hr).2⟩

/-- What a recovery leaves under every name below the destination. -/
lemma Marks.run_recover {document : Bytes} (hmarker : c.lookup w.config.markerPath = some document)
    (hshort : document.length ≤ 64 * 1024) (hparse : parseMergeMarker J document = .ok marker) :
    ∃ out c', (Ports.world L).run .ok (recoverInterruptedMerge J w.config) c = (some out, c') ∧
      (∀ r, r ≠ [] → w.Clear (w.target r) → c'.lookup (w.target r) = (w.slot c r).settled (decide
        (L.files c (w.config.backupFor w.id) ≠ [] ∧ r ∈ planOf (c.lookup w.config.mergeFileListPath)))) ∧
      (∀ path, w.Clear path → (∀ r, r ≠ [] → path ≠ w.target r) → c'.lookup path = c.lookup path) ∧
      c'.lookup w.config.markerPath = none := by
  have hs := hmarks.shows_desk hclear
  obtain ⟨out, c', hrun, hswept, hgone⟩ :=
    Undo.run_recover (L := L) hs (hmarks.recorded_desk hclear hmarker hshort hparse)
  refine ⟨out, c', hrun, fun r hne hr => ?_, fun path hpath hnot => ?_, hgone.marker⟩
  · simp only [← hmarks.mem_told_desk hclear]
    by_cases hmem : r ∈ w.onCard L c
    · exact hswept.lookup_target hmem
    · have hother : c'.lookup (w.target r) = c.lookup (w.target r) := by
        refine hswept.lookup_other hr (fun hin => ?_)
        obtain ⟨r', hr', heq⟩ := List.mem_map.mp hin
        exact hmem (w.target_injective heq ▸ hr')
      have hkept : (w.slot c r).kept = none := hs.spare r hmem hne
      have hnot : r ∉ (hmarks.undo L c hclear).told (w.desk c) :=
        fun htold => hmem (List.mem_append_left _ ((hmarks.mem_told_desk hclear).mp htold).2)
      simp only [hother, hnot, decide_false, Slot.settled, hkept, Bool.false_and, Bool.false_eq_true, if_false]
      rfl
  · refine hswept.lookup_other hpath (fun hin => ?_)
    obtain ⟨r', hr', heq⟩ := List.mem_map.mp hin
    exact hnot r' ((hmarks.undo L c hclear).nonempty r' hr') heq.symm

end Card

end Workspace

def Orphan (config : CfwInstallConfig) (id destination : Bytes) (c : Card) (relative : Bytes) : Prop :=
  c.has (join destination relative) = true ∧ c.has (config.backupFor id ++ ascii "/" ++ relative) = false ∧
    c.has (config.stagingFor id ++ ascii "/" ++ relative) = false

instance (config : CfwInstallConfig) (id destination : Bytes) (c : Card) (relative : Bytes) :
    Decidable (Orphan config id destination c relative) := inferInstanceAs (Decidable (_ ∧ _ ∧ _))

lemma Workspace.orphan_iff (w : Workspace) {c : Card} {r : Bytes} :
    Orphan w.config w.id w.destination c r ↔ (w.slot c r).Fresh := by
  rw [Orphan, Card.has_eq_false, Card.has_eq_false]
  rfl

namespace Sample

def plan : MergePlan :=
  ⟨draftMarker config item (config.stagingFor item.id) (ascii "/d") 0, [ascii "n", ascii "o"], 1⟩

def begin (card : Card) (fates : List PortFate) :
    Trace PortOp PortOp.Reply PortFate Card (Except InstallOutcome MergePlan) :=
  (Ports.world .stored).exec (beginMerge JsonCodec.library config item rules (config.stagingFor item.id)
    (ascii "/d")) fates card

def move (card : Card) (fates : List PortFate) :
    Trace PortOp PortOp.Reply PortFate Card (Except InstallOutcome (MergePlan × Tally × Option Interruption)) :=
  (Ports.world .stored).exec (moveTree JsonCodec.library config false item rules (config.stagingFor item.id)
    (ascii "/d")) fates card

def recover (c : Card) : Option InstallOutcome × Card :=
  (Ports.world .stored).run .ok (recoverInterruptedMerge JsonCodec.library config) c

end Sample

end NsxManager.Cfw
