import NsxManager.Cfw.Merge

/-! Committing a merge and rolling one back. -/

namespace NsxManager.Cfw

open NsxManager.Core Lib Infra

def Faultless (A : Event PortOp PortOp.Reply PortFate → Prop) : Prop := ∀ ev, A ev → ev.fate.failing = false

lemma Faultless.not {A : Event PortOp PortOp.Reply PortFate → Prop} (h : Faultless A) {e : PortOp} {r : e.Reply} :
    ¬A ⟨e, .fails, r⟩ := fun hev => Bool.noConfusion (h _ hev)

section Asks

variable {P : PortOp → Prop} {config : CfwInstallConfig} {marker : MergeMarker}

lemma asks_restoreAll (hdirectory : ∀ path, P (.makeDirectories path)) (rest : List Bytes)
    (h : ∀ r ∈ rest, P (.rename (join marker.backupDir r) (join marker.destinationRoot r))) :
    (restoreAll marker rest).Asks P := by
  induction rest with
  | nil => trivial
  | cons r rest ih =>
    exact (asks_makeParent hdirectory _).bind (fun _ => ⟨h r List.mem_cons_self, fun _ =>
      (ih (fun r' hr' => h r' (List.mem_cons_of_mem _ hr'))).bind (fun _ => trivial)⟩)

lemma asks_withdraw (hprobe : ∀ path, P (.probe path)) (displaced : List Bytes) {r : Bytes}
    (h : P (.remove (join marker.destinationRoot r))) : (withdraw marker displaced r).Asks P := by
  unfold withdraw
  split
  · trivial
  · refine ⟨hprobe _, fun waiting => ?_⟩
    cases waiting
    · exact ⟨h, fun _ => trivial⟩
    · trivial

lemma asks_commit (hlist : ∀ directory, P (.listFilesRecursive directory))
    (hbackup : ∀ r, P (.unlink (marker.backupDir ++ ascii "/" ++ r)))
    (hstaging : ∀ r, P (.unlink (marker.stagingDir ++ ascii "/" ++ r)))
    (hremove : ∀ path ∈ [config.archiveFor marker.itemId, config.mergeFileListPath, config.markerPath],
      P (.remove path)) : (commit config marker).Asks P :=
  (Ports.asks_removeTree (hlist _) hbackup).bind (fun _ => (Ports.asks_removeTree (hlist _) hstaging).bind (fun _ =>
    ⟨hremove _ (by simp), fun _ => ⟨hremove _ (by simp), fun _ => ⟨hremove _ (by simp), fun _ => trivial⟩⟩⟩))

end Asks

namespace Undo

def NoBackup (M : Undo) (c : Card) : Prop := ∀ r, r ≠ [] → c.lookup (M.name (.kept r)) = none

def NoStaging (M : Undo) (c : Card) : Prop := ∀ r, r ≠ [] → c.lookup (M.name (.staged r)) = none

structure Gone (M : Undo) (c : Card) : Prop where
  staging : M.NoStaging c
  backup : M.NoBackup c
  archive : c.lookup (M.name (.leaf .archive)) = none
  list : c.lookup (M.name (.leaf .list)) = none
  marker : c.lookup (M.name (.leaf .marker)) = none

section Commit

variable {M : Undo} {L : Listing} {A : Event PortOp PortOp.Reply PortFate → Prop} {C : Card → Prop}
  {c : Card} {d d' : Desk} {r : Bytes}

def Trimming (M : Undo) (d : Desk) (c : Card) : Prop :=
  ∃ d', M.Shows d' c ∧ (∀ r ∈ M.names, (d.slot r).Trimmed (d'.slot r)) ∧ d'.marker = d.marker ∧ d'.list = d.list

lemma trimming_self (hs : M.Shows d c) : M.Trimming d c := ⟨d, hs, fun _ _ => .refl _, rfl, rfl⟩

lemma Trimming.erase_kept (h : M.Trimming d c) (r : Bytes) : M.Trimming d (c.erase (M.name (.kept r))) := by
  obtain ⟨d', hs, htrim, hmarker, hlist⟩ := h
  by_cases hr : r ∈ M.names
  · exact ⟨_, hs.forget M.clear hr, Desk.at_forall (P := fun r' s => (d.slot r').Trimmed s) htrim
      (htrim r hr).forget, hmarker, hlist⟩
  · exact ⟨_, hs.beside M.clear (.kept r) (by rintro r' hr' ⟨⟩; exact hr hr') (by simp), htrim, by simpa using hmarker,
      by simpa using hlist⟩

lemma Trimming.erase_staged (h : M.Trimming d c) (r : Bytes) : M.Trimming d (c.erase (M.name (.staged r))) := by
  obtain ⟨d', hs, htrim, hmarker, hlist⟩ := h
  by_cases hr : r ∈ M.names
  · exact ⟨_, hs.unstage M.clear hr, Desk.at_forall (P := fun r' s => (d.slot r').Trimmed s) htrim
      (htrim r hr).unstage, hmarker, hlist⟩
  · exact ⟨_, hs.beside M.clear (.staged r) (by simp) (by rintro r' hr' ⟨⟩; exact hr hr'), htrim, by simpa using hmarker,
      by simpa using hlist⟩

def Swept (M : Undo) (d : Desk) (c : Card) : Prop :=
  ∃ d', M.Shows d' c ∧ (∀ r ∈ M.names, d'.slot r = ⟨(d.slot r).live, none, none⟩) ∧
    (d'.marker = d.marker ∨ d'.marker = none)

lemma Swept.erase_leaf (h : M.Swept d c) (l : Leaf) : M.Swept d (c.erase (M.name (.leaf l))) := by
  obtain ⟨d', hs, hslots, hmarker⟩ := h
  refine ⟨_, hs.beside M.clear (.leaf l) (by simp) (by simp), hslots, ?_⟩
  simp only
  split
  · exact .inr rfl
  · exact hmarker

lemma NoBackup.erase (h : M.NoBackup c) (path : Bytes) : M.NoBackup (c.erase path) := by
  intro r hr
  rw [Card.lookup_erase_eq, h r hr, ite_self]

lemma NoStaging.erase (h : M.NoStaging c) (path : Bytes) : M.NoStaging (c.erase path) := by
  intro r hr
  rw [Card.lookup_erase_eq, h r hr, ite_self]

lemma Trimming.swept (h : M.Trimming d c) (hkept : M.NoBackup c) (hstaged : M.NoStaging c) : M.Swept d c := by
  obtain ⟨d', hs, htrim, hmarker, _⟩ := h
  refine ⟨d', hs, fun r hr => ?_, .inl hmarker⟩
  have hne := M.nonempty r hr
  have hslot := hs.slots r hr
  rw [Workspace.slot, hkept r hne, hstaged r hne] at hslot
  rw [← hslot, ← (htrim r hr).live, ← hslot]

lemma wp_removeBackup (hA : Faultless A) (h : M.Trimming d c) (hC : ∀ c, M.Trimming d c → C c) :
    (Ports.world L).wp A C (Ports.removeTree M.marker.backupDir)
      (fun _ c' => M.Trimming d c' ∧ M.NoBackup c' ∧ (M.NoStaging c → M.NoStaging c')) c := by
  rw [M.backupDir]
  refine World.wp_post (Ports.wp_removeTree (I := fun c' => M.Trimming d c' ∧ (M.NoStaging c → M.NoStaging c'))
    ⟨h, id⟩ (fun c' h => hC c' h.1) ?_) ?_
  · rintro c' r _ ⟨h', hstaged⟩
    exact ⟨h'.erase_kept r, fun hnone => (hstaged hnone).erase _⟩
  · rintro _ c' ⟨⟨h', hstaged⟩, hgone⟩
    exact ⟨h', fun r hr => hgone r hr hA.not, hstaged⟩

lemma wp_removeStaging (hA : Faultless A) (h : M.Trimming d c) (hC : ∀ c, M.Trimming d c → C c) :
    (Ports.world L).wp A C (Ports.removeTree M.marker.stagingDir)
      (fun _ c' => M.Trimming d c' ∧ M.NoStaging c' ∧ (M.NoBackup c → M.NoBackup c')) c := by
  rw [M.stagingDir]
  refine World.wp_post (Ports.wp_removeTree (I := fun c' => M.Trimming d c' ∧ (M.NoBackup c → M.NoBackup c'))
    ⟨h, id⟩ (fun c' h => hC c' h.1) ?_) ?_
  · rintro c' r _ ⟨h', hkept⟩
    exact ⟨h'.erase_staged r, fun hnone => (hkept hnone).erase _⟩
  · rintro _ c' ⟨⟨h', hkept⟩, hgone⟩
    exact ⟨h', fun r hr => hgone r hr hA.not, hkept⟩

def removeNotes (M : Undo) : PortProgram Unit := do
  let _ ← Ports.remove (M.name (.leaf .archive))
  let _ ← Ports.remove (M.name (.leaf .list))
  let _ ← Ports.remove (M.name (.leaf .marker))
  return ()

lemma commit_eq (M : Undo) : commit M.config M.marker =
    (Ports.removeTree M.marker.backupDir >>= fun _ => Ports.removeTree M.marker.stagingDir >>= fun _ =>
      M.removeNotes) := by
  rw [commit, M.itemId]
  rfl

lemma clearUp_eq (M : Undo) : clearUp M.config (some M.marker) =
    (Ports.removeTree M.marker.stagingDir >>= fun _ => Ports.removeTree M.marker.backupDir >>= fun _ =>
      M.removeNotes) := by
  simp only [clearUp, M.itemId]
  rfl

lemma wp_removeNotes (hA : Faultless A) (h : M.Swept d c) (hC : ∀ c, M.Swept d c → C c) (hkept : M.NoBackup c)
    (hstaged : M.NoStaging c) :
    (Ports.world L).wp A C M.removeNotes (fun _ c' => M.Swept d c' ∧ M.Gone c') c := by
  have harchive := h.erase_leaf .archive
  have hlist := harchive.erase_leaf .list
  refine Ports.wp_remove (hC c h) (fun h => absurd h hA.not) ?_
  refine Ports.wp_remove (hC _ harchive) (fun h => absurd h hA.not) ?_
  refine Ports.wp_remove (hC _ hlist) (fun h => absurd h hA.not) ?_
  refine ⟨hlist.erase_leaf .marker, ((hstaged.erase _).erase _).erase _, ((hkept.erase _).erase _).erase _, ?_, ?_, ?_⟩
  · simp [Workspace.lookup_name_erase]
  · simp [Workspace.lookup_name_erase]
  · simp

variable (hA : Faultless A) (hs : M.Shows d c) (htrimming : ∀ c, M.Trimming d c → C c) (hswept : ∀ c, M.Swept d c → C c)

include hA hs htrimming hswept

lemma wp_commit :
    (Ports.world L).wp A C (commit M.config M.marker) (fun _ c' => M.Swept d c' ∧ M.Gone c') c := by
  rw [commit_eq, World.wp_bind]
  refine World.wp_post (wp_removeBackup hA (trimming_self hs) htrimming) ?_
  rintro _ c₁ ⟨h₁, hkept₁, _⟩
  rw [World.wp_bind]
  refine World.wp_post (wp_removeStaging hA h₁ htrimming) ?_
  rintro _ c₂ ⟨h₂, hstaged, hkept⟩
  exact wp_removeNotes hA (h₂.swept (hkept hkept₁) hstaged) hswept (hkept hkept₁) hstaged

lemma wp_clearUp :
    (Ports.world L).wp A C (clearUp M.config (some M.marker)) (fun _ c' => M.Swept d c' ∧ M.Gone c') c := by
  rw [clearUp_eq, World.wp_bind]
  refine World.wp_post (wp_removeStaging hA (trimming_self hs) htrimming) ?_
  rintro _ c₁ ⟨h₁, hstaged₁, _⟩
  rw [World.wp_bind]
  refine World.wp_post (wp_removeBackup hA h₁ htrimming) ?_
  rintro _ c₂ ⟨h₂, hkept, hstaged⟩
  exact wp_removeNotes hA (h₂.swept hkept (hstaged hstaged₁)) hswept hkept (hstaged hstaged₁)

end Commit

section RollBack

variable {M : Undo} {L : Listing} {A : Event PortOp PortOp.Reply PortFate → Prop} {C : Card → Prop}
  {c : Card} {d d' : Desk} {r : Bytes} {planned : List Bytes}

def Undone (planned : List Bytes) (d : Desk) : Desk :=
  { d with slot := fun r => (d.slot r).undone (decide (r ∈ planned)) }

structure Undoing (M : Undo) (planned : List Bytes) (d d' : Desk) : Prop where
  slots : ∀ r ∈ M.names, d'.slot r = d.slot r ∨ d'.slot r = (Undone planned d).slot r
  marker : d'.marker = d.marker
  list : d'.list = d.list

lemma Undoing.refl (M : Undo) (planned : List Bytes) (d : Desk) : M.Undoing planned d d :=
  ⟨fun _ _ => .inl rfl, rfl, rfl⟩

lemma Undoing.step (h : M.Undoing planned d d') {change : Slot Bytes → Slot Bytes}
    (hr : change (d'.slot r) = (Undone planned d).slot r) : M.Undoing planned d (d'.at r change) :=
  ⟨Desk.at_forall (P := fun r' s => s = d.slot r' ∨ s = (Undone planned d).slot r') h.slots (.inr hr), h.marker,
    h.list⟩

lemma wp_restoreAll (hA : Faultless A) (hC : ∀ c d', M.Shows d' c → M.Undoing planned d d' → C c)
    (rest : List Bytes) (hs : M.Shows d' c) (hundoing : M.Undoing planned d d') (hnodup : rest.Nodup)
    (hrest : ∀ r ∈ rest, r ∈ M.names ∧ d'.slot r = d.slot r ∧ (d.slot r).kept.isSome) :
    (Ports.world L).wp A C (restoreAll M.marker rest)
      (fun complete c' => complete = true ∧ ∃ d₁, M.Shows d₁ c' ∧ M.Undoing planned d d₁ ∧
        (∀ r ∈ rest, d₁.slot r = (Undone planned d).slot r) ∧ ∀ r ∉ rest, d₁.slot r = d'.slot r) c := by
  induction rest generalizing c d' with
  | nil => exact ⟨rfl, d', hs, hundoing, by simp, fun _ _ => rfl⟩
  | cons r rest ih =>
    obtain ⟨hr, hslot, hkept⟩ := hrest r List.mem_cons_self
    have hnow := hC c d' hs hundoing
    obtain ⟨hnot, hnodup'⟩ := List.nodup_cons.mp hnodup
    have hpresent : Card.has (c.erase (M.target r)) (M.name (.kept r)) = true := by
      rw [Card.has_erase_of_ne _ _ _ (M.clear r hr _)]
      have hlookup : c.lookup (M.name (.kept r)) = (d'.slot r).kept := congrArg Slot.kept (hs.slots r hr)
      rwa [Card.has, hlookup, hslot]
    have hundone : (d'.slot r).restored = (Undone planned d).slot r := by
      rw [hslot]
      exact Slot.restored_eq_undone hkept
    rw [restoreAll]
    refine wp_makeParent hnow (fun ⟨ev, hev, hfail⟩ => absurd (hA ev hev) (by simp [hfail])) ?_
    rw [M.marks.join_kept, M.marks.join_target]
    refine Ports.wp_rename hnow (fun h => absurd h hA.not) ?_
    rw [hpresent, World.wp_bind]
    refine World.wp_mono (ih (hs.restore M.clear hr) (hundoing.step hundone) hnodup' ?_) (fun _ h => h)
      (fun _ h => h) ?_
    · intro r' hr'
      obtain ⟨hmem, hslot', hkept'⟩ := hrest r' (List.mem_cons_of_mem _ hr')
      exact ⟨hmem, (d'.at_of_ne (ne_of_mem_of_not_mem hr' hnot)).trans hslot', hkept'⟩
    · rintro complete c' ⟨rfl, d₁, hs₁, hundoing₁, hdone, hsame⟩
      refine ⟨rfl, d₁, hs₁, hundoing₁, fun r' hr' => ?_, fun r' hr' => ?_⟩
      · rcases List.mem_cons.mp hr' with rfl | hr'
        · rw [hsame r' hnot, d'.at_self, hundone]
        · exact hdone r' hr'
      · rw [List.mem_cons, not_or] at hr'
        rw [hsame r' hr'.2, d'.at_of_ne hr'.1]

lemma wp_withdraw (hA : Faultless A) (hC : ∀ c d', M.Shows d' c → M.Undoing planned d d' → C c)
    {displaced : List Bytes} (hr : r ∈ M.names) (hplanned : r ∈ planned)
    (hdisplaced : r ∈ displaced ↔ (d.slot r).kept.isSome) (hs : M.Shows d' c) (hundoing : M.Undoing planned d d')
    (hback : (d.slot r).kept.isSome → d'.slot r = (Undone planned d).slot r) :
    (Ports.world L).wp A C (withdraw M.marker displaced r)
      (fun _ c' => ∃ d₁, M.Shows d₁ c' ∧ M.Undoing planned d d₁ ∧ d₁.slot r = (Undone planned d).slot r ∧
        ∀ r' ≠ r, d₁.slot r' = d'.slot r') c := by
  unfold withdraw
  split
  · next hmem => exact ⟨d', hs, hundoing, hback (hdisplaced.mp hmem), fun _ _ => rfl⟩
  · next hmem =>
    have hkept : (d.slot r).kept = none := by simpa [hdisplaced] using hmem
    have hnow := hC c d' hs hundoing
    have hstaged : (d'.slot r).staged = (d.slot r).staged ∧ (d'.slot r).kept = none := by
      rcases hundoing.slots r hr with h | h <;> rw [h]
      · exact ⟨rfl, hkept⟩
      · exact ⟨rfl, rfl⟩
    have hlookup : c.lookup (M.name (.staged r)) = (d.slot r).staged :=
      (congrArg Slot.staged (hs.slots r hr)).trans hstaged.1
    rw [M.marks.join_staged, M.marks.join_target]
    refine Ports.wp_probe hnow ?_
    rw [Card.has, hlookup]
    cases hwaiting : (d.slot r).staged with
    | some b =>
      refine ⟨d', hs, hundoing, ?_, fun _ _ => rfl⟩
      have heq : d.slot r = (Undone planned d).slot r := Slot.eq_undone hkept (by simp [hwaiting])
      rcases hundoing.slots r hr with h | h
      · exact h.trans heq
      · exact h
    | none =>
      have hundone : (d'.slot r).withdrawn = (Undone planned d).slot r := by
        simp [Slot.withdrawn, hstaged, hwaiting, Undone, hplanned, Slot.undone, Slot.settled, hkept]
      refine Ports.wp_remove hnow (fun h => absurd h hA.not) ?_
      exact ⟨_, hs.withdraw M.clear hr, hundoing.step hundone, by rw [d'.at_self, hundone],
        fun r' h => d'.at_of_ne h⟩

lemma wp_withdrawAll (hA : Faultless A) (hC : ∀ c d', M.Shows d' c → M.Undoing planned d d' → C c)
    {displaced : List Bytes} (hplanned : ∀ r ∈ planned, r ∈ M.names)
    (hdisplaced : ∀ r ∈ M.names, r ∈ displaced ↔ (d.slot r).kept.isSome) (hs : M.Shows d' c)
    (hundoing : M.Undoing planned d d')
    (hback : ∀ r ∈ M.names, (d.slot r).kept.isSome → d'.slot r = (Undone planned d).slot r) :
    (Ports.world L).wp A C (Program.each (withdraw M.marker displaced) planned)
      (fun _ c' => M.Shows (Undone planned d) c') c := by
  let I : List Bytes → Card → Prop := fun rest c' => ∃ d₁, M.Shows d₁ c' ∧ M.Undoing planned d d₁ ∧
    ∀ r ∈ M.names, (d.slot r).kept.isSome ∨ (r ∈ planned ∧ r ∉ rest) → d₁.slot r = (Undone planned d).slot r
  have hstart : I planned c := by
    refine ⟨d', hs, hundoing, fun r hr h => hback r hr ?_⟩
    exact h.resolve_right (fun hout => hout.2 hout.1)
  refine World.wp_post (World.wp_each hstart ?_) ?_
  · rintro r rest c' hsuffix ⟨d₁, hs₁, hundoing₁, hdone⟩
    have hmem : r ∈ planned := hsuffix.subset List.mem_cons_self
    have hr := hplanned r hmem
    refine World.wp_post (wp_withdraw hA hC hr hmem (hdisplaced r hr) hs₁ hundoing₁
      (fun h => hdone r hr (.inl h))) ?_
    rintro _ c'' ⟨d₂, hs₂, hundoing₂, hnow, hsame⟩
    refine ⟨d₂, hs₂, hundoing₂, fun r' hr' h => ?_⟩
    by_cases heq : r' = r
    · exact heq ▸ hnow
    · rw [hsame r' heq]
      refine hdone r' hr' (h.imp_right (fun hout => ⟨hout.1, ?_⟩))
      simp [heq, hout.2]
  · rintro _ c' ⟨d₁, hs₁, hundoing₁, hdone⟩
    refine hs₁.congr (fun r hr => ?_) hundoing₁.marker.symm hundoing₁.list.symm
    by_cases hkept : (d.slot r).kept.isSome
    · exact (hdone r hr (.inl hkept)).symm
    · by_cases hlisted : r ∈ planned
      · exact (hdone r hr (.inr ⟨hlisted, by simp⟩)).symm
      · have heq : d.slot r = (Undone planned d).slot r :=
          Slot.eq_undone (by simpa using hkept) (by simp [hlisted])
        rcases hundoing₁.slots r hr with h | h
        · rw [h, ← heq]
        · exact h.symm

lemma mem_backup (hs : M.Shows d c) : r ∈ L.files c M.marker.backupDir ↔ r ∈ M.names ∧ (d.slot r).kept.isSome := by
  rw [L.complete, M.backupDir]
  change r ≠ [] ∧ c.has (M.name (.kept r)) = true ↔ _
  constructor
  · rintro ⟨hne, hhas⟩
    have hr : r ∈ M.names := by
      by_contra hnot
      rw [Card.has, hs.spare r hnot hne] at hhas
      cases hhas
    refine ⟨hr, ?_⟩
    rwa [← hs.slots r hr]
  · rintro ⟨hr, hkept⟩
    rw [← hs.slots r hr] at hkept
    exact ⟨M.nonempty r hr, hkept⟩

def RollingBack (M : Undo) (planned : List Bytes) (d : Desk) (c : Card) : Prop :=
  (∃ d', M.Shows d' c ∧ M.Undoing planned d d') ∨ M.Trimming (Undone planned d) c ∨
    M.Swept (Undone planned d) c

lemma wp_rollBack (hA : Faultless A) (hs : M.Shows d c) (hplanned : ∀ r ∈ planned, r ∈ M.names)
    (hC : ∀ c, M.RollingBack planned d c → C c) :
    (Ports.world L).wp A C (rollBack M.config M.marker planned)
      (fun complete c' => complete = true ∧ M.Swept (Undone planned d) c' ∧ M.Gone c') c := by
  have hundoing : ∀ c d', M.Shows d' c → M.Undoing planned d d' → C c :=
    fun c d' hs h => hC c (.inl ⟨d', hs, h⟩)
  rw [rollBack]
  refine Ports.wp_listFilesRecursive (hundoing c d hs (.refl ..)) ?_
  rw [World.wp_bind]
  refine World.wp_mono (wp_restoreAll hA hundoing _ hs (.refl ..) (L.nodup ..) ?_) (fun _ h => h)
    (fun _ h => h) ?_
  · intro r hr
    exact ⟨((mem_backup hs).mp hr).1, rfl, ((mem_backup hs).mp hr).2⟩
  rintro complete c₁ ⟨rfl, d₁, hs₁, hundoing₁, hback, _⟩
  rw [World.wp_bind]
  refine World.wp_post (wp_withdrawAll hA hundoing hplanned (fun r hr => ?_) hs₁ hundoing₁
    (fun r hr h => hback r ((mem_backup hs).mpr ⟨hr, h⟩))) ?_
  · rw [mem_backup hs]
    exact and_iff_right hr
  intro _ c₂ hs₂
  rw [World.wp_bind]
  exact World.wp_post (wp_commit hA hs₂ (fun c h => hC c (.inr (.inl h))) (fun c h => hC c (.inr (.inr h))))
    (fun _ _ h => ⟨rfl, h⟩)

end RollBack

end Undo

end NsxManager.Cfw
