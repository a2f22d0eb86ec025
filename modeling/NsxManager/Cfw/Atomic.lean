import NsxManager.Cfw.Prepare
import NsxManager.Cfw.RollBack
import NsxManager.Core.JsonCodec

/-! Without a power cut, an installation takes place as a whole or not at all. -/

namespace NsxManager.Cfw

open NsxManager.Core Lib Infra

def Moved (L : Listing) (J : JsonLibrary) (config : CfwInstallConfig) (item : CatalogItem)
    (preserve : PreserveRules) (destination : Bytes) (c : Card) (A : Event PortOp PortOp.Reply PortFate → Prop) :
    Except InstallOutcome (MergePlan × Tally × Option Interruption) → Card → Prop
  | .error out, c' => Untouched config c c' ∧ (out.result = .extractFailed ∨ out.result = .mergeFailed)
  | .ok (plan, _, stop), c' => ∃ M : Merge, M.Begins J config item destination c plan ∧ M.Ended A stop c' ∧
    plan.toWrite = toWrite preserve destination c (L.files c (config.stagingFor item.id))

section Moved

variable {L : Listing} {J : JsonLibrary} {config : CfwInstallConfig} {watched : Bool} {item : CatalogItem}
  {preserve : PreserveRules} {destination : Bytes} {A : Event PortOp PortOp.Reply PortFate → Prop}
  {C : Card → Prop} {c : Card}

lemma wp_moveTree (huntouched : ∀ c', Untouched config c c' → C c')
    (hunderway : ∀ (M : Merge) plan c', M.Begins J config item destination c plan →
      plan.toWrite = toWrite preserve destination c (L.files c (config.stagingFor item.id)) →
      M.Underway c' → C c')
    (hclear : ∀ r ∈ L.files c (config.stagingFor item.id), config.Outside (join destination r))
    (hbackup : ∀ r, r ≠ [] → c.lookup (config.backupFor item.id ++ ascii "/" ++ r) = none) :
    (Ports.world L).wp A C (moveTree J config watched item preserve (config.stagingFor item.id) destination)
      (Moved L J config item preserve destination c A) c := by
  rw [moveTree, World.wp_bind]
  refine World.wp_post (wp_beginMerge huntouched hclear hbackup) ?_
  intro begun c₁ hbegun
  cases begun with
  | error out => exact hbegun
  | ok plan =>
    obtain ⟨M, d, hbegins, hs, hahead, hplan⟩ := hbegun
    dsimp only
    rw [← hbegins.marker, ← hbegins.names, World.wp_bind]
    refine World.wp_post (M.wp_mergeLoop (fun c' h => hunderway M plan c' hbegins hplan h) M.names 0 {} hs hahead
      M.nodup) ?_
    rintro ⟨tally, stop⟩ c₂ hended
    exact ⟨M, hbegins, hended, hplan⟩

lemma moved_of_exec {fates : List PortFate}
    {moved : Except InstallOutcome (MergePlan × Tally × Option Interruption)}
    (hclear : ∀ r ∈ L.files c (config.stagingFor item.id), config.Outside (join destination r))
    (hbackup : ∀ r, r ≠ [] → c.lookup (config.backupFor item.id ++ ascii "/" ++ r) = none)
    (h : ((Ports.world L).exec (moveTree J config watched item preserve (config.stagingFor item.id) destination)
      fates c).outcome = some moved) :
    Moved L J config item preserve destination c
      (· ∈ ((Ports.world L).exec (moveTree J config watched item preserve (config.stagingFor item.id) destination)
        fates c).log) moved
      ((Ports.world L).exec (moveTree J config watched item preserve (config.stagingFor item.id) destination)
        fates c).state :=
  World.exec_post h (wp_moveTree (C := fun _ => True) (fun _ _ => trivial) (fun _ _ _ _ _ _ => trivial) hclear hbackup)

end Moved

namespace Undo

variable {M : Undo} {d : Desk} {c : Card}

lemma Swept.lookup_target {r : Bytes} (h : M.Swept d c) (hr : r ∈ M.names) : c.lookup (M.target r) = (d.slot r).live := by
  obtain ⟨d', hs, hslots, _⟩ := h
  have hslot := (hs.slots r hr).trans (hslots r hr)
  exact congrArg Slot.live hslot

lemma Swept.lookup_other {path : Bytes} (h : M.Swept d c) (hpath : M.Clear path)
    (hnot : path ∉ M.names.map M.target) : c.lookup path = M.before path := by
  obtain ⟨d', hs, _⟩ := h
  exact hs.others path hpath hnot

end Undo

namespace Merge

variable {M : Merge}

def InPlace (M : Merge) (c : Card) : Prop :=
  ∀ path, M.Clear path → (∀ r ∈ M.names, path = M.target r → c.lookup path = some (M.package r)) ∧
    (path ∉ M.names.map M.target → c.lookup path = M.before path)

def PutBack (M : Merge) (c : Card) : Prop := ∀ path, M.Clear path → c.lookup path = M.before path

lemma inPlace_of_swept {d : Desk} {c : Card} (h : M.Swept d c) (hahead : M.Ahead [] d) : M.InPlace c := by
  refine fun path hpath => ⟨fun r hr heq => ?_, fun hnot => h.lookup_other hpath hnot⟩
  rw [heq, h.lookup_target hr, hahead.moved r hr (by simp)]

lemma putBack_of_swept {d : Desk} {c : Card} {planned : List Bytes} (h : M.Swept (Undo.Undone planned d) c)
    (hsettled : ∀ r ∈ M.names, (d.slot r).settled (decide (r ∈ planned)) = M.old r) : M.PutBack c := by
  intro path hpath
  by_cases hmem : path ∈ M.names.map M.target
  · obtain ⟨r, hr, rfl⟩ := List.mem_map.mp hmem
    rw [h.lookup_target hr]
    exact hsettled r hr
  · exact h.lookup_other hpath hmem

variable {L : Listing} {A B : Event PortOp PortOp.Reply PortFate → Prop} {c : Card}

lemma wp_conclude (hA : Faultless A) (item : CatalogItem) (plan : MergePlan) (tally : Tally)
    (hmarker : plan.marker = M.marker) (hnames : plan.toWrite = M.names) {stop : Option Interruption}
    (hended : M.Ended B stop c) :
    (Ports.world L).wp A (fun _ => True) (conclude M.config item plan tally stop)
      (fun out c' => M.Gone c' ∧ ((out.result = .installed ∧ M.InPlace c') ∨
        ((out.result = .cancelled ∨ out.result = .rolledBack) ∧ M.PutBack c'))) c := by
  cases stop with
  | none =>
    obtain ⟨d, hs, hahead⟩ := hended
    rw [conclude, hmarker, World.wp_bind]
    exact World.wp_mono (Undo.wp_commit hA hs (fun _ _ => trivial) (fun _ _ => trivial)) (fun _ h => h)
      (fun _ h => h) (fun _ c' h => ⟨h.2, .inl ⟨rfl, inPlace_of_swept h.1 hahead⟩⟩)
  | some stop =>
    obtain ⟨⟨d, hs, hmerging, _⟩, hresult, _⟩ := hended
    have hsettled : ∀ r ∈ M.names, (d.slot r).settled (decide (r ∈ M.names)) = M.old r :=
      fun r hr => (hmerging r hr).settled_iff.mpr (.inl (decide_eq_true hr))
    rw [conclude, hmarker, hnames, World.wp_bind]
    refine World.wp_mono (Undo.wp_rollBack hA hs (fun _ h => h) (fun _ _ => trivial)) (fun _ h => h)
      (fun _ h => h) ?_
    rintro complete c' ⟨rfl, hswept, hgone⟩
    exact ⟨hgone, .inr ⟨hresult, putBack_of_swept hswept hsettled⟩⟩

end Merge

def merges : PortOp → Bool
  | .report _ | .makeDirectories _ | .rename _ _ => true
  | _ => false

lemma files_eq_nil {L : Listing} {c : Card} {directory : Bytes}
    (h : ∀ r, r ≠ [] → c.lookup (directory ++ ascii "/" ++ r) = none) : L.files c directory = [] := by
  refine List.eq_nil_iff_forall_not_mem.mpr (fun r hr => ?_)
  obtain ⟨hne, hhas⟩ := (L.complete c directory r).mp hr
  rw [Card.has, h r hne] at hhas
  cases hhas

lemma lookup_of_files_eq_nil {L : Listing} {c : Card} {directory : Bytes} (h : L.files c directory = []) (r : Bytes)
    (hr : r ≠ []) : c.lookup (directory ++ ascii "/" ++ r) = none := by
  refine (c.has_eq_false _).mp (Bool.eq_false_iff.mpr (fun hhas => ?_))
  have hmem := (L.complete c directory r).mpr ⟨hr, hhas⟩
  simp [h] at hmem

def Settled (L : Listing) (J : JsonLibrary) (config : CfwInstallConfig) (item : CatalogItem)
    (preserve : PreserveRules) (destination : Bytes) (c : Card) (out : InstallOutcome) (c' : Card) : Prop :=
  ∃ (M : Merge) (plan : MergePlan), M.Begins J config item destination c plan ∧
    plan.toWrite = toWrite preserve destination c (L.files c (config.stagingFor item.id)) ∧ M.Gone c' ∧
    ((out.result = .installed ∧ M.InPlace c') ∨
      ((out.result = .cancelled ∨ out.result = .rolledBack) ∧ M.PutBack c'))

lemma faultless_commit {L : Listing} {config : CfwInstallConfig} {item : CatalogItem} {plan : MergePlan}
    {tally : Tally} {fates : List PortFate} {c : Card}
    (h : ∀ ev ∈ ((Ports.world L).exec (conclude config item plan tally none) fates c).log,
      ev.fate.failing = true → merges ev.asked = true) :
    Faultless (· ∈ ((Ports.world L).exec (conclude config item plan tally none) fates c).log) := by
  have hasks : (conclude config item plan tally none).Asks (fun e => merges e = false) :=
    (asks_commit (fun _ => rfl) (fun _ => rfl) (fun _ => rfl) (fun _ _ => rfl)).bind (fun _ => trivial)
  intro ev hev
  by_contra hfail
  have hmerges := h ev hev (by simpa using hfail)
  rw [(Ports.world L).asked_of_mem_log hasks hev] at hmerges
  cases hmerges

lemma faultless_rest {l₁ l₂ : List (Event PortOp PortOp.Reply PortFate)}
    (hone : ((l₁ ++ l₂).filter (fun ev => ev.fate.failing)).length ≤ 1)
    (hfailed : ∃ ev, ev ∈ l₁ ∧ ev.fate.failing = true) : Faultless (· ∈ l₂) := by
  obtain ⟨ev, hev, hfail⟩ := hfailed
  intro ev' hev'
  by_contra hfail'
  have h₁ : 0 < (l₁.filter (fun ev => ev.fate.failing)).length :=
    List.length_pos_of_mem (List.mem_filter.mpr ⟨hev, hfail⟩)
  have h₂ : 0 < (l₂.filter (fun ev => ev.fate.failing)).length :=
    List.length_pos_of_mem (List.mem_filter.mpr ⟨hev', by simpa using hfail'⟩)
  rw [List.filter_append, List.length_append] at hone
  omega

lemma settled_of_exec {L : Listing} {J : JsonLibrary} {config : CfwInstallConfig} {watched : Bool}
    {item : CatalogItem} {preserve : PreserveRules} {destination : Bytes} {fates : List PortFate} {c : Card}
    {out : InstallOutcome}
    (hclear : ∀ r ∈ L.files c (config.stagingFor item.id), config.Outside (join destination r))
    (hbackup : L.files c (config.backupFor item.id) = [])
    (hout : ((Ports.world L).exec (mergeStagedTree J config watched item preserve (config.stagingFor item.id)
      destination) fates c).outcome = some out)
    (hone : (((Ports.world L).exec (mergeStagedTree J config watched item preserve (config.stagingFor item.id)
      destination) fates c).log.filter (fun ev => ev.fate.failing)).length ≤ 1)
    (hmerge : ∀ ev ∈ ((Ports.world L).exec (mergeStagedTree J config watched item preserve
      (config.stagingFor item.id) destination) fates c).log, ev.fate.failing = true → merges ev.asked = true) :
    (out.result = .extractFailed ∨ out.result = .mergeFailed) ∨
      Settled L J config item preserve destination c out ((Ports.world L).exec (mergeStagedTree J config watched
        item preserve (config.stagingFor item.id) destination) fates c).state := by
  obtain ⟨moved, hmoved, hexec⟩ := (Ports.world L).exec_bind_some hout
  have hspec := moved_of_exec hclear (lookup_of_files_eq_nil hbackup) hmoved
  rw [mergeStagedTree] at *
  rw [hexec] at hout hone hmerge ⊢
  dsimp only at hout hone hmerge ⊢
  generalize (Ports.world L).exec (moveTree J config watched item preserve (config.stagingFor item.id)
    destination) fates c = first at *
  cases moved with
  | error out' =>
    left
    obtain rfl : out' = out := by simpa [settle] using hout
    exact hspec.2
  | ok result =>
    obtain ⟨plan, tally, stop⟩ := result
    obtain ⟨M, hbegins, hended, hplan⟩ := hspec
    right
    rw [settle] at *
    have hfaultless : Faultless
        (· ∈ ((Ports.world L).exec (conclude config item plan tally stop) first.rest first.state).log) := by
      cases stop with
      | none => exact faultless_commit (fun ev hev => hmerge ev (List.mem_append_right _ hev))
      | some stop => exact faultless_rest hone hended.2.2
    have hconclude := Merge.wp_conclude (L := L) hfaultless item plan tally hbegins.marker.symm
      hbegins.names.symm hended
    rw [hbegins.config] at hconclude
    exact ⟨M, plan, hbegins, hplan, World.exec_post hout hconclude⟩

namespace Sample

def config : CfwInstallConfig := { stagingRoot := ascii "/t", switchApps := ascii "/d" }

def item : CatalogItem := ⟨ascii "p", ascii "p", .switchApps, [], [], 1, Sha256.of [0], true⟩

def rules : PreserveRules := PreserveRules.parse (ascii "k")

def cardOf (files : List (Bytes × Bytes)) : Card := files.foldl (fun c f => c.insert f.1 f.2) ∅

def staged : Card :=
  cardOf [(ascii "/d/k", [1]), (ascii "/d/o", [2]), (ascii "/t/p/k", [3]), (ascii "/t/p/o", [4]), (ascii "/t/p/n", [5])]

def merge (card : Card) (fates : List PortFate) : Trace PortOp PortOp.Reply PortFate Card InstallOutcome :=
  (Ports.world .stored).exec (mergeStagedTree JsonCodec.library config false item rules
    (config.stagingFor item.id) (ascii "/d")) fates card

def stopped : List PortFate := List.replicate 12 .ok ++ .fails :: List.replicate 20 .ok

def stoppedOutcome : InstallOutcome :=
  { result := .rolledBack, filesMerged := 1, filesPreserved := 1, filesReplaced := 1,
    detail := ascii "could not install o; the previous files were restored" }

end Sample

theorem merge_is_all_or_nothing (L : Listing) (J : JsonLibrary) (config : CfwInstallConfig) (watched : Bool)
    (item : CatalogItem) (preserve : PreserveRules) (destination : Bytes) (fates : List PortFate) (c : Card)
    (out : InstallOutcome)
    (hclear : ∀ r ∈ L.files c (config.stagingFor item.id), config.Outside (join destination r))
    (hbackup : L.files c (config.backupFor item.id) = [])
    (hout : ((Ports.world L).exec (mergeStagedTree J config watched item preserve (config.stagingFor item.id)
      destination) fates c).outcome = some out)
    (hone : (((Ports.world L).exec (mergeStagedTree J config watched item preserve (config.stagingFor item.id)
      destination) fates c).log.filter (fun ev => ev.fate.failing)).length ≤ 1)
    (hmerge : ∀ ev ∈ ((Ports.world L).exec (mergeStagedTree J config watched item preserve
      (config.stagingFor item.id) destination) fates c).log, ev.fate.failing = true → merges ev.asked = true) :
    let c' := ((Ports.world L).exec (mergeStagedTree J config watched item preserve
      (config.stagingFor item.id) destination) fates c).state
    (out.result = .installed → ∀ path, ¬config.Works item.id path →
      (∀ r ∈ L.files c (config.stagingFor item.id), path = join destination r →
        ¬(preserve.preserves r = true ∧ c.has path = true) →
        c'.lookup path = c.lookup (config.stagingFor item.id ++ ascii "/" ++ r)) ∧
      ((∀ r ∈ L.files c (config.stagingFor item.id), path = join destination r →
        preserve.preserves r = true ∧ c.has path = true) → c'.lookup path = c.lookup path)) ∧
    (out.result = .cancelled ∨ out.result = .rolledBack → ∀ path, ¬config.Works item.id path →
      c'.lookup path = c.lookup path) ∧
    (out.result = .installed ∨ out.result = .cancelled ∨ out.result = .rolledBack →
      L.files c' (config.stagingFor item.id) = [] ∧ L.files c' (config.backupFor item.id) = [] ∧
      c'.lookup (config.archiveFor item.id) = none ∧ c'.lookup config.mergeFileListPath = none ∧
      c'.lookup config.markerPath = none) := by
  rcases settled_of_exec hclear hbackup hout hone hmerge with hfailed | ⟨M, plan, hbegins, hplan, hgone, hend⟩
  · rcases hfailed with h | h <;> rw [h] <;> simp
  generalize ((Ports.world L).exec (mergeStagedTree J config watched item preserve (config.stagingFor item.id)
    destination) fates c).state = c' at *
  obtain rfl := hbegins.config
  obtain rfl := hbegins.destination
  rw [← hbegins.id] at *
  have hnames : ∀ r, r ∈ M.names ↔ r ∈ L.files c (M.config.stagingFor M.id) ∧
      ¬(preserve.preserves r = true ∧ c.has (M.target r) = true) := by
    intro r
    rw [hbegins.names, hplan, toWrite, List.mem_filter, Bool.not_eq_true', Bool.and_eq_false_imp, not_and,
      Bool.not_eq_true]
    rfl
  refine ⟨fun hresult path hpath => ?_, fun hresult path hpath => ?_, fun _ => ?_⟩
  · have hin : M.InPlace c' := by
      rcases hend with ⟨_, hin⟩ | ⟨hother | hother, _⟩
      · exact hin
      · exact absurd (hresult.symm.trans hother) (by decide)
      · exact absurd (hresult.symm.trans hother) (by decide)
    obtain ⟨hwritten, hkept⟩ := hin path (M.clear_iff.mpr hpath)
    refine ⟨fun r hr heq hnot => ?_, fun hall => ?_⟩
    · have hmem : r ∈ M.names := by
        refine (hnames r).mpr ⟨hr, ?_⟩
        rwa [heq] at hnot
      rw [hwritten r hmem heq, ← hbegins.package r hmem]
      rfl
    · rw [hkept ?_, hbegins.before]
      rintro hmem
      obtain ⟨r, hr, rfl⟩ := List.mem_map.mp hmem
      obtain ⟨hstaged, hnot⟩ := (hnames r).mp hr
      exact hnot (hall r hstaged rfl)
  · have hback : M.PutBack c' := by
      rcases hend with ⟨hother, _⟩ | ⟨_, hback⟩
      · simp [hother] at hresult
      · exact hback
    rw [hback path (M.clear_iff.mpr hpath), hbegins.before]
  · exact ⟨files_eq_nil hgone.staging, files_eq_nil hgone.backup, hgone.archive, hgone.list, hgone.marker⟩

theorem merge_undone_by_failed_move :
    ¬Sample.config.Works Sample.item.id (ascii "/d/o") ∧
      (Sample.merge Sample.staged Sample.stopped).state.lookup (ascii "/d/o") = Sample.staged.lookup (ascii "/d/o") := by
  have houtside : ¬Sample.config.Works Sample.item.id (ascii "/d/o") := by
    rintro (⟨r, hr⟩ | ⟨r, hr⟩ | hmem)
    · have hbegins : Sample.config.stagingFor Sample.item.id ++ ascii "/" <+: ascii "/d/o" := ⟨r, hr.symm⟩
      exact absurd hbegins (by decide +kernel)
    · have hbegins : Sample.config.backupFor Sample.item.id ++ ascii "/" <+: ascii "/d/o" := ⟨r, hr.symm⟩
      exact absurd hbegins (by decide +kernel)
    · exact absurd hmem (by decide +kernel)
  refine ⟨houtside, ?_⟩
  exact (merge_is_all_or_nothing .stored JsonCodec.library Sample.config false Sample.item Sample.rules (ascii "/d")
    Sample.stopped Sample.staged Sample.stoppedOutcome (by decide +kernel) (by decide +kernel) (by decide +kernel)
    (by decide +kernel) (by decide +kernel)).2.1 (.inr rfl) _ houtside

end NsxManager.Cfw
