import NsxManager.Cfw.CutOff

/-! What an installation reports, against what it has done to the card when requests fail. -/

namespace NsxManager.Cfw

open NsxManager.Core Lib Infra Ports

def undone (L : Listing) (config : CfwInstallConfig) (plan : MergePlan)
    (stopped : Trace PortOp PortOp.Reply PortFate Card
      (Except InstallOutcome (MergePlan × Tally × Option Interruption))) :
    Trace PortOp PortOp.Reply PortFate Card Bool :=
  (fallible L).exec (rollBack config plan.marker plan.toWrite) stopped.rest stopped.state

/-- The names a rollback of the stopped merge puts back. -/
def listed (L : Listing) (config : CfwInstallConfig) (id : Bytes)
    (stopped : Trace PortOp PortOp.Reply PortFate Card
      (Except InstallOutcome (MergePlan × Tally × Option Interruption))) : List Bytes :=
  backedUp L config id stopped.state (stopped.rest.headD .ok)

/-- A rollback deletes the file under a planned name: it sees no staged copy, and the deletion succeeds. -/
def Withdrawn (config : CfwInstallConfig) (id destination : Bytes) (c : Card)
    (log : List (Event PortOp PortOp.Reply PortFate)) (r : Bytes) : Prop :=
  ¬(c.has (config.stagingFor id ++ ascii "/" ++ r) = true ∧
      Granted (.probe (config.stagingFor id ++ ascii "/" ++ r)) log) ∧
    Granted (.remove (join destination r)) log

instance (config : CfwInstallConfig) (id destination : Bytes) (c : Card)
    (log : List (Event PortOp PortOp.Reply PortFate)) (r : Bytes) :
    Decidable (Withdrawn config id destination c log r) := inferInstanceAs (Decidable (¬_ ∧ _))

/-- Of a file that lies on the card when a rollback begins: its copy in the backup is put back or not deleted, or it
is in place and the rollback neither deletes it nor puts another file there. -/
def Survives (config : CfwInstallConfig) (id destination : Bytes) (planned names : List Bytes) (c : Card)
    (log : List (Event PortOp PortOp.Reply PortFate)) (r b : Bytes) : Prop :=
  let back : PortOp := .rename (config.backupFor id ++ ascii "/" ++ r) (join destination r)
  c.lookup (config.backupFor id ++ ascii "/" ++ r) = some b ∧
      (Granted back log ∨ ¬Granted (.unlink (config.backupFor id ++ ascii "/" ++ r)) log) ∨
    c.lookup (join destination r) = some b ∧ ¬Granted back log ∧
      ¬(r ∈ planned ∧ r ∉ names ∧ Withdrawn config id destination c log r)

instance (config : CfwInstallConfig) (id destination : Bytes) (planned names : List Bytes) (c : Card)
    (log : List (Event PortOp PortOp.Reply PortFate)) (r b : Bytes) :
    Decidable (Survives config id destination planned names c log r b) := inferInstanceAs (Decidable (_ ∧ _ ∨ _ ∧ _ ∧ _))

section Concluded

variable {L : Listing} {J : JsonLibrary} {config : CfwInstallConfig} {watched : Bool} {item : CatalogItem}
  {preserve : PreserveRules} {fates : List PortFate} {c : Card} {out : InstallOutcome}

lemma installTree_cases (hid : isValidId item.id = true)
    {result : Except InstallOutcome (MergePlan × Tally × Option Interruption)}
    (h : ((fallible L).exec (installTree J config watched item preserve) fates c).outcome = some result) :
    let w : Workspace := ⟨config, item.id, config.resolve item.target, hid⟩
    let package := ((fallible L).exec (fetchTree config watched item) fates c).state
    let c' := ((fallible L).exec (installTree J config watched item preserve) fates c).state
    (∃ out, result = .error out ∧ Untouched config c c') ∨
      ∃ plan tally stop, result = .ok (plan, tally, stop) ∧ w.Marks plan.marker ∧
        plan.toWrite ⊆ L.files package (config.stagingFor item.id) ∧
        (config.Apart item.id (config.resolve item.target) plan.toWrite → Reached true w L J plan package c' ∧
          (stop = none → ∀ r ∈ plan.toWrite, c'.lookup (w.target r) = package.lookup (w.name (.staged r)))) := by
  intro w package c'
  have huntouched : Untouched config c package := fetchTree_untouched hid
  obtain ⟨stopped, hstopped, hexec⟩ := (fallible L).exec_bind_some h
  have hstate : c' = _ := congrArg Trace.state hexec
  rw [installTree, hexec] at h
  cases stopped with
  | some out' =>
    refine .inl ⟨out', (Option.some.inj h).symm, ?_⟩
    rw [hstate]
    exact huntouched
  | none =>
    rcases moveTree_cases h with ⟨out', rfl, hsame⟩ | ⟨plan, tally, stop, rfl, hbegun, hplace⟩
    · refine .inl ⟨out', rfl, ?_⟩
      rw [hstate]
      exact huntouched.trans hsame
    · have hdraft := drafted_of_begun hbegun
      refine .inr ⟨plan, tally, stop, rfl, hdraft.marks, hdraft.staged.subset, fun hclear => ?_⟩
      rw [hstate]
      exact ⟨reached_of_begun watched hid hbegun hclear, fun hstop r hr => (hplace hstop hclear r hr).1⟩

lemma install_cases (hid : isValidId item.id = true)
    (hout : ((fallible L).exec (install J config watched item preserve) fates c).outcome = some out) :
    let w : Workspace := ⟨config, item.id, config.resolve item.target, hid⟩
    let package := ((fallible L).exec (fetchTree config watched item) fates c).state
    let t := (fallible L).exec (installTree J config watched item preserve) fates c
    let c' := ((fallible L).exec (install J config watched item preserve) fates c).state
    (Untouched config c c' ∧ ∃ out', t.outcome = some (.error out')) ∨
      (∃ plan tally, t.outcome = some (.ok (plan, tally, none)) ∧ Untouched config t.state c' ∧ out.result = .installed ∧
        (config.Apart item.id (config.resolve item.target) plan.toWrite → Reached true w L J plan package t.state ∧
          ∀ r ∈ plan.toWrite, t.state.lookup (w.target r) = package.lookup (w.name (.staged r)))) ∨
      ∃ plan tally stop complete, t.outcome = some (.ok (plan, tally, some stop)) ∧
        (undone L config plan t).outcome = some complete ∧ c' = (undone L config plan t).state ∧
        out.result = (if complete then stop.result else .mergeFailed) ∧
        plan.toWrite ⊆ L.files package (config.stagingFor item.id) ∧
        (config.Apart item.id (config.resolve item.target) plan.toWrite → Reached true w L J plan package t.state) := by
  intro w package t c'
  rw [install_eq] at hout
  obtain ⟨result, hresult, hexec⟩ := (fallible L).exec_bind_some hout
  have hstate : c' = ((fallible L).exec (settle config item result) t.rest t.state).state := by
    change ((fallible L).exec (install J config watched item preserve) fates c).state = _
    rw [install_eq, hexec]
  rw [hexec] at hout
  rcases installTree_cases hid hresult with ⟨out', rfl, hsame⟩ | ⟨plan, tally, stop, rfl, hmarks, hstaged, hreached⟩
  · refine .inl ⟨?_, out', hresult⟩
    rw [hstate]
    exact hsame
  · cases stop with
    | none =>
      obtain ⟨_, _, hcommit⟩ := (fallible L).exec_bind_some hout
      dsimp only [settle, conclude] at hout hstate
      rw [hcommit] at hout hstate
      refine .inr (.inl ⟨plan, tally, hresult, ?_, (congrArg InstallOutcome.result (Option.some.inj hout)).symm,
        fun hclear => ⟨(hreached hclear).1, (hreached hclear).2 rfl⟩⟩)
      have hspared : Untouched config t.state ((fallible L).exec (commit config plan.marker) t.rest t.state).state :=
        fun _ hpath => lookup_exec (hmarks.asks_commit.mono (fun _ => Workspace.Sweeps.spares)) _
          (w.clear_of_outside hpath)
      rw [hstate, Program.pure_eq, World.exec_done]
      exact hspared
    | some stop =>
      obtain ⟨complete, hcomplete, hundo⟩ := (fallible L).exec_bind_some hout
      dsimp only [settle, conclude] at hout hstate
      rw [hundo] at hout hstate
      refine .inr (.inr ⟨plan, tally, stop, complete, hresult, hcomplete, ?_, ?_, hstaged,
        fun hclear => (hreached hclear).1⟩)
      · cases complete <;> exact hstate
      · cases complete <;> exact (congrArg InstallOutcome.result (Option.some.inj hout)).symm

end Concluded

namespace Workspace.RolledBack

variable {w : Workspace} {names planned : List Bytes} {c c' : Card} {complete : Bool} {r : Bytes}
  {l : List (Event PortOp PortOp.Reply PortFate)}

lemma removed_iff (h : w.RolledBack names planned c complete c' l) (hr : w.Clear (w.target r)) :
    Granted (.remove (w.target r)) l ↔ r ∈ planned ∧ r ∉ names ∧ Withdrawn w.config w.id w.destination c l r := by
  constructor
  · intro hgone
    obtain ⟨hplanned, hnot, hwaits⟩ := h.removed r hr hgone
    exact ⟨hplanned, hnot, hwaits, hgone⟩
  · exact fun hgone => hgone.2.2.2

lemma live_of_listed (h : w.RolledBack names planned c true c' l) (hr : w.Clear (w.target r)) (hmem : r ∈ names) :
    c'.lookup (w.target r) = c.lookup (w.name (.kept r)) := by
  rw [h.live r hr, if_neg (fun hgone => ((h.removed_iff hr).mp hgone).2.1 hmem), if_pos (h.complete.mp rfl r hmem)]

lemma live_of_not_listed (h : w.RolledBack names planned c complete c' l) (hr : w.Clear (w.target r))
    (hmem : r ∉ names) : c'.lookup (w.target r) =
      if r ∈ planned ∧ Withdrawn w.config w.id w.destination c l r then none else c.lookup (w.target r) := by
  have hback : ¬Granted (w.restoring r) l := fun hback => hmem (h.restored r hback)
  simp only [h.live r hr, h.removed_iff hr, hback, if_false, hmem, not_false_eq_true, true_and]

lemma survives_iff (h : w.RolledBack names planned c complete c' l) (hr : w.Clear (w.target r)) {b : Bytes} :
    c'.lookup (w.target r) = some b ∨ c'.lookup (w.name (.kept r)) = some b ↔
      Survives w.config w.id w.destination planned names c l r b := by
  change _ ↔ c.lookup (w.name (.kept r)) = some b ∧
      (Granted (w.restoring r) l ∨ ¬Granted (.unlink (w.name (.kept r))) l) ∨
    c.lookup (w.target r) = some b ∧ ¬Granted (w.restoring r) l ∧
      ¬(r ∈ planned ∧ r ∉ names ∧ Withdrawn w.config w.id w.destination c l r)
  rw [h.live r hr, h.kept r hr, ← h.removed_iff hr]
  by_cases hback : Granted (w.restoring r) l
  · have hkeeps : ¬Granted (.remove (w.target r)) l := fun hgone => ((h.removed_iff hr).mp hgone).2.1 (h.restored r hback)
    simp [hback, hkeeps]
  · by_cases hgone : Granted (.remove (w.target r)) l <;> by_cases hunlink : Granted (.unlink (w.name (.kept r))) l <;>
      simp [hback, hgone, hunlink, or_comm]

end Workspace.RolledBack

namespace Reached

variable {w : Workspace} {L : Listing} {J : JsonLibrary} {plan : MergePlan} {c₀ c c'' : Card} {complete : Bool}
  {stopped : Trace PortOp PortOp.Reply PortFate Card (Except InstallOutcome (MergePlan × Tally × Option Interruption))}
  {r : Bytes}

lemma rolledBack (h : Reached true w L J plan c stopped.state)
    (hleft : w.config.Apart w.id w.destination (L.files c (w.config.backupFor w.id)))
    (hout : (undone L w.config plan stopped).outcome = some complete) :
    w.RolledBack (listed L w.config w.id stopped) plan.toWrite stopped.state complete (undone L w.config plan stopped).state
      (undone L w.config plan stopped).log := by
  obtain ⟨fate, hfate, hrolled⟩ := h.marks.returns_rollBack h.clear ((L.nodup _ _).sublist h.staged)
    (fun _ hr => h.clear_of_mem_backup hleft hr) _ _ hout
  rw [listed, List.headD_eq_head?_getD, World.head_of_head_log _ hfate]
  exact hrolled

section Undone

variable {l : List (Event PortOp PortOp.Reply PortFate)} {names : List Bytes}
  (h : Reached true w L J plan c stopped.state) (huntouched : Untouched w.config c₀ c)

include h huntouched

lemma lookup_stopped (hr : r ∉ plan.toWrite) (hout : w.config.Outside (w.target r)) :
    stopped.state.lookup (w.target r) = c₀.lookup (w.target r) := by
  rw [h.lookup_unplanned hr hout, huntouched _ hout]

lemma untouched_iff (hrolled : w.RolledBack names plan.toWrite stopped.state true c'' l)
    (hplanned : ∀ r ∈ plan.toWrite, w.config.Outside (w.target r)) :
    Untouched w.config c₀ c'' ↔
      (∀ r ∈ names, w.config.Outside (w.target r) →
        stopped.state.lookup (w.name (.kept r)) = c₀.lookup (w.target r)) ∧
      ∀ r ∈ plan.toWrite, r ∉ names →
        if Withdrawn w.config w.id w.destination stopped.state l r then c₀.lookup (w.target r) = none
        else stopped.state.lookup (w.target r) = c₀.lookup (w.target r) := by
  constructor
  · refine fun hsame => ⟨fun r hr hout => ?_, fun r hr hnot => ?_⟩
    · rw [← hrolled.live_of_listed (w.clear_of_outside hout) hr, hsame _ hout]
    · have hout := hplanned r hr
      have hlive := hrolled.live_of_not_listed (w.clear_of_outside hout) hnot
      rw [hsame _ hout] at hlive
      by_cases hgone : Withdrawn w.config w.id w.destination stopped.state l r
      · rw [if_pos hgone, hlive, if_pos ⟨hr, hgone⟩]
      · rw [if_neg hgone, hlive, if_neg (fun h => hgone h.2)]
  · rintro ⟨hkept, hplace⟩ path hpath
    by_cases htarget : ∃ r, path = w.target r
    · obtain ⟨r, rfl⟩ := htarget
      have hclear := w.clear_of_outside hpath
      by_cases hr : r ∈ names
      · rw [hrolled.live_of_listed hclear hr, hkept r hr hpath]
      · rw [hrolled.live_of_not_listed hclear hr]
        by_cases hmem : r ∈ plan.toWrite
        · have hcase := hplace r hmem hr
          by_cases hgone : Withdrawn w.config w.id w.destination stopped.state l r
          · rw [if_pos hgone] at hcase
            rw [if_pos ⟨hmem, hgone⟩, hcase]
          · rw [if_neg hgone] at hcase
            rw [if_neg (fun h => hgone h.2), hcase]
        · rw [if_neg (fun hgone => hmem hgone.1), h.lookup_stopped huntouched hmem hpath]
    · rw [not_exists] at htarget
      rw [hrolled.others path (w.clear_of_outside hpath) htarget, h.lookup_other hpath (fun r _ => htarget r),
        huntouched path hpath]

end Undone

end Reached

namespace Sample

def previous : Card := cardOf [(ascii "/d/o", [2])]

def failing (undo : List PortFate) : List PortFate :=
  fetching [(ascii "o", [4]), (ascii "n", [5])] ++ List.replicate 11 .ok ++ .fails :: undo

def install (fates : List PortFate) : Trace PortOp PortOp.Reply PortFate Card InstallOutcome :=
  (fallible .stored).exec (Cfw.install JsonCodec.library config false item rules) fates previous

def rolledBack : InstallOutcome :=
  { result := .rolledBack, filesMerged := 1, filesReplaced := 1,
    detail := ascii "could not install o; the previous files were restored" }

def undisturbed : List PortFate := failing (List.replicate 12 .ok)

def bothPlan : MergePlan := ⟨plan.marker, [ascii "n", ascii "o"], 0⟩

def fetch (fates : List PortFate) : Card := ((fallible .stored).exec (fetchTree config false item) fates previous).state

def stop (fates : List PortFate) :
    Trace PortOp PortOp.Reply PortFate Card (Except InstallOutcome (MergePlan × Tally × Option Interruption)) :=
  (fallible .stored).exec (installTree JsonCodec.library config false item rules) fates previous

lemma undisturbed_fetched :
    (∀ r ∈ Listing.stored.files (fetch undisturbed) (config.stagingFor item.id),
        config.Outside (join (config.resolve item.target) r)) ∧
      ∀ r ∈ Listing.stored.files (fetch undisturbed) (config.backupFor item.id),
        config.Outside (join (config.resolve item.target) r) := by
  decide +kernel

lemma undisturbed_stopped : (install undisturbed).outcome = some rolledBack ∧
    (stop undisturbed).outcome = some (.ok (bothPlan, ⟨1, 1⟩, some ⟨.rolledBack, rolledBack.detail⟩)) := by decide +kernel

lemma undisturbed_plan {plan : MergePlan} {tally : Tally} {interruption : Interruption}
    (h : (stop undisturbed).outcome = some (.ok (plan, tally, some interruption))) : bothPlan = plan := by
  have hsame := undisturbed_stopped.2.symm.trans h
  simp only [Option.some.injEq, Except.ok.injEq, Prod.mk.injEq] at hsame
  exact hsame.1

lemma eq_of_previous {r b : Bytes} (h : previous.lookup (join (config.resolve item.target) r) = some b) :
    r = ascii "o" ∧ b = [2] := by
  have hpath : ascii "/d/o" = join (config.resolve item.target) (ascii "o") := by decide +kernel
  change ((∅ : Card).insert (ascii "/d/o") [2]).lookup _ = some b at h
  rw [Card.lookup_insert_eq] at h
  split at h
  · next heq => exact ⟨Workspace.join_injective _ (heq.trans hpath), (Option.some.inj h).symm⟩
  · cases h

end Sample

end NsxManager.Cfw
