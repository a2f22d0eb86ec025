import NsxManager.Cfw.Report

/-! The files of the installation itself while it merges: a package can only reach them by a name that leads
below the staging root. -/

namespace NsxManager.Cfw

open NsxManager.Core Lib Infra Ports

/-- The request moves a staged file out or a displaced one into the backup, and `p` is the file below the
staging root that it takes or makes. -/
def OwnMove (config : CfwInstallConfig) (id destination : Bytes) (planned : List Bytes) (e : PortOp) (p : Bytes) :
    Prop :=
  ∃ r ∈ planned,
    (e = .rename (join destination r) (config.backupFor id ++ ascii "/" ++ r) ∧
      p = config.backupFor id ++ ascii "/" ++ r) ∨
    (e = .rename (config.stagingFor id ++ ascii "/" ++ r) (join destination r) ∧
      p = config.stagingFor id ++ ascii "/" ++ r)

def Minds (config : CfwInstallConfig) (id destination : Bytes) (planned : List Bytes) (e : PortOp) : Prop :=
  ∀ p ∈ e.changes, ¬config.Outside p → OwnMove config id destination planned e p

section Run

variable {L : Listing} {c : Card} {marker : MergeMarker} {r p : Bytes}

lemma run_makeParent : (world L).run .ok (makeParent p) c = (some true, c) := by
  unfold makeParent
  split <;> rfl

lemma run_report {watched : Bool} {progress : InstallProgress} :
    (world L).run .ok (report watched progress) c = (some true, c) := by
  unfold report
  split <;> rfl

variable {w : Workspace} (hmarks : w.Marks marker)

include hmarks

lemma Workspace.Marks.run_setAside (hclear : w.Clear (w.target r)) (hlive : c.has (w.target r) = true) :
    (world L).run .ok (setAside marker r) c =
      (some none, Card.move (c.erase (w.name (.kept r))) (w.target r) (w.name (.kept r))) := by
  rw [← Card.has_erase_of_ne c _ (w.name (.kept r)) (hclear _).symm] at hlive
  rw [setAside, (world L).run_bind_of_some run_makeParent, if_neg (by decide), hmarks.join_kept, hmarks.join_target]
  change (world L).run .ok (if !(Card.has (c.erase (w.name (.kept r))) (w.target r)) then _ else _) _ = _
  rw [hlive]
  rfl

lemma Workspace.Marks.run_moveIn (hclear : w.Clear (w.target r)) (hstaged : c.has (w.name (.staged r)) = true) :
    (world L).run .ok (moveIn marker r) c =
      (some none, Card.move (c.erase (w.target r)) (w.name (.staged r)) (w.target r)) := by
  rw [← Card.has_erase_of_ne c _ (w.target r) (hclear _)] at hstaged
  rw [moveIn, (world L).run_bind_of_some run_makeParent, if_neg (by decide), hmarks.join_staged, hmarks.join_target]
  change (world L).run .ok (if !(Card.has (c.erase (w.target r)) (w.name (.staged r))) then _ else _) _ = _
  rw [hstaged]
  rfl

end Run

section MayAsk

variable {L : Listing} {c : Card} {marker : MergeMarker} {w : Workspace} {watched : Bool} {total : ℕ}
  {P : PortOp → Prop}

lemma Workspace.Marks.mayAsk_head (hmarks : w.Marks marker) {r : Bytes}
    (haside : P (.rename (w.target r) (w.name (.kept r)))) (hin : P (.rename (w.name (.staged r)) (w.target r)))
    (rest : List Bytes) (done : ℕ) (tally : Tally) :
    (world L).mayAsk (mergeLoop watched marker total done (r :: rest) tally) P c := by
  refine World.mayAsk_after run_report ?_
  rw [if_neg (by decide), hmarks.join_target]
  refine mayAsk_probe ?_
  cases c.has (w.target r) with
  | true =>
    refine World.mayAsk_bind ?_
    rw [setAside, hmarks.join_kept, hmarks.join_target]
    exact World.mayAsk_after run_makeParent (mayAsk_rename haside)
  | false =>
    refine World.mayAsk_bind (p := moveIn marker r) ?_
    rw [moveIn, hmarks.join_staged, hmarks.join_target]
    exact World.mayAsk_after run_makeParent (mayAsk_rename hin)

lemma Workspace.Marks.mayAsk_tail (hmarks : w.Marks marker) {r : Bytes} {rest : List Bytes}
    (hclear : w.Clear (w.target r)) (hnot : r ∉ rest) (hstaged : ∀ r' ∈ r :: rest, c.has (w.name (.staged r')) = true)
    (h : ∀ c' done tally, (∀ r' ∈ rest, c'.has (w.name (.staged r')) = true) →
      (world L).mayAsk (mergeLoop watched marker total done rest tally) P c') (done : ℕ) (tally : Tally) :
    (world L).mayAsk (mergeLoop watched marker total done (r :: rest) tally) P c := by
  have hothers : ∀ {p q : Bytes} {c : Card}, p = w.target r ∨ p = w.name (.staged r) →
      q = w.target r ∨ q = w.name (.kept r) →
      ∀ r' ∈ rest, Card.has (Card.move (c.erase q) p q) (w.name (.staged r')) = c.has (w.name (.staged r')) := by
    intro p q c hp hq r' hr'
    have hne : r' ≠ r := ne_of_mem_of_not_mem hr' hnot
    have hpne : w.name (.staged r') ≠ p := by
      rcases hp with rfl | rfl
      · exact hclear _
      · exact w.name_injective.ne (by simpa using hne)
    have hqne : w.name (.staged r') ≠ q := by
      rcases hq with rfl | rfl
      · exact hclear _
      · exact w.name_injective.ne (by simp)
    rw [Card.has, Card.has, Card.lookup_move_of_ne _ _ hpne hqne, AList.lookup_erase_ne hqne]
  have hin : ∀ {c : Card} {k : Option Interruption → PortProgram (Tally × Option Interruption)},
      (∀ r' ∈ r :: rest, c.has (w.name (.staged r')) = true) →
      (∀ c', (∀ r' ∈ rest, c'.has (w.name (.staged r')) = true) → (world L).mayAsk (k none) P c') →
      (world L).mayAsk (moveIn marker r >>= k) P c := by
    intro c k hstaged hgoing
    refine World.mayAsk_after (hmarks.run_moveIn hclear (hstaged r List.mem_cons_self)) (hgoing _ (fun r' hr' => ?_))
    rw [hothers (.inr rfl) (.inl rfl) r' hr']
    exact hstaged r' (List.mem_cons_of_mem _ hr')
  refine World.mayAsk_after run_report ?_
  rw [if_neg (by decide), hmarks.join_target]
  refine mayAsk_probe ?_
  cases hpresent : c.has (w.target r) with
  | false => exact hin hstaged (fun c' hrest => h c' _ _ hrest)
  | true =>
    refine World.mayAsk_after (hmarks.run_setAside hclear hpresent)
      (hin (fun r' hr' => ?_) (fun c' hrest => h c' _ _ hrest))
    rcases List.mem_cons.mp hr' with rfl | hr'
    · rw [Card.has, Card.lookup_move_of_ne _ _ (hclear _) (w.name_injective.ne (by simp)),
        AList.lookup_erase_ne (w.name_injective.ne (by simp))]
      exact hstaged _ List.mem_cons_self
    · rw [hothers (.inl rfl) (.inr rfl) r' hr']
      exact hstaged r' (List.mem_cons_of_mem _ hr')

lemma Workspace.Marks.mayAsk_inside (hmarks : w.Marks marker) (rest : List Bytes) (hnodup : rest.Nodup)
    (hstaged : ∀ r ∈ rest, c.has (w.name (.staged r)) = true)
    (hP : ∀ r, ¬w.config.Outside (w.target r) →
      P (.rename (w.target r) (w.name (.kept r))) ∧ P (.rename (w.name (.staged r)) (w.target r)))
    (hinside : ∃ r ∈ rest, ¬w.config.Outside (w.target r)) (done : ℕ) (tally : Tally) :
    (world L).mayAsk (mergeLoop watched marker total done rest tally) P c := by
  induction rest generalizing c done tally with
  | nil => simp at hinside
  | cons r rest ih =>
    obtain ⟨hnot, hnodup'⟩ := List.nodup_cons.mp hnodup
    by_cases hout : w.config.Outside (w.target r)
    · have hlater : ∃ r' ∈ rest, ¬w.config.Outside (w.target r') := by
        obtain ⟨r', hr', hinside⟩ := hinside
        rcases List.mem_cons.mp hr' with rfl | hr'
        · exact absurd hout hinside
        · exact ⟨r', hr', hinside⟩
      exact hmarks.mayAsk_tail (w.clear_of_outside hout) hnot hstaged
        (fun _ _ _ hrest => ih hnodup' hrest hlater _ _) _ _
    · exact hmarks.mayAsk_head (hP r hout).1 (hP r hout).2 rest _ _

end MayAsk

section Minds

variable {w : Workspace} {planned : List Bytes} {r : Bytes}

lemma minds_aside (hr : r ∈ planned) (hout : w.config.Outside (w.target r)) :
    Minds w.config w.id w.destination planned (.rename (w.target r) (w.name (.kept r))) := by
  intro p hp hinside
  rcases List.mem_cons.mp hp with rfl | hp
  · exact absurd hout hinside
  · exact ⟨r, hr, .inl ⟨rfl, List.mem_singleton.mp hp⟩⟩

lemma minds_in (hr : r ∈ planned) (hout : w.config.Outside (w.target r)) :
    Minds w.config w.id w.destination planned (.rename (w.name (.staged r)) (w.target r)) := by
  intro p hp hinside
  rcases List.mem_cons.mp hp with rfl | hp
  · exact ⟨r, hr, .inr ⟨rfl, rfl⟩⟩
  · rw [List.mem_singleton.mp hp] at hinside
    exact absurd hout hinside

lemma Workspace.Marks.asks_mergeLoop_minds {marker : MergeMarker} (hmarks : w.Marks marker) {watched : Bool}
    (total done : ℕ) (tally : Tally) (hout : ∀ r ∈ planned, w.config.Outside (w.target r)) :
    (mergeLoop watched marker total done planned tally).Asks (Minds w.config w.id w.destination planned) := by
  refine asks_mergeLoop (fun e he p hp => by simp [he] at hp) total done planned tally (fun r hr => ?_) (fun r hr => ?_)
  · rw [hmarks.join_target, hmarks.join_kept]
    exact minds_aside hr (hout r hr)
  · rw [hmarks.join_staged, hmarks.join_target]
    exact minds_in hr (hout r hr)

lemma Minds.spares_leaves {e : PortOp} (h : Minds w.config w.id w.destination planned e) :
    e.Spares (fun p => ∃ l, p = w.name (.leaf l)) := by
  rintro p hp ⟨l, rfl⟩
  have hinside : ¬w.config.Outside (w.name (.leaf l)) := fun hout => w.clear_of_outside hout _ rfl
  obtain ⟨r, _, ⟨_, heq⟩ | ⟨_, heq⟩⟩ := h _ hp hinside
  · exact Place.noConfusion (w.name_injective (show w.name (.leaf l) = w.name (.kept r) from heq))
  · exact Place.noConfusion (w.name_injective (show w.name (.leaf l) = w.name (.staged r) from heq))

end Minds

section Default

lemma not_prefix_append {u v : Bytes} (n : ℕ) (hu : n ≤ u.length) (hv : n ≤ v.length) (h : u.take n ≠ v.take n)
    (r : Bytes) : ¬u <+: v ++ r := by
  rintro ⟨t, ht⟩
  have htake := congrArg (List.take n) ht
  rw [List.take_append_of_le_length hu, List.take_append_of_le_length hv] at htake
  exact h htake

lemma outside_default_iff (target : InstallTarget) (r : Bytes) :
    ({} : CfwInstallConfig).Outside (join (({} : CfwInstallConfig).resolve target) r) ↔
      (target = .sdRoot → ¬ascii "config/nsx-manager/staging/cfw/" <+: r) := by
  have hother : ∀ root : Bytes, join root r = root ++ ascii "/" ++ r → 2 ≤ (root ++ ascii "/").length →
      (({} : CfwInstallConfig).stagingRoot ++ ascii "/").take 2 ≠ (root ++ ascii "/").take 2 →
        ({} : CfwInstallConfig).Outside (join root r) := by
    intro root hjoin hlength hne
    rw [CfwInstallConfig.Outside, hjoin]
    exact not_prefix_append 2 (by decide) hlength hne r
  cases target with
  | sdRoot =>
    have hroot : ({} : CfwInstallConfig).stagingRoot ++ ascii "/" =
        byte '/' :: ascii "config/nsx-manager/staging/cfw/" := by decide
    have hjoin : join (({} : CfwInstallConfig).resolve .sdRoot) r = byte '/' :: r := rfl
    rw [CfwInstallConfig.Outside, hroot, hjoin, List.cons_prefix_cons]
    simp
  | atmosphereContents => exact iff_of_true (hother _ rfl (by decide) (by decide)) nofun
  | bootloader => exact iff_of_true (hother _ rfl (by decide) (by decide)) nofun
  | firmwareStaging => exact iff_of_true (hother _ rfl (by decide) (by decide)) nofun
  | switchApps => exact iff_of_true (hother _ rfl (by decide) (by decide)) nofun
  | themes => exact iff_of_true (hother _ rfl (by decide) (by decide)) nofun

lemma length_lt_of_kept {id r r' : Bytes}
    (h : join ({} : CfwInstallConfig).sdRoot r = ({} : CfwInstallConfig).backupFor id ++ ascii "/" ++ r') :
    r'.length < r.length := by
  have hlength := congrArg List.length (show byte '/' :: r = _ from h)
  have hslash : (ascii "/").length = 1 := rfl
  simp only [CfwInstallConfig.backupFor, List.length_append, List.length_cons, hslash] at hlength
  omega

lemma length_lt_of_staged {id r r' : Bytes}
    (h : join ({} : CfwInstallConfig).sdRoot r = ({} : CfwInstallConfig).stagingFor id ++ ascii "/" ++ r') :
    r'.length < r.length := by
  have hlength := congrArg List.length (show byte '/' :: r = _ from h)
  have hslash : (ascii "/").length = 1 := rfl
  simp only [CfwInstallConfig.stagingFor, List.length_append, List.length_cons, hslash] at hlength
  omega

lemma not_minds_sdRoot {id r : Bytes} {planned : List Bytes}
    (hinside : ¬({} : CfwInstallConfig).Outside (join ({} : CfwInstallConfig).sdRoot r)) :
    ¬Minds {} id ({} : CfwInstallConfig).sdRoot planned
        (.rename (join ({} : CfwInstallConfig).sdRoot r) (({} : CfwInstallConfig).backupFor id ++ ascii "/" ++ r)) ∧
      ¬Minds {} id ({} : CfwInstallConfig).sdRoot planned
        (.rename (({} : CfwInstallConfig).stagingFor id ++ ascii "/" ++ r) (join ({} : CfwInstallConfig).sdRoot r)) := by
  constructor <;> intro h
  · obtain ⟨r', _, ⟨heq, hp⟩ | ⟨heq, hp⟩⟩ := h _ List.mem_cons_self hinside
    · obtain rfl : r = r' := List.append_cancel_left (PortOp.rename.inj heq).2
      exact absurd (length_lt_of_kept hp) (lt_irrefl _)
    · exact lt_asymm (length_lt_of_staged hp) (length_lt_of_kept (PortOp.rename.inj heq).2.symm)
  · obtain ⟨r', _, ⟨heq, hp⟩ | ⟨heq, hp⟩⟩ := h _ (List.mem_cons_of_mem _ List.mem_cons_self) hinside
    · exact lt_asymm (length_lt_of_kept hp) (length_lt_of_staged (PortOp.rename.inj heq).1.symm)
    · obtain rfl : r = r' := List.append_cancel_left (PortOp.rename.inj heq).1
      exact absurd (length_lt_of_staged hp) (lt_irrefl _)

end Default

namespace Sample

def cardItem : CatalogItem := { item with target := .sdRoot }

def forgery : List (Bytes × Bytes) := [(ascii "config/nsx-manager/staging/cfw/merge.json", [7])]

def forging : List PortFate := fetching forgery ++ List.replicate 9 .ok

def plainCard : Card := cardOf [(ascii "/config/nsx-manager/staging/cfw/p/n", [5])]

def plainPlan : MergePlan :=
  ⟨draftMarker {} cardItem (({} : CfwInstallConfig).stagingFor cardItem.id) (ascii "/") 0, [ascii "n"], 0⟩

end Sample

theorem merge_minds_its_records_iff (L : Listing) (J : JsonLibrary) (watched : Bool) (item : CatalogItem)
    (preserve : PreserveRules) (fates : List PortFate) (c : Card) (plan : MergePlan)
    (hbegun : ((world L).exec (beginMerge J {} item preserve (({} : CfwInstallConfig).stagingFor item.id)
      (({} : CfwInstallConfig).resolve item.target)) fates c).outcome = some (.ok plan)) :
    let config : CfwInstallConfig := {}
    let c₁ := ((world L).exec (beginMerge J config item preserve (config.stagingFor item.id)
      (config.resolve item.target)) fates c).state
    (∀ progress, let t := (world L).exec (mergeLoop watched plan.marker plan.toWrite.length 0 plan.toWrite {}) progress c₁
      (∀ ev ∈ t.log, ∀ p ∈ ev.asked.changes, ¬config.Outside p →
        OwnMove config item.id (config.resolve item.target) plan.toWrite ev.asked p) ∧
      t.state.lookup config.markerPath = c₁.lookup config.markerPath ∧
      t.state.lookup config.mergeFileListPath = c₁.lookup config.mergeFileListPath) ↔
    (item.target = .sdRoot → ∀ r ∈ plan.toWrite, ¬ascii "config/nsx-manager/staging/cfw/" <+: r) := by
  intro config c₁
  have hdraft : Drafted false L J config item preserve (config.resolve item.target) c plan c₁ := drafted_of_begun hbegun
  let w : Workspace := ⟨config, item.id, config.resolve item.target, hdraft.valid⟩
  have hmarks : w.Marks plan.marker := hdraft.marks
  constructor
  · intro hminds htarget
    by_contra hreaches
    have hdestination : config.resolve item.target = config.sdRoot := by rw [htarget]; rfl
    have hinside : ∃ r ∈ plan.toWrite, ¬w.config.Outside (w.target r) := by
      push Not at hreaches
      obtain ⟨r, hr, hprefix⟩ := hreaches
      exact ⟨r, hr, fun hout => (outside_default_iff item.target r).mp hout htarget hprefix⟩
    have hstaged : ∀ r ∈ plan.toWrite, c₁.has (w.name (.staged r)) = true := by
      intro r hr
      rw [Card.has, hdraft.lookup_eq rfl (fun l => w.name_injective.ne (by simp))]
      exact ((L.complete _ _ _).mp (hdraft.staged.subset hr)).2
    have hmay : (world L).mayAsk (mergeLoop watched plan.marker plan.toWrite.length 0 plan.toWrite {})
        (fun e => ¬Minds config item.id (config.resolve item.target) plan.toWrite e) c₁ := by
      refine hmarks.mayAsk_inside plan.toWrite hdraft.nodup hstaged (fun r hr => ?_) hinside
        0 {}
      rw [Workspace.target, show w.destination = config.sdRoot from hdestination] at hr ⊢
      rw [hdestination]
      exact not_minds_sdRoot hr
    obtain ⟨progress, ev, hev, hbad⟩ := hmay
    exact hbad ((hminds progress).1 ev hev)
  · intro hnames progress
    have hasks : (mergeLoop watched plan.marker plan.toWrite.length 0 plan.toWrite {}).Asks
        (Minds config item.id (config.resolve item.target) plan.toWrite) :=
      hmarks.asks_mergeLoop_minds _ _ _
        (fun r hr => (outside_default_iff item.target r).mpr (fun htarget => hnames htarget r hr))
    have hspares := hasks.mono (fun _ h => Minds.spares_leaves (w := w) h)
    exact ⟨fun ev hev => World.asked_of_mem_log _ hasks hev, lookup_exec hspares progress ⟨.marker, rfl⟩,
      lookup_exec hspares progress ⟨.list, rfl⟩⟩

theorem plain_package_minds_its_records :
    let config : CfwInstallConfig := {}
    let c₁ := ((world .stored).exec (beginMerge JsonCodec.library config Sample.cardItem Sample.rules
      (config.stagingFor Sample.cardItem.id) (config.resolve Sample.cardItem.target)) (List.replicate 5 .ok)
      Sample.plainCard).state
    ∀ progress, ((world .stored).exec (mergeLoop false Sample.plainPlan.marker 1 0 [ascii "n"] {}) progress
      c₁).state.lookup config.markerPath = c₁.lookup config.markerPath :=
  fun progress => ((merge_minds_its_records_iff .stored JsonCodec.library false Sample.cardItem Sample.rules
    (List.replicate 5 .ok) Sample.plainCard Sample.plainPlan (by decide +kernel)).mpr (by decide) progress).2.1

theorem marker_is_replaced_by_the_package :
    let config : CfwInstallConfig := {}
    let begun := begun .stored JsonCodec.library config false Sample.cardItem Sample.rules Sample.forging ∅
    let moved := moved .stored JsonCodec.library config false Sample.cardItem Sample.rules Sample.forging ∅
    (∀ file ∈ Sample.forgery,
      ((ExtractionPolicy.mk (config.stagingFor Sample.cardItem.id) (PreserveRules.parse [])).decide file.1).action =
        .write) ∧
      begun.outcome.isSome = true ∧ begun.state.lookup config.markerPath ≠ some [7] ∧
      moved.state.lookup config.markerPath = some [7] := by
  decide +kernel

end NsxManager.Cfw
