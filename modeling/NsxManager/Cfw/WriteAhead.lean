import NsxManager.Cfw.Fetch
import NsxManager.Cfw.Recovery

/-! The marker and the plan are on the card before a merge touches anything else. -/

namespace NsxManager.Cfw

open NsxManager.Core Lib Infra

structure OnRecord (J : JsonLibrary) (config : CfwInstallConfig) (destination : Bytes) (plan : MergePlan)
    (c c' : Card) : Prop where
  marker : ∃ document, c'.lookup config.markerPath = some document ∧ parseMergeMarker J document = .ok plan.marker
  list : c'.lookup config.mergeFileListPath = some (planText plan.toWrite)
  others : ∀ path, config.Outside path → path ∉ plan.toWrite.map (join destination) → c'.lookup path = c.lookup path

section OnRecord

variable {blind : Bool} {L : Listing} {J : JsonLibrary} {config : CfwInstallConfig} {watched : Bool} {item : CatalogItem}
  {preserve : PreserveRules} {destination : Bytes} {A : Event PortOp PortOp.Reply PortFate → Prop}
  {c c' : Card} {plan : MergePlan} {fates : List PortFate}

lemma Drafted.valid (h : Drafted blind L J config item preserve destination c plan c') : isValidId item.id = true := by
  obtain ⟨now, hmarker⟩ := h.marker
  have hid := h.accepted.itemId
  rwa [hmarker] at hid

lemma Drafted.untouched (h : Drafted blind L J config item preserve destination c plan c') : Untouched config c c' := by
  have hlist := inside_list config []
  have hmarker := inside_marker config []
  rw [List.append_nil] at hlist hmarker
  obtain ⟨document, _, rfl⟩ := h.recorded
  exact ((((Untouched.refl config c).erase (inside_list config _)).insert hlist _).erase
    (inside_marker config _)).insert hmarker _

lemma Drafted.onRecord (h : Drafted blind L J config item preserve destination c plan c') :
    OnRecord J config destination plan c c' := by
  let w : Workspace := ⟨config, item.id, destination, h.valid⟩
  have huntouched := h.untouched
  obtain ⟨document, hdocument, rfl⟩ := h.recorded
  refine ⟨⟨document, ?_, ?_⟩, ?_, fun path hpath _ => huntouched path hpath⟩
  · rw [recordedOn, AList.lookup_insert]
  · exact (parseMergeMarker_serializeMergeMarker hdocument).trans (readMergeMarker_document h.accepted)
  · have hlist : (recordedOn config plan.toWrite document c).lookup (w.name (.leaf .list)) =
        some (planText plan.toWrite) := by
      change ((((c.erase (w.name (.leaf .listTemporary))).insert (w.name (.leaf .list))
        (planText plan.toWrite)).erase (w.name (.leaf .markerTemporary))).insert (w.name (.leaf .marker))
        document).lookup (w.name (.leaf .list)) = _
      rw [Workspace.lookup_name_insert, if_neg (by decide), Workspace.lookup_name_erase, if_neg (by decide),
        AList.lookup_insert]
    exact hlist

lemma wp_mergeLoop_onRecord (hdraft : Drafted blind L J config item preserve destination c plan c')
    (hclear : config.Apart item.id destination plan.toWrite) (total : ℕ) (tally : Tally) :
    (Ports.worldOf blind L).wp A (OnRecord J config destination plan c)
      (mergeLoop watched plan.marker total 0 plan.toWrite tally) (fun _ => OnRecord J config destination plan c)
      c' := by
  let w : Workspace := ⟨config, item.id, destination, hdraft.valid⟩
  let P : Bytes → Prop := fun p => p = w.name (.leaf .marker) ∨ p = w.name (.leaf .list) ∨
    config.Outside p ∧ p ∉ plan.toWrite.map (join destination)
  obtain ⟨now, hmarker⟩ := hdraft.marker
  have hname : ∀ a : Place, a ≠ .leaf .marker → a ≠ .leaf .list → ¬P (w.name a) := by
    rintro a hm hl (h | h | ⟨h, _⟩)
    · exact hm (w.name_injective h)
    · exact hl (w.name_injective h)
    · exact w.clear_of_outside h a rfl
  have htarget : ∀ r ∈ plan.toWrite, ¬P (join destination r) := by
    have hout : ∀ r ∈ plan.toWrite, w.Clear (join destination r) := w.clear_of_apart hclear
    rintro r hr (h | h | ⟨_, h⟩)
    · exact hout r hr _ h.symm
    · exact hout r hr _ h.symm
    · exact h (List.mem_map_of_mem hr)
  have hkept : ∀ r, join (config.backupFor item.id) r = w.name (.kept r) := w.join_kept
  have hstaged : ∀ r, join (config.stagingFor item.id) r = w.name (.staged r) := w.join_staged
  have hspares : (mergeLoop watched plan.marker total 0 plan.toWrite tally).Asks (PortOp.Spares P) := by
    refine asks_mergeLoop (fun e he p hp => by simp [he] at hp) _ _ _ _ (fun r hr p hp => ?_) (fun r hr p hp => ?_)
    · rw [hmarker] at hp
      simp only [PortOp.changes, draftMarker, hkept, List.mem_cons, List.not_mem_nil, or_false] at hp
      rcases hp with rfl | rfl
      · exact htarget r hr
      · exact hname _ (by simp) (by simp)
    · rw [hmarker] at hp
      simp only [PortOp.changes, draftMarker, hstaged, List.mem_cons, List.not_mem_nil, or_false] at hp
      rcases hp with rfl | rfl
      · exact hname _ (by simp) (by simp)
      · exact htarget r hr
  have hkeep : ∀ c'', (∀ p, P p → c''.lookup p = c'.lookup p) → OnRecord J config destination plan c c'' := by
    intro c'' hsame
    obtain ⟨⟨document, hdocument, hparse⟩, hlist, hothers⟩ := hdraft.onRecord
    refine ⟨⟨document, ?_, hparse⟩, ?_, fun path hpath hnot => ?_⟩
    · exact (hsame _ (.inl rfl)).trans hdocument
    · exact (hsame _ (.inr (.inl rfl))).trans hlist
    · exact (hsame _ (.inr (.inr ⟨hpath, hnot⟩))).trans (hothers path hpath hnot)
  exact World.wp_mono (Ports.wp_spares hspares) (fun _ h => h) hkeep (fun _ => hkeep)

lemma moveTree_onRecord
    (hclear : ∀ r ∈ L.files c (config.stagingFor item.id), config.Outside (join destination r)) :
    Untouched config c ((Ports.world L).exec (moveTree J config watched item preserve (config.stagingFor item.id)
        destination) fates c).state ∨
      ∃ plan c₁, ((Ports.world L).exec (beginMerge J config item preserve (config.stagingFor item.id) destination)
          fates c).outcome = some (.ok plan) ∧ Drafted false L J config item preserve destination c plan c₁ ∧
        OnRecord J config destination plan c ((Ports.world L).exec (moveTree J config watched item preserve
          (config.stagingFor item.id) destination) fates c).state := by
  have hwp : (Ports.world L).wp (· ∈ ((Ports.world L).exec (beginMerge J config item preserve
      (config.stagingFor item.id) destination) fates c).log) (Untouched config c) (beginMerge J config item preserve
      (config.stagingFor item.id) destination) (Opened false L J config item preserve destination c) c :=
    wp_openMerge (fun _ h => h)
  have hopened := World.exec_ends hwp (fun _ hev => hev)
  rw [moveTree, World.exec_bind]
  generalize (Ports.world L).exec (beginMerge J config item preserve (config.stagingFor item.id) destination) fates c =
    first at hopened ⊢
  unfold Trace.Ends at hopened
  cases hfirst : first.outcome with
  | none =>
    rw [hfirst] at hopened
    exact .inl hopened
  | some begun =>
    rw [hfirst] at hopened
    cases begun with
    | error out => exact .inl hopened.1
    | ok plan =>
      refine .inr ⟨plan, first.state, rfl, hopened, ?_⟩
      dsimp only
      have hloop : (Ports.world L).wp (fun _ => True) (OnRecord J config destination plan c)
          (mergeLoop watched plan.marker plan.toWrite.length 0 plan.toWrite {} >>= fun out =>
            pure (.ok (plan, out.1, out.2) : Except InstallOutcome _))
          (fun _ => OnRecord J config destination plan c) first.state := by
        rw [World.wp_bind]
        exact wp_mergeLoop_onRecord hopened (apart_of_outside (fun r hr => hclear r (hopened.staged.subset hr))) _ _
      exact World.exec_invariant (World.wp_mono hloop (fun _ _ => trivial) (fun _ h => h) (fun _ _ h => h))

end OnRecord

namespace Sample

def fetching (files : List (Bytes × Bytes)) : List PortFate :=
  List.replicate 7 .ok ++ .served [0] :: .ok :: .archived (files.map (fun f => ⟨f.1, 1, f.2⟩)) ::
    List.replicate (2 * files.length) .ok

def firstMove : List PortFate := fetching [(ascii "n", [5])] ++ List.replicate 7 .ok

def firstPlan : MergePlan := ⟨plan.marker, [ascii "n"], 0⟩

end Sample

theorem changes_are_recorded_first (L : Listing) (J : JsonLibrary) (config : CfwInstallConfig) (watched : Bool)
    (item : CatalogItem) (preserve : PreserveRules) (fates : List PortFate) (c : Card) (path : Bytes)
    (hid : isValidId item.id = true)
    (hclear : ∀ r ∈ L.files (fetched L config watched item fates c).state (config.stagingFor item.id),
      config.Outside (join (config.resolve item.target) r))
    (hnames : ∀ ev ∈ (fetched L config watched item fates c).log, ∀ r, byte '\n' ∈ r →
      ev.asked = .unlink (config.stagingFor item.id ++ ascii "/" ++ r) → ev.fate.failing = false)
    (hplan : ∀ plan, (begun L J config watched item preserve fates c).outcome = some (.ok plan) →
      (planText plan.toWrite).length ≤ 8 * 1024 * 1024)
    (hpath : config.Outside path)
    (hdiffers : (moved L J config watched item preserve fates c).state.lookup path ≠ c.lookup path) :
    let c' := (moved L J config watched item preserve fates c).state
    ∃ plan, (begun L J config watched item preserve fates c).outcome = some (.ok plan) ∧
      (∃ document, c'.lookup config.markerPath = some document ∧ parseMergeMarker J document = .ok plan.marker) ∧
      plan.marker.stagingDir = config.stagingFor item.id ∧
      plan.marker.destinationRoot = config.resolve item.target ∧
      plan.marker.backupDir = config.backupFor item.id ∧
      (Ports.world L).run .ok (readPlannedFiles config) c' = (some plan.toWrite, c') ∧
      (∀ r ∈ plan.toWrite, ¬((rulesFor item preserve).preserves r = true ∧
        c.has (join (config.resolve item.target) r) = true)) ∧
      path ∈ plan.toWrite.map (join (config.resolve item.target)) := by
  have huntouched : Untouched config c (fetched L config watched item fates c).state := fetchTree_untouched hid
  rcases @moved_cases L J config watched item preserve fates c hid with hsame | ⟨hfetched, hstate⟩
  · exact absurd (hsame path hpath) hdiffers
  have hcleared := World.exec_post hfetched (wp_fetchTree hid) rfl
  rw [hstate] at hdiffers ⊢
  rcases moveTree_onRecord hclear with hsame | ⟨plan, c₁, hbegun, hdraft, hrecord⟩
  · exact absurd ((huntouched.trans hsame) path hpath) hdiffers
  have hplain : ∀ r ∈ plan.toWrite, r ≠ [] ∧ byte '\n' ∉ r := by
    intro r hr
    obtain ⟨hne, hhas⟩ := (L.complete _ _ _).mp (hdraft.staged.subset hr)
    refine ⟨hne, fun hnewline => ?_⟩
    have hgone := hcleared (config.stagingFor item.id ++ ascii "/" ++ r) ⟨fun hev => ?_, r, hne, .inr ⟨rfl, hnewline⟩⟩
    · rw [Card.has, fetched, hgone] at hhas
      cases hhas
    · exact Bool.noConfusion (hnames _ hev r hnewline rfl)
  obtain ⟨now, hmarker⟩ := hdraft.marker
  refine ⟨plan, hbegun, hrecord.marker, by rw [hmarker]; rfl, by rw [hmarker]; rfl, by rw [hmarker]; rfl, ?_, ?_, ?_⟩
  · rw [readPlannedFiles, Ports.run_readText, hrecord.list,
      Option.filter_some_pos (by simpa using hplan plan hbegun)]
    dsimp only
    rw [plannedIn_planText hplain]
    rfl
  · rintro r hr ⟨hpreserved, hpresent⟩
    have hout := hclear r (hdraft.staged.subset hr)
    rw [hdraft.toWrite rfl, toWrite, List.mem_filter, hpreserved, Card.has, huntouched _ hout, ← Card.has, hpresent] at hr
    exact absurd hr.2 (by decide)
  · by_contra hnot
    exact hdiffers ((hrecord.others path hpath hnot).trans (huntouched path hpath))

theorem first_move_is_recorded :
    let c' := (moved .stored JsonCodec.library Sample.config false Sample.item Sample.rules Sample.firstMove ∅).state
    ∃ plan : MergePlan, (∃ document, c'.lookup Sample.config.markerPath = some document ∧
        parseMergeMarker JsonCodec.library document = .ok plan.marker) ∧
      (Ports.world .stored).run .ok (readPlannedFiles Sample.config) c' = (some plan.toWrite, c') ∧
      ascii "/d/n" ∈ plan.toWrite.map (join (ascii "/d")) := by
  have hfine : ∀ ev ∈ (fetched .stored Sample.config false Sample.item Sample.firstMove ∅).log,
      ev.fate.failing = false := by decide +kernel
  have hbegun : (begun .stored JsonCodec.library Sample.config false Sample.item Sample.rules Sample.firstMove
      ∅).outcome = some (.ok Sample.firstPlan) := by decide +kernel
  obtain ⟨plan, _, hmarker, _, _, _, hlist, _, hpath⟩ := changes_are_recorded_first .stored JsonCodec.library
    Sample.config false Sample.item Sample.rules Sample.firstMove ∅ (ascii "/d/n") (by decide) (by decide +kernel)
    (fun ev hev _ _ _ => hfine ev hev)
    (fun plan hplan => by
      obtain rfl : Sample.firstPlan = plan := Except.ok.inj (Option.some.inj (hbegun.symm.trans hplan))
      decide)
    (by decide) (by decide +kernel)
  exact ⟨plan, hmarker, hlist, hpath⟩

end NsxManager.Cfw
