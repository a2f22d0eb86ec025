import NsxManager.Cfw.Merge

/-! Everything an installation does before its first move stays below the staging root. -/

namespace NsxManager.Cfw

open NsxManager.Core Lib Infra

def Untouched (config : CfwInstallConfig) (c c' : Card) : Prop :=
  ∀ path, config.Outside path → c'.lookup path = c.lookup path

section Untouched

variable {config : CfwInstallConfig} {c c' : Card} {path : Bytes}

lemma not_outside (config : CfwInstallConfig) (inner : Bytes) :
    ¬config.Outside (config.stagingRoot ++ ascii "/" ++ inner) :=
  not_not.mpr (List.prefix_append _ _)

lemma Untouched.refl (config : CfwInstallConfig) (c : Card) : Untouched config c c := fun _ _ => rfl

lemma Untouched.trans {c'' : Card} (h : Untouched config c c') (h' : Untouched config c' c'') :
    Untouched config c c'' :=
  fun p hp => (h' p hp).trans (h p hp)

lemma Untouched.erase (h : Untouched config c c') (hpath : ¬config.Outside path) :
    Untouched config c (c'.erase path) := by
  intro p hp
  rw [Card.lookup_erase_eq, if_neg (by rintro rfl; exact hpath hp), h p hp]

lemma Untouched.insert (h : Untouched config c c') (hpath : ¬config.Outside path) (bytes : Bytes) :
    Untouched config c (c'.insert path bytes) := by
  intro p hp
  rw [Card.lookup_insert_eq, if_neg (by rintro rfl; exact hpath hp), h p hp]

lemma inside_staging (config : CfwInstallConfig) (id rest : Bytes) :
    ¬config.Outside (config.stagingFor id ++ rest) := by
  rw [CfwInstallConfig.stagingFor, List.append_assoc]
  exact not_outside _ _

lemma inside_backup (config : CfwInstallConfig) (id rest : Bytes) :
    ¬config.Outside (config.backupFor id ++ rest) := by
  rw [CfwInstallConfig.backupFor, List.append_assoc, List.append_assoc]
  exact not_outside _ _

lemma inside_archive (config : CfwInstallConfig) (id rest : Bytes) :
    ¬config.Outside (config.archiveFor id ++ rest) := by
  rw [CfwInstallConfig.archiveFor, List.append_assoc, List.append_assoc]
  exact not_outside _ _

lemma inside_list (config : CfwInstallConfig) (rest : Bytes) :
    ¬config.Outside (config.mergeFileListPath ++ rest) := by
  have hname : ascii "/merge.files" = ascii "/" ++ ascii "merge.files" := by decide
  rw [CfwInstallConfig.mergeFileListPath, hname, ← List.append_assoc, List.append_assoc]
  exact not_outside _ _

lemma inside_marker (config : CfwInstallConfig) (rest : Bytes) :
    ¬config.Outside (config.markerPath ++ rest) := by
  have hname : ascii "/merge.json" = ascii "/" ++ ascii "merge.json" := by decide
  rw [CfwInstallConfig.markerPath, hname, ← List.append_assoc, List.append_assoc]
  exact not_outside _ _

lemma apart_of_outside {id destination : Bytes} {names : List Bytes}
    (h : ∀ r ∈ names, config.Outside (join destination r)) : config.Apart id destination names := by
  rintro r hr (⟨inner, heq⟩ | ⟨inner, heq⟩ | hmem)
  · refine absurd (h r hr) ?_
    rw [heq, List.append_assoc]
    exact inside_staging config id _
  · refine absurd (h r hr) ?_
    rw [heq, List.append_assoc]
    exact inside_backup config id _
  · have hinside : ∀ path ∈ [config.archiveFor id, config.mergeFileListPath, config.mergeFileListPath ++ ascii ".tmp",
        config.markerPath, config.markerPath ++ ascii ".tmp"], ¬config.Outside path := by
      have harchive := inside_archive config id []
      have hlist := inside_list config []
      have hmarker := inside_marker config []
      rw [List.append_nil] at harchive hlist hmarker
      simp only [List.forall_mem_cons]
      exact ⟨harchive, hlist, inside_list config _, hmarker, inside_marker config _, by simp⟩
    exact hinside _ hmem (h r hr)

end Untouched

def toWrite (preserve : PreserveRules) (destination : Bytes) (c : Card) (staged : List Bytes) : List Bytes :=
  staged.filter (fun r => !(preserve.preserves r && c.has (join destination r)))

structure Merge.Begins (M : Merge) (J : JsonLibrary) (config : CfwInstallConfig) (item : CatalogItem)
    (destination : Bytes) (c : Card) (plan : MergePlan) : Prop where
  config : M.config = config
  id : M.id = item.id
  destination : M.destination = destination
  marker : M.marker = plan.marker
  names : M.names = plan.toWrite
  before : M.before = c.lookup
  package : ∀ r ∈ M.names, c.lookup (M.name (.staged r)) = some (M.package r)
  document : serializeMergeMarker J M.marker = some M.document
  accepted : M.marker.Accepted

section Begin

variable {blind : Bool} {L : Listing} {J : JsonLibrary} {config : CfwInstallConfig} {item : CatalogItem}
  {preserve : PreserveRules} {destination : Bytes} {α : Type}
  {A : Event PortOp PortOp.Reply PortFate → Prop} {C : Card → Prop} {c c' : Card}

lemma asks_discardStaging (config : CfwInstallConfig) (id : Bytes) :
    (discardStaging config id).Asks (PortOp.Spares config.Outside) := by
  have hremove : ∀ rest, (PortOp.remove (config.archiveFor id ++ rest)).Spares config.Outside := by
    intro rest p hp
    rw [List.mem_singleton.mp hp]
    exact inside_archive config id rest
  have harchive := hremove []
  rw [List.append_nil] at harchive
  refine (Ports.asks_removeTree (fun _ hp => nomatch hp) (fun r p hp => ?_)).bind
    (fun _ => ⟨hremove _, fun _ => ⟨harchive, fun _ => trivial⟩⟩)
  rw [List.mem_singleton.mp hp, List.append_assoc]
  exact inside_staging config id _

lemma wp_discardStaging {k : Unit → PortProgram α} {Q : α → Card → Prop} (h : Untouched config c c')
    (hC : ∀ c', Untouched config c c' → C c')
    (hk : ∀ c', Untouched config c c' → (Ports.worldOf blind L).wp A C (k ()) Q c') :
    (Ports.worldOf blind L).wp A C (discardStaging config item.id >>= k) Q c' := by
  rw [World.wp_bind]
  refine World.wp_mono (Ports.wp_spares (asks_discardStaging config item.id)) (fun _ h => h) ?_ ?_
  · exact fun c'' hspared => hC c'' (h.trans hspared)
  · exact fun _ c'' hspared => hk c'' (h.trans hspared)

lemma wp_planFiles {k : List Bytes × ℕ → PortProgram α} {Q : α → Card → Prop} (hC : C c) (staged : List Bytes)
    (hk : ∀ chosen n, chosen.Sublist staged → (blind = false → chosen = toWrite preserve destination c staged) →
      (Ports.worldOf blind L).wp A C (k (chosen, n)) Q c) :
    (Ports.worldOf blind L).wp A C (planFiles preserve destination staged >>= k) Q c := by
  induction staged generalizing k with
  | nil => exact hk [] 0 (.refl _) (fun _ => rfl)
  | cons r rest ih =>
    have hrest : ∀ kept, (blind = false → kept = (preserve.preserves r && c.has (join destination r))) →
        (Ports.worldOf blind L).wp A C ((planFiles preserve destination rest >>= fun out =>
          if kept then pure (out.1, out.2 + 1) else pure (r :: out.1, out.2)) >>= k) Q c := by
      intro kept hkept
      rw [Program.bind_assoc]
      refine ih (fun chosen n hsub hall => ?_)
      cases kept with
      | true =>
        refine hk chosen (n + 1) (hsub.cons r) (fun hseen => ?_)
        rw [toWrite, List.filter_cons_of_neg (by simp [← hkept hseen])]
        exact hall hseen
      | false =>
        refine hk (r :: chosen) n (hsub.cons_cons r) (fun hseen => ?_)
        rw [toWrite, List.filter_cons_of_pos (by simp [← hkept hseen])]
        exact congrArg (List.cons r) (hall hseen)
    cases hp : preserve.preserves r with
    | true =>
      rw [planFiles, if_pos hp, Program.bind_assoc]
      refine Ports.wp_look hC (fun seen hseen => hrest seen (fun hsure => ?_))
      rw [hp, Bool.true_and]
      exact hseen.resolve_right (by simp [hsure])
    | false =>
      rw [planFiles, if_neg (by simp [hp])]
      exact hrest false (fun _ => by rw [hp, Bool.false_and])

lemma wp_giveUp {n : ℕ} {result : InstallResult} {detail : Bytes}
    {Q : Except InstallOutcome MergePlan → Card → Prop} (h : Untouched config c c')
    (hC : ∀ c', Untouched config c c' → C c')
    (hQ : ∀ out c', out.result = result → Untouched config c c' → Q (.error out) c') :
    (Ports.worldOf blind L).wp A C (giveUp config item n result detail) Q c' :=
  wp_discardStaging h hC (fun c'' h' => hQ _ c'' rfl h')

def recordedOn (config : CfwInstallConfig) (toWrite : List Bytes) (document : Bytes) (c : Card) : Card :=
  (((c.erase (config.mergeFileListPath ++ ascii ".tmp")).insert config.mergeFileListPath (planText toWrite)).erase
    (config.markerPath ++ ascii ".tmp")).insert config.markerPath document

structure Drafted (blind : Bool) (L : Listing) (J : JsonLibrary) (config : CfwInstallConfig) (item : CatalogItem)
    (preserve : PreserveRules) (destination : Bytes) (c : Card) (plan : MergePlan) (c' : Card) : Prop where
  marker : ∃ now, plan.marker = draftMarker config item (config.stagingFor item.id) destination now
  staged : plan.toWrite.Sublist (L.files c (config.stagingFor item.id))
  toWrite : blind = false →
    plan.toWrite = toWrite preserve destination c (L.files c (config.stagingFor item.id))
  accepted : plan.marker.Accepted
  recorded : ∃ document, serializeMergeMarker J plan.marker = some document ∧
    c' = recordedOn config plan.toWrite document c

def Opened (blind : Bool) (L : Listing) (J : JsonLibrary) (config : CfwInstallConfig) (item : CatalogItem)
    (preserve : PreserveRules) (destination : Bytes) (c : Card) : Except InstallOutcome MergePlan → Card → Prop
  | .error out, c' => Untouched config c c' ∧ (out.result = .extractFailed ∨ out.result = .mergeFailed)
  | .ok plan, c' => Drafted blind L J config item preserve destination c plan c'

lemma wp_record {plan : MergePlan} {document : Bytes} {now : Int64} {m : MergeMarker}
    (hC : ∀ c', Untouched config c c' → C c')
    (hmarker : plan.marker = draftMarker config item (config.stagingFor item.id) destination now)
    (hstaged : plan.toWrite.Sublist (L.files c (config.stagingFor item.id)))
    (hplan : blind = false → plan.toWrite = toWrite preserve destination c (L.files c (config.stagingFor item.id)))
    (hdocument : serializeMergeMarker J plan.marker = some document)
    (hparse : parseMergeMarker J document = .ok m) :
    (Ports.worldOf blind L).wp A C (record config item plan document)
      (Opened blind L J config item preserve destination c) c := by
  obtain ⟨haccepted, _⟩ := parseMergeMarker_readBack (by rw [hmarker]; rfl) hdocument hparse
  have hlist : ¬config.Outside config.mergeFileListPath := by
    have h := inside_list config []
    rwa [List.append_nil] at h
  have hrefl := Untouched.refl config c
  have hwritten := (hrefl.erase (inside_list config (ascii ".tmp"))).insert hlist (planText plan.toWrite)
  have hgiveUp : ∀ {n : ℕ} {detail : Bytes} {c'}, Untouched config c c' →
      (Ports.worldOf blind L).wp A C (giveUp config item n .mergeFailed detail)
        (Opened blind L J config item preserve destination c) c' :=
    fun h => wp_giveUp h hC (fun out c' hout h' => ⟨h', .inr hout⟩)
  refine Ports.wp_writeAtomic (hC c hrefl) (fun _ => hgiveUp hrefl) ?_
  refine Ports.wp_writeAtomic (hC _ hwritten) (fun _ => ?_) ?_
  · exact Ports.wp_remove (hC _ hwritten) (fun _ => hgiveUp hwritten) (hgiveUp (hwritten.erase hlist))
  · exact ⟨⟨now, hmarker⟩, hstaged, hplan, haccepted, document, hdocument, rfl⟩

lemma wp_openMerge (hC : ∀ c', Untouched config c c' → C c') :
    (Ports.worldOf blind L).wp A C (beginMerge J config item preserve (config.stagingFor item.id) destination)
      (Opened blind L J config item preserve destination c) c := by
  have hrefl := Untouched.refl config c
  rw [beginMerge]
  refine Ports.wp_names (hC c hrefl) (fun staged hstaged hall => ?_)
  split
  · exact wp_giveUp hrefl hC (fun out c' hout h => ⟨h, .inl hout⟩)
  refine Ports.wp_nowUnix (hC c hrefl) (fun now => ?_)
  generalize hmarker : draftMarker config item (config.stagingFor item.id) destination now = marker
  cases hdocument : serializeMergeMarker J marker with
  | none =>
    simp only [hdocument]
    exact Ports.wp_abort (hC c hrefl)
  | some document =>
    cases hparse : parseMergeMarker J document with
    | error stop =>
      cases stop with
      | rejected error =>
        simp only [hdocument, hparse]
        exact wp_giveUp hrefl hC (fun out c' hout h => ⟨h, .inr hout⟩)
      | fault =>
        simp only [hdocument, hparse]
        exact Ports.wp_abort (hC c hrefl)
    | ok m =>
      simp only [hdocument, hparse]
      refine wp_planFiles (hC c hrefl) _ (fun chosen n hchosen hplan => ?_)
      exact wp_record hC hmarker.symm (hchosen.trans hstaged) (fun hseen => hall hseen ▸ hplan hseen) hdocument hparse

lemma Drafted.nodup {plan : MergePlan} (h : Drafted blind L J config item preserve destination c plan c') :
    plan.toWrite.Nodup :=
  (L.nodup _ _).sublist h.staged

lemma Merge.shows_recorded (M : Merge) (c : Card) (hbefore : M.before = c.lookup)
    (hbackup : ∀ r, r ≠ [] → c.lookup (M.name (.kept r)) = none) (text : Bytes) :
    M.Shows ⟨M.slot c, some M.document, some text⟩
      (((((c.erase (M.name (.leaf .listTemporary))).insert (M.name (.leaf .list)) text).erase
        (M.name (.leaf .markerTemporary))).insert (M.name (.leaf .marker)) M.document)) := by
  have hclear : ∀ path, M.Clear path → (((((c.erase (M.name (.leaf .listTemporary))).insert
      (M.name (.leaf .list)) text).erase (M.name (.leaf .markerTemporary))).insert (M.name (.leaf .marker))
      M.document)).lookup path = c.lookup path := by
    intro path hpath
    rw [Workspace.lookup_clear_insert hpath, Workspace.lookup_clear_erase hpath,
      Workspace.lookup_clear_insert hpath, Workspace.lookup_clear_erase hpath]
  refine ⟨fun r hr => ?_, fun r _ hne => ?_, fun path hpath _ => ?_, ?_, ?_⟩
  · change M.slot _ r = M.slot c r
    rw [Workspace.slot, Workspace.slot, hclear _ (M.clear r hr)]
    simp [Workspace.lookup_name_insert, Workspace.lookup_name_erase]
  · simpa [Workspace.lookup_name_insert, Workspace.lookup_name_erase] using hbackup r hne
  · rw [hclear path hpath, hbefore]
  · simp
  · simp [Workspace.lookup_name_insert, Workspace.lookup_name_erase]

def Begun (L : Listing) (J : JsonLibrary) (config : CfwInstallConfig) (item : CatalogItem)
    (preserve : PreserveRules) (destination : Bytes) (c : Card) : Except InstallOutcome MergePlan → Card → Prop
  | .error out, c' => Untouched config c c' ∧ (out.result = .extractFailed ∨ out.result = .mergeFailed)
  | .ok plan, c' => ∃ (M : Merge) (d : Desk), M.Begins J config item destination c plan ∧ M.Shows d c' ∧ M.Ahead M.names d ∧
    plan.toWrite = toWrite preserve destination c (L.files c (config.stagingFor item.id))

lemma Drafted.begun {plan : MergePlan} (h : Drafted false L J config item preserve destination c plan c')
    (hclear : ∀ r ∈ L.files c (config.stagingFor item.id), config.Outside (join destination r))
    (hbackup : ∀ r, r ≠ [] → c.lookup (config.backupFor item.id ++ ascii "/" ++ r) = none) :
    Begun L J config item preserve destination c (.ok plan) c' := by
  obtain ⟨now, hmarker⟩ := h.marker
  obtain ⟨document, hdocument, rfl⟩ := h.recorded
  have hstaged : ∀ r ∈ plan.toWrite, r ≠ [] ∧ c.has (config.stagingFor item.id ++ ascii "/" ++ r) = true :=
    fun r hr => (L.complete _ _ _).mp (h.staged.subset hr)
  let w : Workspace := ⟨config, item.id, destination, by have hid := h.accepted.itemId; rwa [hmarker] at hid⟩
  let M : Merge :=
    { w with
      marker := plan.marker, document := document, names := plan.toWrite, before := c.lookup,
      package := fun r => (c.lookup (w.name (.staged r))).getD [],
      stagingDir := by rw [hmarker]; rfl, backupDir := by rw [hmarker]; rfl,
      destinationRoot := by rw [hmarker]; rfl, itemId := by rw [hmarker]; rfl,
      nodup := h.nodup, nonempty := fun r hr => (hstaged r hr).1,
      clear := fun r hr => w.clear_of_outside (hclear r (h.staged.subset hr)) }
  have hpackage : ∀ r ∈ M.names, c.lookup (M.name (.staged r)) = some (M.package r) := by
    intro r hr
    obtain ⟨b, hb⟩ := (c.has_eq_true _).mp (hstaged r hr).2
    change c.lookup (w.name (.staged r)) = some b at hb
    change c.lookup (w.name (.staged r)) = some ((c.lookup (w.name (.staged r))).getD [])
    rw [hb, Option.getD_some]
  refine ⟨M, _, ⟨rfl, rfl, rfl, rfl, rfl, rfl, hpackage, hdocument, h.accepted⟩,
    M.shows_recorded c rfl hbackup (planText plan.toWrite), ⟨fun r hr => ⟨hr, ?_⟩, fun r hr hnot =>
    absurd hr hnot, rfl, rfl⟩, h.toWrite rfl⟩
  change M.slot c r = _
  rw [Workspace.slot, hpackage r hr, show c.lookup (M.name (.kept r)) = none from hbackup r (M.nonempty r hr)]
  rfl

lemma wp_beginMerge (hC : ∀ c', Untouched config c c' → C c')
    (hclear : ∀ r ∈ L.files c (config.stagingFor item.id), config.Outside (join destination r))
    (hbackup : ∀ r, r ≠ [] → c.lookup (config.backupFor item.id ++ ascii "/" ++ r) = none) :
    (Ports.world L).wp A C (beginMerge J config item preserve (config.stagingFor item.id) destination)
      (Begun L J config item preserve destination c) c := by
  refine World.wp_post (wp_openMerge hC) ?_
  intro begun c' h
  cases begun with
  | error out => exact h
  | ok plan => exact Drafted.begun h hclear hbackup

end Begin

end NsxManager.Cfw
