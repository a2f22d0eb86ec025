import NsxManager.Catalog.Items
import NsxManager.Cfw.Workspace

/-! The files two items of a catalogue work with, and which ids make them meet. -/

namespace NsxManager.Catalog

open NsxManager.Core Cfw

section Accepted

variable {entry : Members} {kind : ContentKind} {target : InstallTarget}

lemma isValidId_of_itemFields {out : Document} :
    ∀ item, itemFields out entry kind target = .ok item → isValidId item.id = true := by
  rw [itemFields]
  refine Parse.of_bind_eq_ok (fun _ => Parse.of_bind_eq_ok (fun id => Parse.of_bind_eq_ok (fun name => ?_)))
  refine Parse.of_bind_eq_ok (fun url => Parse.of_bind_eq_ok (fun hex => Parse.of_need_bind_eq_ok (fun hvalid => ?_)))
  refine Parse.of_bind_eq_ok (fun _ => Parse.of_bind_eq_ok (fun _ => Parse.of_bind_eq_ok (fun size => ?_)))
  refine Parse.of_bind_eq_ok (fun sha256 => Parse.of_bind_eq_ok (fun summary => ?_))
  refine Parse.of_bind_eq_ok (fun version => Parse.of_bind_eq_ok (fun minAtmosphere => ?_))
  refine Parse.of_bind_eq_ok (fun notesUrl => Parse.of_bind_eq_ok (fun _ => ?_))
  refine Parse.of_bind_eq_ok (fun honoured item hitem => ?_)
  rw [← Except.ok.inj hitem]
  exact hvalid

lemma isValidId_of_mem_soleItems {v : Json} {item : Item} (h : item ∈ soleItems v) : isValidId item.id = true := by
  rcases soleItems_cases v with hnone | ⟨_, _, _, read, hone, hread⟩
  · rw [hnone] at h
    exact absurd h List.not_mem_nil
  · rw [hone] at h
    rw [List.mem_singleton.mp h]
    exact isValidId_of_itemFields _ hread

lemma items_of_catalogItems {out out' : Document} {listed : Json} (hout : out.items = [])
    (h : catalogItems out listed = .ok out') : ∃ entries : List Json, out'.items = entries.flatMap soleItems := by
  cases listed with
  | array entries =>
    have hnodup : (out.items.map (·.id)).Nodup := by
      rw [hout]
      exact List.nodup_nil
    obtain ⟨-, -, rfl⟩ := (foldlM_parseItem_eq_ok_iff entries hnodup).mp h
    exact ⟨entries, by rw [hout, List.nil_append]⟩
  | _ => exact absurd h (by simp [catalogItems])

lemma items_of_readCatalog {doc : Members} :
    ∀ out, readCatalog doc = .ok out → ∃ entries : List Json, out.items = entries.flatMap soleItems := by
  rw [readCatalog]
  refine Parse.of_bind_eq_ok (fun _ => Parse.of_bind_eq_ok (fun schema => Parse.of_bind_eq_ok (fun _ => ?_)))
  refine Parse.of_bind_eq_ok (fun _ => Parse.of_bind_eq_ok (fun updatedAt => Parse.of_bind_eq_ok (fun _ => ?_)))
  refine Parse.of_bind_eq_ok (fun listed out hout => ?_)
  simp only [Parse.bind_eq_ok, Parse.pure_eq, Except.ok.injEq] at hout
  obtain ⟨_, hitems, _, -, rfl⟩ := hout
  exact items_of_catalogItems rfl hitems

def Accepted (J : JsonLibrary) (id : Bytes) : Prop :=
  ∃ json out, parseCatalog J json = .ok out ∧ id ∈ out.items.map (·.id)

lemma Accepted.isValidId {J : JsonLibrary} {id : Bytes} (h : Accepted J id) : isValidId id = true := by
  obtain ⟨json, out, hout, hid⟩ := h
  rw [parseCatalog] at hout
  split at hout
  · exact absurd hout (by simp)
  · obtain ⟨entries, hitems⟩ := items_of_readCatalog _ hout
    obtain ⟨item, hitem, rfl⟩ := List.mem_map.mp hid
    rw [hitems] at hitem
    obtain ⟨v, -, hv⟩ := List.mem_flatMap.mp hitem
    exact isValidId_of_mem_soleItems hv
  · exact absurd hout (by simp)

end Accepted

def endings : List Bytes := [[], ascii ".zip", ascii ".zip.part", ascii ".backup"]

def mergeNames : List Bytes :=
  [ascii "merge.json", ascii "merge.json.tmp", ascii "merge.files", ascii "merge.files.tmp"]

def workingPaths (config : CfwInstallConfig) (id other : Bytes) : List Bytes :=
  [config.stagingFor id, config.archiveFor id, config.archiveFor id ++ ascii ".part", config.backupFor id,
    config.stagingFor other, config.archiveFor other, config.archiveFor other ++ ascii ".part", config.backupFor other,
    config.markerPath, config.markerPath ++ ascii ".tmp", config.mergeFileListPath,
    config.mergeFileListPath ++ ascii ".tmp"]

def Separate (path other : Bytes) : Prop :=
  path ≠ other ∧ ¬path ++ ascii "/" <+: other ∧ ¬other ++ ascii "/" <+: path

def Confusable (id other : Bytes) : Prop :=
  id ∈ mergeNames ∨ other ∈ mergeNames ∨
    ∃ ending ∈ endings, ending ≠ [] ∧ (id = other ++ ending ∨ other = id ++ ending)

section Names

variable {id other : Bytes}

def workingNames (id other : Bytes) : List Bytes :=
  endings.map (id ++ ·) ++ (endings.map (other ++ ·) ++ mergeNames)

lemma workingPaths_eq (config : CfwInstallConfig) (id other : Bytes) :
    workingPaths config id other = (workingNames id other).map (config.stagingRoot ++ ascii "/" ++ ·) := by
  simp only [workingPaths, workingNames, endings, mergeNames, List.map_cons, List.map_nil, List.cons_append,
    List.nil_append, CfwInstallConfig.stagingFor, CfwInstallConfig.archiveFor, CfwInstallConfig.backupFor,
    CfwInstallConfig.markerPath, CfwInstallConfig.mergeFileListPath, List.append_assoc, List.append_nil]
  rfl

lemma slash_not_mem (h : isValidId id = true) : byte '/' ∉ id :=
  Workspace.slash_not_mem_id ⟨{}, id, [], h⟩

lemma slash_not_mem_workingNames (hid : isValidId id = true) (hother : isValidId other = true) {name : Bytes}
    (h : name ∈ workingNames id other) : byte '/' ∉ name := by
  have hending : ∀ ending ∈ endings, byte '/' ∉ ending := by decide
  have hmerge : ∀ name ∈ mergeNames, byte '/' ∉ name := by decide
  simp only [workingNames, List.mem_append, List.mem_map] at h
  rcases h with ⟨ending, hmem, rfl⟩ | ⟨ending, hmem, rfl⟩ | hmem
  · exact fun hslash => (List.mem_append.mp hslash).elim (slash_not_mem hid) (hending ending hmem)
  · exact fun hslash => (List.mem_append.mp hslash).elim (slash_not_mem hother) (hending ending hmem)
  · exact hmerge name hmem

lemma pairwise_separate_iff (config : CfwInstallConfig) (hid : isValidId id = true) (hother : isValidId other = true) :
    (workingPaths config id other).Pairwise Separate ↔ (workingNames id other).Nodup := by
  rw [workingPaths_eq, List.pairwise_map, List.Nodup]
  refine List.Pairwise.iff_of_mem (fun {name name'} hname hname' => ?_)
  have hapart : ∀ {name name' : Bytes}, byte '/' ∉ name' →
      ¬config.stagingRoot ++ ascii "/" ++ name ++ ascii "/" <+: config.stagingRoot ++ ascii "/" ++ name' := by
    intro name name' hslash hheld
    rw [List.append_assoc, List.prefix_append_right_inj] at hheld
    exact hslash (hheld.subset (List.mem_append_right _ (by decide)))
  rw [Separate, ne_eq, ne_eq, List.append_right_inj]
  exact and_iff_left ⟨hapart (slash_not_mem_workingNames hid hother hname'),
    hapart (slash_not_mem_workingNames hid hother hname)⟩

lemma nodup_ended (id : Bytes) : (endings.map (id ++ ·)).Nodup :=
  List.Nodup.map (fun _ _ h => List.append_cancel_left h) (by decide)

lemma ended_eq_iff (hne : id ≠ other) {ending ending' : Bytes} (h : ending ∈ endings) (h' : ending' ∈ endings) :
    id ++ ending = other ++ ending' ↔
      (ending = [] ∧ ending' ≠ [] ∧ id = other ++ ending') ∨ (ending' = [] ∧ ending ≠ [] ∧ other = id ++ ending) := by
  have hsuffix : ∀ a ∈ endings, ∀ b ∈ endings, a <:+ b → a = [] ∨ a = b := by decide
  constructor
  · intro heq
    have hsame : ending ≠ ending' := by
      rintro rfl
      exact hne (List.append_cancel_right heq)
    rcases List.suffix_or_suffix_of_suffix (List.suffix_append id ending) (heq ▸ List.suffix_append other ending') with
      hle | hle
    · obtain rfl := (hsuffix _ h _ h' hle).resolve_right hsame
      exact .inl ⟨rfl, hsame.symm, by rwa [List.append_nil] at heq⟩
    · obtain rfl := (hsuffix _ h' _ h hle).resolve_right hsame.symm
      exact .inr ⟨rfl, hsame, by rw [List.append_nil] at heq; exact heq.symm⟩
  · rintro (⟨rfl, -, rfl⟩ | ⟨rfl, -, rfl⟩)
    · exact List.append_nil _
    · exact (List.append_nil _).symm

lemma ended_mem_mergeNames_iff {ending : Bytes} (h : ending ∈ endings) :
    id ++ ending ∈ mergeNames ↔ ending = [] ∧ id ∈ mergeNames := by
  have hsuffix : ∀ name ∈ mergeNames, ∀ ending ∈ endings, ending <:+ name → ending = [] := by decide
  constructor
  · intro hmem
    obtain rfl := hsuffix _ hmem _ h (List.suffix_append id ending)
    exact ⟨rfl, by rwa [List.append_nil] at hmem⟩
  · rintro ⟨rfl, hmem⟩
    rwa [List.append_nil]

lemma nodup_workingNames_iff (hne : id ≠ other) : (workingNames id other).Nodup ↔ ¬Confusable id other := by
  have hmerge : mergeNames.Nodup := by decide
  have hnone : [] ∈ endings := by decide
  simp only [workingNames, List.nodup_append', nodup_ended, hmerge, true_and, List.disjoint_append_right]
  simp only [List.disjoint_left, List.forall_mem_map]
  constructor
  · rintro ⟨hother, hids, hid⟩ (hmem | hmem | ⟨ending, hending, hsome, hids' | hids'⟩)
    · exact hid [] hnone (by rwa [List.append_nil])
    · exact hother [] hnone (by rwa [List.append_nil])
    · exact hids [] hnone (List.mem_map.mpr ⟨ending, hending, by rw [List.append_nil, hids']⟩)
    · exact hids ending hending (List.mem_map.mpr ⟨[], hnone, by rw [List.append_nil, hids']⟩)
  · intro hclear
    obtain ⟨hid, hother, hids⟩ : id ∉ mergeNames ∧ other ∉ mergeNames ∧ _ := by
      simpa only [Confusable, not_or] using hclear
    refine ⟨fun ending hending hmem => hother ((ended_mem_mergeNames_iff hending).mp hmem).2, ?_,
      fun ending hending hmem => hid ((ended_mem_mergeNames_iff hending).mp hmem).2⟩
    intro ending hending hmem
    obtain ⟨ending', hending', heq⟩ := List.mem_map.mp hmem
    rcases (ended_eq_iff hne hending hending').mp heq.symm with ⟨-, hsome, hmeet⟩ | ⟨-, hsome, hmeet⟩
    · exact hids ⟨ending', hending', hsome, .inl hmeet⟩
    · exact hids ⟨ending, hending, hsome, .inr hmeet⟩

end Names

theorem distinct_items_keep_apart_iff (J : JsonLibrary) (id other : Bytes) (hid : Accepted J id)
    (hother : Accepted J other) (hne : id ≠ other) :
    (workingPaths {} id other).Pairwise Separate ↔ ¬Confusable id other := by
  rw [pairwise_separate_iff {} hid.isValidId hother.isValidId, nodup_workingNames_iff hne]

lemma accepted_of_ids {J : JsonLibrary} {json : Bytes} {ids : List Bytes}
    (h : (parseCatalog J json).toOption.map (fun out => out.items.map (·.id)) = some ids) :
    ∀ id ∈ ids, Accepted J id := by
  intro id hid
  cases hout : parseCatalog J json with
  | error e => exact absurd (hout ▸ h) (by simp [Except.toOption])
  | ok out =>
    rw [hout] at h
    have hids : out.items.map (·.id) = ids := Option.some.inj h
    exact ⟨json, out, hout, hids ▸ hid⟩

theorem two_plain_ids_keep_apart : (workingPaths {} (ascii "a") (ascii "b")).Pairwise Separate := by
  have hids : (parseCatalog JsonCodec.library (Sample.text (Sample.entryText (ascii "tool") (ascii "a"))
      (Sample.entryText (ascii "tool") (ascii "b")))).toOption.map (fun out => out.items.map (·.id)) =
        some [ascii "a", ascii "b"] := by
    decide +kernel
  have hclear : ¬Confusable (ascii "a") (ascii "b") := by
    unfold Confusable
    decide
  exact (distinct_items_keep_apart_iff JsonCodec.library _ _ (accepted_of_ids hids _ (by simp))
    (accepted_of_ids hids _ (by simp)) (by decide)).mpr hclear

theorem an_id_is_read_as_an_archive :
    Accepted JsonCodec.library (ascii "a") ∧ Accepted JsonCodec.library (ascii "a.zip") ∧
      ({} : CfwInstallConfig).archiveFor (ascii "a") = ({} : CfwInstallConfig).stagingFor (ascii "a.zip") := by
  have hids : (parseCatalog JsonCodec.library (Sample.text (Sample.entryText (ascii "tool") (ascii "a"))
      (Sample.entryText (ascii "tool") (ascii "a.zip")))).toOption.map (fun out => out.items.map (·.id)) =
        some [ascii "a", ascii "a.zip"] := by
    decide +kernel
  exact ⟨accepted_of_ids hids _ (by simp), accepted_of_ids hids _ (by simp), by decide⟩

end NsxManager.Catalog
