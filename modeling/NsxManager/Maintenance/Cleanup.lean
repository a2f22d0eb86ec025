import NsxManager.Cfw.Report

/-! Purging the staging directory, while an installation may be under way in it. -/

namespace NsxManager.Maintenance

open NsxManager.Core Lib Infra Ports Cfw

structure CleanupConfig where
  stagingDir : Bytes := ascii "/config/nsx-manager/staging"
  cacheDir : Bytes := ascii "/config/nsx-manager/cache"
  deriving DecidableEq

structure CleanupReport where
  filesRemoved : ℕ := 0
  success : Bool := true
  detail : Bytes := []
  deriving DecidableEq

/-- The second listing stands for the `stat` of the directory, with which `removeTree` answers whether it is gone: a card
holds files only, so directories that were empty before are not seen. -/
def cleanStaging (config : CleanupConfig) : PortProgram CleanupReport :=
  if config.stagingDir.isEmpty || config.stagingDir = ascii "/" || config.stagingDir = ascii "/config" then
    return { success := false, detail := ascii "refusing to clean an unsafe staging root path" }
  else if config.stagingDir.isPrefixOf config.cacheDir || config.stagingDir = config.cacheDir then
    return { success := false, detail := ascii "staging path conflicts with cache directory" }
  else do
    let files ← listFilesRecursive config.stagingDir
    removeTree config.stagingDir
    let left ← listFilesRecursive config.stagingDir
    if !left.isEmpty then
      return { filesRemoved := files.length, success := false, detail := ascii "failed to remove staging tree" }
    else
      return { filesRemoved := files.length,
               detail := ascii "cleaned " ++ decimal files.length ++ ascii " file(s) from staging" }

section Purge

variable {P : PortOp → Prop} {config : CleanupConfig}

lemma asks_cleanStaging (hlist : P (.listFilesRecursive config.stagingDir))
    (hunlink : ∀ r, P (.unlink (config.stagingDir ++ ascii "/" ++ r))) : (cleanStaging config).Asks P := by
  have hfiles : (listFilesRecursive config.stagingDir).Asks P := ⟨hlist, fun _ => trivial⟩
  unfold cleanStaging
  split
  · trivial
  split
  · trivial
  refine hfiles.bind (fun files => (asks_removeTree hlist hunlink).bind (fun _ => hfiles.bind (fun left => ?_)))
  split <;> trivial

def purged (L : Listing) (config : CleanupConfig) (fates : List PortFate) (c : Card) :
    Trace PortOp PortOp.Reply PortFate Card CleanupReport :=
  (world L).exec (cleanStaging config) fates c

lemma lookup_purged {L : Listing} {fates : List PortFate} {c : Card} (p : Bytes) :
    (purged L config fates c).state.lookup p =
      if Granted (.unlink p) (purged L config fates c).log then none else c.lookup p := by
  have hdeletes : (cleanStaging config).Asks Deletes :=
    asks_cleanStaging (.inl rfl) (fun _ => .inr (.inr ⟨_, rfl⟩))
  have hunlinks : (cleanStaging config).Asks (fun e => e ≠ .remove p) :=
    asks_cleanStaging PortOp.noConfusion (fun _ => PortOp.noConfusion)
  have hnot : ¬Granted (.remove p) (purged L config fates c).log :=
    not_granted_of_asked (fun ev hev => World.asked_of_mem_log _ hunlinks hev) (fun h => h rfl)
  unfold purged at hnot ⊢
  rw [lookup_of_deletes hdeletes fates p]
  simp only [hnot, false_or]

lemma not_granted_purged {L : Listing} {fates : List PortFate} {c : Card} {p : Bytes}
    (hp : ¬config.stagingDir ++ ascii "/" <+: p) : ¬Granted (.unlink p) (purged L config fates c).log := by
  have hbelow : (cleanStaging config).Asks (fun e => e ≠ .unlink p) := by
    refine asks_cleanStaging PortOp.noConfusion (fun r heq => hp ?_)
    exact ⟨r, PortOp.unlink.inj heq⟩
  exact not_granted_of_asked (fun ev hev => World.asked_of_mem_log _ hbelow hev) (fun h => h rfl)

end Purge

/-- Not a file of the application itself. -/
def Foreign (path : Bytes) : Prop := ¬ascii "/config/nsx-manager/" <+: path

instance (path : Bytes) : Decidable (Foreign path) := inferInstanceAs (Decidable (¬_))

lemma Foreign.not_staged {path : Bytes} (h : Foreign path) : ¬({} : CleanupConfig).stagingDir ++ ascii "/" <+: path := by
  refine fun hprefix => h (List.IsPrefix.trans ?_ hprefix)
  decide

section Interrupted

variable {L : Listing} {J : JsonLibrary} {config : CfwInstallConfig} {watched : Bool} {item : CatalogItem}
  {preserve : PreserveRules} {fates : List PortFate} {c c' : Card}

def Held (config : CfwInstallConfig) (id destination : Bytes) (path b : Bytes) (c : Card) : Prop :=
  c.lookup path = some b ∨ ∃ r, path = join destination r ∧
    c.lookup (config.backupFor id ++ ascii "/" ++ r) = some b

lemma held_of_underway {M : Merge} (h : M.Underway c') {path b : Bytes} (hpath : M.Clear path)
    (hb : M.before path = some b) : Held M.config M.id M.destination path b c' := by
  obtain ⟨d, hs, hmerging, _⟩ := h
  by_cases hmem : path ∈ M.names.map M.target
  · obtain ⟨r, hr, rfl⟩ := List.mem_map.mp hmem
    have hslot := hmerging r hr
    rw [← hs.slots r hr, show M.old r = some b from hb] at hslot
    have hkept : (M.slot c' r).kept = some b → Held M.config M.id M.destination (M.target r) b c' :=
      fun hkept => .inr ⟨r, rfl, hkept⟩
    generalize hstate : M.slot c' r = slot at hslot hkept
    cases hslot with
    | untouched => exact .inl (congrArg Slot.live hstate)
    | displaced _ => exact hkept rfl
    | installed => exact hkept rfl
  · exact .inl ((hs.others path hpath hmem).trans hb)

lemma moved_holds (hid : isValidId item.id = true)
    (hclear : ∀ r ∈ L.files (fetched L config watched item fates c).state (config.stagingFor item.id),
      config.Outside (join (config.resolve item.target) r))
    (hcleared : ∀ ev ∈ (fetched L config watched item fates c).log, ∀ r,
      ev.asked = .unlink (config.backupFor item.id ++ ascii "/" ++ r) → ev.fate.failing = false)
    {path b : Bytes} (hpath : config.Outside path) (hb : c.lookup path = some b) :
    Held config item.id (config.resolve item.target) path b (moved L J config watched item preserve fates c).state := by
  have huntouched : Untouched config c (fetched L config watched item fates c).state := fetchTree_untouched hid
  rcases @moved_cases L J config watched item preserve fates c hid with hsame | ⟨hfetched, hstate⟩
  · exact .inl ((hsame path hpath).trans hb)
  have hgone := World.exec_post hfetched (wp_fetchTree hid) rfl
  have hsame : ∀ c', Untouched config (fetched L config watched item fates c).state c' →
      Held config item.id (config.resolve item.target) path b c' :=
    fun c' h => .inl (((huntouched.trans h) path hpath).trans hb)
  have hunderway : ∀ (M : Merge) (plan : MergePlan) c', M.Begins J config item (config.resolve item.target)
      (fetched L config watched item fates c).state plan → M.Underway c' →
      Held config item.id (config.resolve item.target) path b c' := by
    intro M plan c' hbegins h
    have hbefore : M.before path = some b := by
      rw [hbegins.before]
      exact (huntouched path hpath).trans hb
    have hM := held_of_underway h (M.clear_of_outside (hbegins.config ▸ hpath)) hbefore
    rwa [hbegins.config, hbegins.id, hbegins.destination] at hM
  rw [hstate]
  refine World.exec_invariant (World.wp_post (wp_moveTree hsame (fun M plan c' h _ => hunderway M plan c' h) hclear
    (fun r hne => hgone _ ⟨fun hev => ?_, r, hne, .inl rfl⟩)) ?_)
  · exact Bool.noConfusion (hcleared _ hev r rfl)
  · intro result c' h
    cases result with
    | error out => exact hsame c' h.1
    | ok result =>
      obtain ⟨M, hbegins, hended, _⟩ := h
      exact hunderway M _ c' hbegins hended.underway

theorem installation_holds_until_commit (hid : isValidId item.id = true)
    (hclear : ∀ r ∈ L.files (fetched L config watched item fates c).state (config.stagingFor item.id),
      config.Outside (join (config.resolve item.target) r))
    (hcleared : ∀ ev ∈ (fetched L config watched item fates c).log, ∀ r,
      ev.asked = .unlink (config.backupFor item.id ++ ascii "/" ++ r) → ev.fate.failing = false)
    (hcut : (moved L J config watched item preserve fates c).outcome = none) {path b : Bytes}
    (hpath : config.Outside path) (hb : c.lookup path = some b) :
    Held config item.id (config.resolve item.target) path b
      ((world L).exec (install J config watched item preserve) fates c).state := by
  have hstate : ((world L).exec (install J config watched item preserve) fates c).state =
      (moved L J config watched item preserve fates c).state := by
    rw [install_eq, World.exec_bind]
    rw [moved] at hcut ⊢
    rw [hcut]
  rw [hstate]
  exact moved_holds hid hclear hcleared hpath hb

end Interrupted

namespace Sample

open Cfw.Sample

def previous : Card := cardOf [(ascii "/switch/o", [2])]

def asideCut : List PortFate := fetching [(ascii "o", [4])] ++ List.replicate 7 .ok

end Sample

theorem displaced_file_is_held :
    Held {} Cfw.Sample.item.id (({} : CfwInstallConfig).resolve Cfw.Sample.item.target) (ascii "/switch/o") [2]
      ((world .stored).exec (install JsonCodec.library {} false Cfw.Sample.item Cfw.Sample.rules) Sample.asideCut
        Sample.previous).state := by
  have hfates : ∀ fate ∈ Sample.asideCut, fate.failing = false := by decide
  refine installation_holds_until_commit (by decide) (by decide +kernel) (fun ev hev _ _ => ?_) (by decide +kernel)
    (by decide) (by decide)
  exact hfates _ (World.fate_mem_of_mem_log _ hev)

section Refusing

/-- A card that will not let some of its files be deleted, and does everything else it is asked to. -/
def answer (refuses : Bytes → Bool) : PortOp → PortFate
  | .unlink path => if refuses path then .fails else .ok
  | _ => .ok

def refusing (L : Listing) : World PortOp PortOp.Reply (Bytes → Bool) Card :=
  ⟨fun e refuses c => (world L).step e (answer refuses e) c⟩

def purge (L : Listing) (config : CleanupConfig) (refuses : Bytes → Bool) (c : Card) : Option CleanupReport × Card :=
  (refusing L).run refuses (cleanStaging config) c

def deleted (refuses : Bytes → Bool) (c : Card) (path : Bytes) : Card := if refuses path then c else c.erase path

variable {L : Listing} (refuses : Bytes → Bool)

lemma lookup_foldl_deleted (paths : List Bytes) (c : Card) (p : Bytes) : (paths.foldl (deleted refuses) c).lookup p =
    if p ∈ paths ∧ refuses p = false then none else c.lookup p := by
  induction paths generalizing c with
  | nil => simp
  | cons path paths ih =>
    have hfirst : (deleted refuses c path).lookup p = if p = path ∧ refuses p = false then none else c.lookup p := by
      rw [deleted]
      split
      · next hrefused => rw [if_neg (by rintro ⟨rfl, hnot⟩; simp [hrefused] at hnot)]
      · next hdeleted =>
        rw [Card.lookup_erase_eq]
        by_cases hp : p = path
        · simp [hp, Bool.eq_false_iff.mpr hdeleted]
        · simp [hp]
    rw [List.foldl_cons, ih, hfirst]
    by_cases hp : p = path
    · subst hp
      by_cases hrefused : refuses p = false <;> simp [hrefused]
    · simp [hp]

lemma run_unlinks (directory : Bytes) (files : List Bytes) (c : Card) : (refusing L).run refuses
    (Program.each (fun relative => unlink (directory ++ ascii "/" ++ relative) >>= fun _ => pure ()) files) c =
      (some (), (files.map (directory ++ ascii "/" ++ ·)).foldl (deleted refuses) c) := by
  induction files generalizing c with
  | nil => rfl
  | cons relative files ih =>
    have hstep : ∀ path, ∃ r, (refusing L).step (.unlink path) refuses c = (some r, deleted refuses c path) := by
      intro path
      cases hrefused : refuses path with
      | true => exact ⟨false, by simp only [refusing, answer, deleted, hrefused]; rfl⟩
      | false => exact ⟨c.has path, by simp only [refusing, answer, deleted, hrefused]; rfl⟩
    obtain ⟨r, hr⟩ := hstep (directory ++ ascii "/" ++ relative)
    have hcall := (refusing L).run_call refuses (.unlink (directory ++ ascii "/" ++ relative)) (fun _ =>
      Program.each (fun relative => unlink (directory ++ ascii "/" ++ relative) >>= fun _ => pure ()) files) c
    rw [hr] at hcall
    exact hcall.trans (ih _)

lemma run_purge (config : CleanupConfig) (c : Card)
    (hsafe : ¬(config.stagingDir.isEmpty || config.stagingDir = ascii "/" || config.stagingDir = ascii "/config"))
    (hcache : ¬(config.stagingDir.isPrefixOf config.cacheDir || config.stagingDir = config.cacheDir)) :
    ∃ report, purge L config refuses c = (some report, ((L.files c config.stagingDir).map
      (config.stagingDir ++ ascii "/" ++ ·)).foldl (deleted refuses) c) := by
  have hlist : ∀ {α : Type} (k : List Bytes → PortProgram α) (c : Card), (refusing L).run refuses
      (listFilesRecursive config.stagingDir >>= k) c = (refusing L).run refuses (k (L.files c config.stagingDir)) c :=
    fun k c => (refusing L).run_call refuses (.listFilesRecursive config.stagingDir) k c
  have htree : (refusing L).run refuses (removeTree config.stagingDir) c = (some (), ((L.files c config.stagingDir).map
      (config.stagingDir ++ ascii "/" ++ ·)).foldl (deleted refuses) c) := (hlist _ c).trans (run_unlinks refuses _ _ c)
  rw [purge, cleanStaging, if_neg hsafe, if_neg hcache, hlist, World.run_bind_of_some _ htree, hlist]
  split
  · exact ⟨_, rfl⟩
  · exact ⟨_, rfl⟩

end Refusing

lemma purge_is_executed (L : Listing) (config : CleanupConfig) (refuses : Bytes → Bool) (c : Card)
    (hsome : (purge L config refuses c).1.isSome = true) : ∃ fates, (purged L config fates c).outcome =
      (purge L config refuses c).1 ∧ (purged L config fates c).state = (purge L config refuses c).2 := by
  obtain ⟨report, hreport⟩ := Option.isSome_iff_exists.mp hsome
  have hrun : purge L config refuses c = (some report, (purge L config refuses c).2) := Prod.ext hreport rfl
  have hsteps : ∀ e c, (refusing L).step e refuses c = (world L).step e (answer refuses e) c := fun _ _ => rfl
  obtain ⟨l, ⟨fates, hfates⟩, -⟩ := World.mayEnd_of_steady hsteps hrun
  refine ⟨fates, ?_⟩
  rw [purged, ← List.append_nil fates, hfates, hreport]
  exact ⟨rfl, rfl⟩

theorem purge_spares_installation_iff (L : Listing) (J : JsonLibrary) (watched : Bool) (item : CatalogItem)
    (preserve : PreserveRules) (fates : List PortFate) (refuses : Bytes → Bool) (c : Card) :
    let config : CfwInstallConfig := {}
    let destination := config.resolve item.target
    let c' := ((world L).exec (install J config watched item preserve) fates c).state
    let t := purge L {} refuses c'
    t.1.isSome = true ∧
      (((∀ path b, Foreign path → c.lookup path = some b → Held config item.id destination path b t.2) ∧
          (c'.has config.markerPath = true → t.2.has config.markerPath = true)) ↔
        (∀ path b, Foreign path → c.lookup path = some b → c'.lookup path = some b ∨
          ∃ r, path = join destination r ∧ c'.lookup (config.backupFor item.id ++ ascii "/" ++ r) = some b ∧
            refuses (config.backupFor item.id ++ ascii "/" ++ r) = true) ∧
        (c'.has config.markerPath = true → refuses config.markerPath = true)) := by
  intro config destination c' t
  obtain ⟨report, hrun⟩ := run_purge (L := L) refuses {} c' (by decide) (by decide)
  have hlookup : ∀ p, t.2.lookup p = _ := fun p => (congrArg (fun u => AList.lookup p u.2) hrun).trans
    (lookup_foldl_deleted refuses _ c' p)
  refine ⟨congrArg (fun u => Option.isSome u.1) hrun, ?_⟩
  have hforeign : ∀ path, Foreign path → t.2.lookup path = c'.lookup path := by
    intro path hpath
    rw [hlookup, if_neg]
    rintro ⟨hmem, -⟩
    obtain ⟨r, -, rfl⟩ := List.mem_map.mp hmem
    exact hpath.not_staged (List.prefix_append _ _)
  have hstaged : ∀ {p r b : Bytes}, p = ({} : CleanupConfig).stagingDir ++ ascii "/" ++ r → r ≠ [] →
      (t.2.lookup p = some b ↔ c'.lookup p = some b ∧ refuses p = true) := by
    rintro p r b rfl hne
    rw [hlookup]
    cases hthere : c'.lookup (({} : CleanupConfig).stagingDir ++ ascii "/" ++ r) with
    | none => simp
    | some b' =>
      have hmem : r ∈ L.files c' ({} : CleanupConfig).stagingDir :=
        (L.complete _ _ _).mpr ⟨hne, by rw [Card.has, hthere]; rfl⟩
      simp [hmem, and_comm]
  have hkept : ∀ r b, t.2.lookup (config.backupFor item.id ++ ascii "/" ++ r) = some b ↔
      c'.lookup (config.backupFor item.id ++ ascii "/" ++ r) = some b ∧
        refuses (config.backupFor item.id ++ ascii "/" ++ r) = true := fun r b =>
    hstaged (r := ascii "cfw/" ++ item.id ++ ascii ".backup/" ++ r) (by simp [config, CfwInstallConfig.backupFor, ascii])
      (by simp [ascii])
  have hmarker : t.2.has config.markerPath = true ↔ c'.has config.markerPath = true ∧ refuses config.markerPath = true := by
    have hat := fun b => hstaged (p := config.markerPath) (r := ascii "cfw/merge.json") (b := b) rfl (by decide)
    simp only [Card.has, Option.isSome_iff_exists, hat, exists_and_right]
  refine and_congr (forall₄_congr fun path b hpath _ => ?_) ?_
  · rw [Held, hforeign path hpath]
    simp only [hkept]
  · rw [hmarker]
    exact forall_congr' fun hthere => and_iff_right hthere

theorem displaced_file_is_purged :
    let c' := ((world .stored).exec (install JsonCodec.library {} false Cfw.Sample.item Cfw.Sample.rules) Sample.asideCut
      Sample.previous).state
    let t := purge .stored {} (fun _ => false) c'
    c'.has ({} : CfwInstallConfig).markerPath = true ∧
      c'.lookup (ascii "/config/nsx-manager/staging/cfw/p.backup/o") = some [2] ∧
      t.1.map CleanupReport.success = some true ∧
      t.2.lookup (ascii "/switch/o") = none ∧
      t.2.lookup (ascii "/config/nsx-manager/staging/cfw/p.backup/o") = none ∧
      t.2.has ({} : CfwInstallConfig).markerPath = false := by
  decide +kernel

end NsxManager.Maintenance
