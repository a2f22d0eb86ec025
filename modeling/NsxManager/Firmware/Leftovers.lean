import NsxManager.Firmware.Visitors

/-! What an archive leaves in the firmware directory. It is expanded there and judged afterwards, and what is turned
down then stays: the next call finds files this application is said never to have put there. -/

namespace NsxManager.Firmware

open NsxManager.Core Lib Infra Catalog Ports

variable {L : Listing} {config : FirmwareConfig} {watched : Bool} {item : Item} {entries : List ZipEntry} {c : Card}

def Ours (L : Listing) (config : FirmwareConfig) (c : Card) : Prop :=
  ∀ relative ∈ L.files c config.firmwareDir, isFirmwareContent (baseName relative) = true

def Holding (entries : List ZipEntry) (ev : Event PortOp PortOp.Reply PortFate) : Prop :=
  ∀ read, ev.fate = .archived read → read = entries

def StaysOurs (L : Listing) (config : FirmwareConfig) (watched : Bool) (item : Item) (entries : List ZipEntry)
    (c : Card) : Prop :=
  Ours L config c → ∀ fates out, let t := (world L).exec (stage config watched item) fates c
    t.outcome = some out → (∀ ev ∈ t.log, Holding entries ev) →
      Ours L config t.state ∧ ∀ watched' item' fates' out',
        ((world L).exec (stage config watched' item') fates' t.state).outcome = some out' →
          out'.result ≠ .directoryNotOurs

def Inadmissible (config : FirmwareConfig) (name : Bytes) : Prop :=
  validateEntryName name ≠ .ok () ∨ kMaxPathLength < config.firmwareDir.length + 1 + name.length

def TurnedDown (config : FirmwareConfig) (entries : List ZipEntry) : Prop :=
  entries = [] ∨ (∃ entry ∈ entries, Inadmissible config entry.name) ∨
    (0 < config.maxUncompressedBytes ∧ config.maxUncompressedBytes < declaredTotal entries)

def OnlyContent (entries : List ZipEntry) : Prop :=
  ∀ entry ∈ entries, isDirectoryName entry.name = false → isFirmwareContent (baseName entry.name) = true

instance (L : Listing) (config : FirmwareConfig) (c : Card) : Decidable (Ours L config c) :=
  inferInstanceAs (Decidable (∀ relative ∈ L.files c config.firmwareDir, _))

instance (entries : List ZipEntry) : Decidable (OnlyContent entries) :=
  inferInstanceAs (Decidable (∀ entry ∈ entries, _))

def Stray (config : FirmwareConfig) (path : Bytes) : Prop :=
  config.Below path ∧ isFirmwareContent (baseName path) = false

lemma ours_iff : Ours L config c ↔ ∀ path, Stray config path → c.lookup path = none := by
  constructor
  · rintro hours path ⟨⟨relative, hne, rfl⟩, hstray⟩
    rw [baseName_below] at hstray
    rw [← Card.has_eq_false, ← Bool.not_eq_true]
    intro hthere
    have hcontent := hours relative ((L.complete _ _ _).mpr ⟨hne, hthere⟩)
    simp [hstray] at hcontent
  · intro habsent relative hlisted
    obtain ⟨hne, hthere⟩ := (L.complete _ _ _).mp hlisted
    by_contra hstray
    have hnone := habsent _ ⟨⟨relative, hne, rfl⟩, by rw [baseName_below]; simpa using hstray⟩
    rw [Card.has, hnone] at hthere
    cases hthere

/-! A directory of nothing but firmware content is not refused. -/

section Accepted

def Accepts (L : Listing) (p : PortProgram FirmwareOutcome) (c : Card) : Prop :=
  (world L).wp (fun _ => True) (fun _ => True) p (fun out _ => out.result ≠ .directoryNotOurs) c

lemma accepts_discarding {out : FirmwareOutcome} (h : out.result ≠ .directoryNotOurs) :
    Accepts L (discarding config item out) c :=
  World.wp_next (fun _ _ => h)

lemma transferFailure_ne (error : HttpError) : (transferFailure error).result ≠ .directoryNotOurs := by
  simp only [transferFailure]
  split_ifs <;> decide

lemma extractionFailure_ne (error : ArchiveError) : (extractionFailure error).result ≠ .directoryNotOurs := by
  simp only [extractionFailure]
  split_ifs <;> decide

lemma accepts_extractSet (removed : ℕ) : Accepts L (extractSet config watched item removed) c := by
  refine World.wp_next (fun extracted _ => ?_)
  cases extracted with
  | error error => exact accepts_discarding (extractionFailure_ne error)
  | ok _ =>
    refine World.wp_next (fun staged _ => ?_)
    split
    · exact accepts_discarding nofun
    · exact accepts_discarding nofun

lemma accepts_replaceSet (existing : FirmwareDirectoryScan) :
    Accepts L (replaceSet config watched item existing) c := by
  refine World.wp_next (fun going _ => ?_)
  split
  · exact accepts_discarding nofun
  refine World.wp_next (fun cleared _ => ?_)
  rcases cleared with ⟨removed, _ | relative⟩
  · refine World.wp_next (fun made _ => ?_)
    split
    · exact accepts_discarding nofun
    refine World.wp_next (fun going _ => ?_)
    split
    · exact accepts_discarding nofun
    · exact accepts_extractSet removed
  · exact accepts_discarding nofun

lemma makeRoom_accepts : (world L).wp (fun _ => True) (fun _ => True) (makeRoom config item)
    (fun stopped _ => ∀ out, stopped = some out → out.result ≠ .directoryNotOurs) c := by
  refine World.wp_next (fun _ _ => World.wp_next (fun made _ => ?_))
  split
  · rintro _ ⟨⟩
    nofun
  refine World.wp_next (fun free _ => ?_)
  split
  · rintro _ ⟨⟩
    nofun
  · nofun

lemma preflight_accepts (hours : Ours L config c) :
    (world L).wp (fun _ => True) (fun _ => True) (preflight config watched item)
      (fun prepared _ => ∀ out, prepared = .error out → out.result ≠ .directoryNotOurs) c := by
  unfold preflight
  split
  · rintro _ ⟨⟩
    nofun
  refine wp_report trivial (fun going => ?_)
  split
  · rintro _ ⟨⟩
    nofun
  refine wp_inspect trivial ?_
  rw [onlyFirmware_scan_iff.mpr hours]
  refine World.wp_next (fun installer _ => ?_)
  split
  · rintro _ ⟨⟩
    nofun
  refine (World.wp_bind _ _ _).mpr (World.wp_post makeRoom_accepts (fun stopped _ hstopped => ?_))
  cases stopped with
  | some out =>
    rintro _ ⟨⟩
    exact hstopped out rfl
  | none => nofun

lemma fetchArchive_accepts : (world L).wp (fun _ => True) (fun _ => True) (fetchArchive config watched item)
    (fun stopped _ => ∀ out, stopped = some out → out.result ≠ .directoryNotOurs) c := by
  refine World.wp_next (fun going _ => ?_)
  split
  · rintro _ ⟨⟩
    nofun
  refine World.wp_next (fun error _ => ?_)
  split
  · refine (World.wp_bind _ _ _).mpr (World.wp_post (accepts_discarding (transferFailure_ne error)) ?_)
    rintro out _ hout _ ⟨⟩
    exact hout
  · nofun

lemma accepts_stage (hours : Ours L config c) : Accepts L (stage config watched item) c := by
  refine (World.wp_bind _ _ _).mpr ((World.wp_bind _ _ _).mpr
    (World.wp_post (preflight_accepts hours) (fun prepared _ hprepared => ?_)))
  cases prepared with
  | error out => exact hprepared out rfl
  | ok existing =>
    refine (World.wp_bind _ _ _).mpr (World.wp_post fetchArchive_accepts (fun stopped _ hstopped => ?_))
    cases stopped with
    | some out => exact hstopped out rfl
    | none => exact accepts_replaceSet existing

end Accepted

/-! What the extraction can write. -/

section Written

abbrev firmwarePolicy (config : FirmwareConfig) : ExtractionPolicy := ⟨config.firmwareDir, PreserveRules.parse []⟩

lemma FirmwareConfig.Apart.root (hconfig : config.Apart) :
    config.firmwareDir ≠ [] ∧ config.firmwareDir.getLast? ≠ some (byte '/') := by
  obtain ⟨last, hlast, hne⟩ := hconfig.bare
  refine ⟨?_, ?_⟩
  · rintro hempty
    rw [hempty] at hlast
    cases hlast
  · rw [hlast]
    simpa using hne

lemma resolveUnder_firmwareDir (hconfig : config.Apart) {name : Bytes} (hvalid : validateEntryName name = .ok ()) :
    resolveUnder config.firmwareDir name =
      if kMaxPathLength < config.firmwareDir.length + 1 + name.length then .error .pathTooLong
      else .ok (config.firmwareDir ++ ascii "/" ++ name) := by
  obtain ⟨hne, hlast⟩ := hconfig.root
  have hempty : config.firmwareDir.isEmpty = false := List.isEmpty_eq_false_iff.mpr hne
  have hslash : (config.firmwareDir.getLast? == some (byte '/')) = false := by simpa using hlast
  have hlength : (config.firmwareDir ++ ascii "/" ++ name).length = config.firmwareDir.length + 1 + name.length := by
    rw [List.length_append, List.length_append]
    rfl
  simp only [resolveUnder, hempty, hvalid, stripTrailingSlashes_eq hne hlast, hslash, Bool.false_eq_true, if_false]
  rw [List.append_assoc _ (entryBody name), entryBody_append, hlength]

lemma decide_of_admissible (hconfig : config.Apart) {name : Bytes} (h : ¬Inadmissible config name) :
    (firmwarePolicy config).decide name =
      { action := if isDirectoryName name then .createDirectory else .write,
        destination := config.firmwareDir ++ ascii "/" ++ name } := by
  obtain ⟨hvalid, hlength⟩ := not_or.mp h
  have hpreserve : (PreserveRules.parse []).preserves (entryBody name) = false := rfl
  simp only [ExtractionPolicy.decide, resolveUnder_firmwareDir hconfig (not_not.mp hvalid),
    if_neg hlength, hpreserve, Bool.false_eq_true, if_false]
  split <;> rfl

lemma reject_iff (hconfig : config.Apart) (name : Bytes) :
    ((firmwarePolicy config).decide name).action = .reject ↔ Inadmissible config name := by
  refine ⟨fun hreject => ?_, fun hbad => ?_⟩
  · by_contra hgood
    rw [decide_of_admissible hconfig hgood] at hreject
    revert hreject
    cases isDirectoryName name <;> nofun
  · by_contra hkept
    obtain ⟨-, hvalid⟩ := @decide_destination (firmwarePolicy config) name hconfig.root.2 hkept
    have hlong := hbad.resolve_left (not_not.mpr hvalid)
    rw [firmwarePolicy, ExtractionPolicy.decide, resolveUnder_firmwareDir hconfig hvalid, if_pos hlong] at hkept
    exact hkept rfl

def Clean (config : FirmwareConfig) (e : PortOp) : Prop := ∀ path ∈ e.creates, ¬Stray config path

lemma clean_of_abstains {e : PortOp} (h : Abstains config e) : Clean config e :=
  fun path hpath hstray => h path (e.creates_subset_changes hpath) hstray.1

lemma clean_quiet (e : PortOp) (h : e.changes = []) : Clean config e := clean_of_abstains (abstains_quiet e h)

lemma clean_unpack {entry : ZipEntry} (h : isFirmwareContent (baseName entry.name) = true) :
    Clean config (.unpack (config.firmwareDir ++ ascii "/" ++ entry.name) entry.body) := by
  intro path hpath hstray
  have hcontent := hstray.2
  rw [List.mem_singleton.mp hpath, baseName_below, h] at hcontent
  cases hcontent

variable (hconfig : config.Apart)

include hconfig

lemma clean_discarding (out : FirmwareOutcome) : (discarding config item out).Asks (Clean config) :=
  (abstains_discarding hconfig out).mono (fun _ => clean_of_abstains)

lemma wp_extractSet (hentries : TurnedDown config entries ∨ OnlyContent entries) (removed : ℕ)
    (hc : ∀ path, Stray config path → c.lookup path = none) :
    (world L).wp (Holding entries)
      (fun c' => ∀ path, Stray config path → c'.lookup path = none) (extractSet config watched item removed)
      (fun _ c' => ∀ path, Stray config path → c'.lookup path = none) c := by
  rw [extractSet, World.wp_bind, extractZip]
  refine wp_entries hc (fun f hholding => ?_)
  -- what cannot be read is an archive of nothing
  have hread : TurnedDown config (contents f) ∨ OnlyContent (contents f) := by
    cases f with
    | archived read =>
      rw [contents, hholding read rfl]
      exact hentries
    | _ => exact .inl (.inl rfl)
  generalize contents f = read at hread
  have hlist : (listFilesRecursive config.firmwareDir).Asks (Clean config) := ⟨clean_quiet _ rfl, fun _ => trivial⟩
  have hprogress : ∀ progress, (report watched progress).Asks (Clean config) := asks_report clean_quiet
  refine World.wp_post (wp_absent ?_ hc) (fun extracted c' hc' => wp_absent ?_ hc')
  · rw [extractEntries]
    split_ifs with hempty hunsafe hsize
    · trivial
    · trivial
    · trivial
    have haccepted : ∀ entry ∈ read, ((firmwarePolicy config).decide entry.name).action ≠ .reject := by
      simpa [firmwarePolicy] using hunsafe
    have hcontent : OnlyContent read := by
      refine hread.resolve_left ?_
      rintro (rfl | ⟨entry, hentry, hbad⟩ | hlarge)
      · exact hempty rfl
      · exact haccepted entry hentry ((reject_iff hconfig _).mpr hbad)
      · exact hsize hlarge
    refine (asks_extractLoop hconfig.root.2 (fun _ => clean_quiet _ rfl) (fun _ => hprogress _) _ _ _ _ haccepted
      (fun entry hentry hname _ => clean_unpack (hcontent entry hentry hname))).bind (fun extracted => ?_)
    cases extracted with
    | error error => trivial
    | ok report => exact (hprogress _).bind (fun _ => trivial)
  · cases extracted with
    | error error => exact clean_discarding hconfig _
    | ok _ =>
      refine hlist.bind (fun staged => ?_)
      split
      · exact clean_discarding hconfig _
      · exact clean_discarding hconfig _

lemma wp_replaceSet (hentries : TurnedDown config entries ∨ OnlyContent entries) (existing : FirmwareDirectoryScan)
    (hc : ∀ path, Stray config path → c.lookup path = none) :
    (world L).wp (Holding entries)
      (fun c' => ∀ path, Stray config path → c'.lookup path = none) (replaceSet config watched item existing)
      (fun _ c' => ∀ path, Stray config path → c'.lookup path = none) c := by
  have hclear : (clearSet config).Asks (Clean config) := asks_clearSet (clean_quiet _ rfl) (fun _ => nofun)
  refine wp_report hc (fun going => ?_)
  split
  · exact wp_absent (clean_discarding hconfig _) hc
  refine (World.wp_bind _ _ _).mpr (World.wp_post (wp_absent hclear hc) (fun cleared c' hc' => ?_))
  rcases cleared with ⟨removed, _ | relative⟩
  · refine wp_makeDirectories hc' (fun _ => wp_absent (clean_discarding hconfig _) hc') (wp_report hc' (fun going => ?_))
    split
    · exact wp_absent (clean_discarding hconfig _) hc'
    · exact wp_extractSet hconfig hentries removed hc'
  · exact wp_absent (clean_discarding hconfig _) hc'

omit hconfig in
lemma ready_of_fetchSet : (world L).returns (fetchSet config watched item)
    (fun fetched _ _ => ∀ existing, fetched = .ok existing → Ready L config item c) c := by
  refine World.returns_bind (World.returns_mono (World.returns_of_wp wp_preflight) (fun prepared _ _ hready => ?_))
  cases prepared with
  | error out => exact World.returns_done nofun
  | ok existing =>
    refine World.returns_bind (fun _ stopped _ => ?_)
    cases stopped with
    | some out => exact World.returns_done nofun
    | none => exact World.returns_done (fun _ _ => hready existing rfl)

lemma ours_of_safe (hentries : Ready L config item c → Obtainable item → TurnedDown config entries ∨ OnlyContent entries)
    (hours : Ours L config c) (fates : List PortFate) (out : FirmwareOutcome)
    (hout : ((world L).exec (stage config watched item) fates c).outcome = some out)
    (hholding : ∀ ev ∈ ((world L).exec (stage config watched item) fates c).log, Holding entries ev) :
    Ours L config ((world L).exec (stage config watched item) fates c).state := by
  obtain ⟨fetched, hfetched, heq⟩ := World.exec_bind_some (world L) hout
  have hfetch : (fetchSet config watched item).Asks (Clean config) :=
    (abstains_fetchSet hconfig).mono (fun _ => clean_of_abstains)
  have habsent := World.exec_post hfetched (wp_absent hfetch (ours_iff.mp hours))
  rw [stage, heq] at hholding ⊢
  rw [ours_iff]
  cases fetched with
  | error out => simpa [afterFetching] using habsent
  | ok existing =>
    obtain ⟨ev, _, _, body, _, hbody⟩ := returns_fetchSet fates _ hfetched existing rfl
    have hsafe := hentries (ready_of_fetchSet fates _ hfetched existing rfl) ⟨body, admission_eq_none.mpr hbody⟩
    have hends := World.exec_ends (@wp_replaceSet L config watched item entries _ hconfig hsafe existing habsent)
      (fun ev hev => hholding ev (List.mem_append_right _ hev))
    unfold Trace.Ends at hends
    split at hends <;> exact hends

end Written

/-! An archive that is expanded and then turned down. -/

section Left

lemma beside_nil : beside L config [] = world L := by
  refine congrArg World.mk (funext fun e => funext fun f => funext fun c => ?_)
  cases transfers e <;> rfl

lemma holding_ok (e : PortOp) (r : e.Reply) : Holding entries ⟨e, .ok, r⟩ := nofun

lemma name_ne_nil {name : Bytes} (h : ¬Inadmissible config name) : name ≠ [] := by
  rintro rfl
  exact h (.inl nofun)

lemma run_discarding (out : FirmwareOutcome) : (world L).run .ok (discarding config item out) c =
    (some out, (c.erase (config.archiveFor item.id ++ ascii ".part")).erase (config.archiveFor item.id)) := rfl

variable (hconfig : config.Apart)

include hconfig

lemma has_discarded {path : Bytes} (hpath : config.Below path) (h : c.has path = true) :
    Card.has ((c.erase (config.archiveFor item.id ++ ascii ".part")).erase (config.archiveFor item.id)) path = true := by
  have hother : ∀ rest, path ≠ config.archiveFor item.id ++ rest := by
    rintro rest rfl
    exact hconfig.archive item.id rest hpath
  have harchive := hother []
  rw [List.append_nil] at harchive
  rw [Card.has_erase_of_ne _ _ _ harchive, Card.has_erase_of_ne _ _ _ (hother _), h]

lemma may_extractSet (hdown : ¬TurnedDown config entries) {entry : ZipEntry} (hentry : entry ∈ entries)
    (hname : isDirectoryName entry.name = false) (removed : ℕ) :
    (world L).may (Holding entries) (extractSet config watched item removed)
      (fun _ c' => c'.has (config.firmwareDir ++ ascii "/" ++ entry.name) = true) c := by
  obtain ⟨hne, hadmissible, hsize⟩ : entries ≠ [] ∧ (∀ entry ∈ entries, ¬Inadmissible config entry.name) ∧
      ¬(0 < config.maxUncompressedBytes ∧ config.maxUncompressedBytes < declaredTotal entries) := by
    simpa [TurnedDown] using hdown
  have haccepted : ¬entries.any
      (fun entry => ((firmwarePolicy config).decide entry.name).action == .reject) = true := by
    simpa [reject_iff hconfig] using hadmissible
  have hread : Holding entries ⟨.entries (config.archiveFor item.id), .archived entries, entries⟩ :=
    fun _ hread => (PortFate.archived.inj hread).symm
  refine World.may_bind (World.may_bind (World.may_call (f := .archived entries) (r := entries) rfl hread
    (World.may_done ?_)))
  rw [extractEntries, if_neg (by simpa using hne), if_neg haccepted, if_neg hsize]
  obtain ⟨report', c₁, hloop, -, hwritten⟩ := @run_extractLoop L (firmwarePolicy config) c _
    (fun p c => @run_report L watched c ⟨.extracting, p.entriesDone, p.entriesTotal,
      if p.currentEntry.isEmpty then item.name else p.currentEntry⟩) entries.length 0 entries {}
  have hthere : c₁.has (config.firmwareDir ++ ascii "/" ++ entry.name) = true := by
    have hwrite := hwritten entry hentry
    rw [decide_of_admissible hconfig (hadmissible entry hentry), hname] at hwrite
    exact hwrite rfl
  have hdiscarded : ∀ out, (world L).may (Holding entries) (discarding config item out)
      (fun _ c' => c'.has (config.firmwareDir ++ ascii "/" ++ entry.name) = true) c₁ := by
    intro out
    refine World.may_of_run (run_discarding out) holding_ok (has_discarded hconfig ?_ hthere)
    exact ⟨entry.name, name_ne_nil (hadmissible entry hentry), rfl⟩
  refine World.may_bind (World.may_of_run hloop holding_ok (World.may_bind (World.may_of_run (run_report _) holding_ok
    (World.may_done (World.may_bind (World.may_call (f := .ok) rfl (holding_ok _ _) (World.may_done ?_)))))))
  -- what is found wanting stays where it is, like what is ready
  split
  · exact hdiscarded _
  · exact hdiscarded _

lemma may_stage (hready : Ready L config item c) (hget : Obtainable item) (hdown : ¬TurnedDown config entries)
    {entry : ZipEntry} (hentry : entry ∈ entries) (hname : isDirectoryName entry.name = false) :
    (world L).may (Holding entries) (stage config watched item)
      (fun _ c' => c'.has (config.firmwareDir ++ ascii "/" ++ entry.name) = true) c := by
  obtain ⟨existing, c₁, l, hfetched, -, hunread⟩ := @mayEnd_fetchSet L config watched item [] c hready hget
  rw [beside_nil] at hfetched
  obtain ⟨removed, c₂, hcleared, -⟩ := run_clearSet (L := L) (c := c₁) hconfig
  refine World.may_bind ⟨_, c₁, l, hfetched, fun ev hev read hread => absurd hread (hunread ev hev read), ?_⟩
  refine World.may_bind (World.may_of_run (run_report _) holding_ok ?_)
  simp only [Bool.not_true, Bool.false_eq_true, if_false]
  refine World.may_bind (World.may_of_run hcleared holding_ok ?_)
  refine World.may_bind (World.may_call (f := .ok) (r := true) rfl (holding_ok _ _) (World.may_done ?_))
  simp only [Bool.not_true, Bool.false_eq_true, if_false]
  refine World.may_bind (World.may_of_run (run_report _) holding_ok ?_)
  simp only [Bool.not_true, Bool.false_eq_true, if_false]
  exact may_extractSet hconfig hdown hentry hname removed

end Left

namespace Sample

def readme : ZipEntry := ⟨ascii "README.txt", 1, [3]⟩

def contentOnly : List ZipEntry := [⟨ascii "n.nca", 1, [3]⟩, ⟨ascii "c/m.NCA", 1, [4]⟩]

def mistaken : List PortFate :=
  List.replicate 6 .ok ++ .served [0] :: List.replicate 3 .ok ++ .archived [readme] :: List.replicate 5 .ok

end Sample

theorem firmware_directory_stays_ours_iff (L : Listing) (config : FirmwareConfig) (watched : Bool) (item : Item)
    (entries : List ZipEntry) (c : Card) (hconfig : config.Apart) :
    StaysOurs L config watched item entries c ↔
      (Ready L config item c → Obtainable item → TurnedDown config entries ∨ OnlyContent entries) := by
  constructor
  · intro hstays hready hget
    by_contra hnot
    obtain ⟨hdown, hstray⟩ := not_or.mp hnot
    obtain ⟨entry, hentry, hname, hother⟩ : ∃ entry ∈ entries, isDirectoryName entry.name = false ∧
        isFirmwareContent (baseName entry.name) = false := by
      simpa [OnlyContent] using hstray
    obtain ⟨out, c', l, ⟨fates, hfates⟩, hholding, hthere⟩ :=
      @may_stage L config watched item entries c hconfig hready hget hdown entry hentry hname
    have hexec := hfates []
    rw [List.append_nil] at hexec
    obtain ⟨hours, -⟩ := hstays hready.ours fates out (by rw [hexec]) (by rw [hexec]; exact hholding)
    rw [hexec] at hours
    have hne : entry.name ≠ [] := name_ne_nil (fun hbad => hdown (.inr (.inl ⟨entry, hentry, hbad⟩)))
    have hcontent := hours entry.name ((L.complete _ _ _).mpr ⟨hne, hthere⟩)
    simp [hother] at hcontent
  · intro hentries hours fates out t hout hholding
    have hstays := ours_of_safe hconfig hentries hours fates out hout hholding
    exact ⟨hstays, fun _ _ fates' out' hout' => World.returns_of_wp (accepts_stage hstays) fates' out' hout'⟩

theorem a_set_of_contents_stays_ours : StaysOurs .stored {} false Sample.item Sample.contentOnly Sample.card :=
  (firmware_directory_stays_ours_iff _ _ _ _ _ _ apart_default).mpr (fun _ _ => .inr (by decide))

theorem a_readme_blocks_the_next_set :
    ¬StaysOurs .stored {} false Sample.item [Sample.readme] Sample.card ∧
      let t := (world .stored).exec (stage {} false Sample.item) Sample.mistaken Sample.card
      t.outcome.map FirmwareOutcome.result = some .notFirmwareContent ∧
        ((world .stored).exec (stage {} false Sample.item) [.ok] t.state).outcome.map FirmwareOutcome.result =
          some .directoryNotOurs := by
  refine (and_iff_right_of_imp (fun hruns hstays => ?_)).mpr (by decide +kernel)
  obtain ⟨out, hout, -⟩ := Option.map_eq_some_iff.mp hruns.1
  obtain ⟨out', hout', hrefused⟩ := Option.map_eq_some_iff.mp hruns.2
  have hholding : ∀ f ∈ Sample.mistaken, ∀ read, f = .archived read → read = [Sample.readme] := by
    simp [Sample.mistaken]
  exact (hstays (by decide +kernel) Sample.mistaken out hout
    (fun ev hev => hholding _ (World.fate_mem_of_mem_log _ hev))).2 false Sample.item _ out' hout' hrefused

end NsxManager.Firmware
