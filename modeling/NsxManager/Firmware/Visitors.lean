import NsxManager.Firmware.Replace

/-! Files that another program adds to the firmware directory while the archive is being downloaded. The
directory was judged before the download, and is emptied after it. -/

namespace NsxManager.Firmware

open NsxManager.Core Lib Infra Catalog Ports

structure Addition where
  relative : Bytes
  bytes : Bytes
  named : relative ≠ []

variable {L : Listing} {config : FirmwareConfig} {watched : Bool} {item : Item} {files : List Addition} {c : Card}

def Addition.path (f : Addition) (config : FirmwareConfig) : Bytes := config.firmwareDir ++ ascii "/" ++ f.relative

def adding (config : FirmwareConfig) (files : List Addition) (c : Card) : Card :=
  files.foldl (fun c f => c.insert (f.path config) f.bytes) c

def transfers : PortOp → Bool
  | .download _ _ _ => true
  | _ => false

/-- The world in which the files have been added by the time a download ends. -/
def beside (L : Listing) (config : FirmwareConfig) (files : List Addition) :
    World PortOp PortOp.Reply PortFate Card where
  step e f c := (((world L).step e f c).1,
    if transfers e then adding config files ((world L).step e f c).2 else ((world L).step e f c).2)

def stagedBeside (L : Listing) (config : FirmwareConfig) (watched : Bool) (item : Item) (files : List Addition)
    (fates : List PortFate) (c : Card) : Trace PortOp PortOp.Reply PortFate Card FirmwareOutcome :=
  (beside L config files).exec (stage config watched item) fates c

def SparesOthers (L : Listing) (config : FirmwareConfig) (watched : Bool) (item : Item) (files : List Addition)
    (c : Card) : Prop :=
  ∀ fates path, config.Below path → isFirmwareContent (baseName path) = false →
    (c.has path = true ∨ ((stagedBeside L config watched item files fates c).log.any (fun ev => transfers ev.asked) = true ∧
      ∃ f ∈ files, f.path config = path)) →
    (stagedBeside L config watched item files fates c).state.has path = true

lemma step_beside {e : PortOp} (h : transfers e = false) : (beside L config files).step e = (world L).step e := by
  funext f c
  simp [beside, h]

lemma exec_beside {α : Type} {p : PortProgram α} (h : p.Asks (fun e => transfers e = false)) (fates : List PortFate)
    (c : Card) : (beside L config files).exec p fates c = (world L).exec p fates c :=
  World.exec_congr h (fun _ he => step_beside he) fates c

lemma transfers_quiet (e : PortOp) (h : e.changes = []) : transfers e = false := by
  cases e <;> first | rfl | cases h

lemma takeWhile_component (component rest : Bytes) :
    (component ++ byte '/' :: rest).takeWhile (fun c => c != byte '/') = component.takeWhile (fun c => c != byte '/') := by
  induction component with
  | nil => rfl
  | cons c component ih => simp [List.takeWhile_cons, ih]

lemma baseName_below (directory relative : Bytes) :
    baseName (directory ++ ascii "/" ++ relative) = baseName relative := by
  rw [baseName, List.reverse_append, List.reverse_append]
  exact congrArg List.reverse (takeWhile_component relative.reverse directory.reverse)

lemma has_adding_of_has {path : Bytes} (h : c.has path = true) : (adding config files c).has path = true := by
  induction files generalizing c with
  | nil => exact h
  | cons f files ih => exact ih (c.has_insert_of_has _ _ _ h)

lemma has_adding {f : Addition} (hf : f ∈ files) : (adding config files c).has (f.path config) = true := by
  induction files generalizing c with
  | nil => cases hf
  | cons g files ih =>
    rcases List.mem_cons.mp hf with rfl | hf
    · exact @has_adding_of_has config files (c.insert _ _) _ (c.has_insert_self _ _)
    · exact ih hf

/-! What decides whether the directory is emptied. -/

structure Ready (L : Listing) (config : FirmwareConfig) (item : Item) (c : Card) : Prop where
  kind : item.kind = .firmware
  ours : ∀ relative ∈ L.files c config.firmwareDir, isFirmwareContent (baseName relative) = true
  installer : c.has config.daybreakNro = true

def Obtainable (item : Item) : Prop := ∃ body, admission ⟨item.size, item.sha256⟩ body = .none

section Wp

variable {α : Type} {A : Event PortOp PortOp.Reply PortFate → Prop} {C : Card → Prop} {Q : α → Card → Prop}

lemma wp_report {progress : FirmwareProgress} {k : Bool → PortProgram α} (hC : C c)
    (hk : ∀ going, (world L).wp A C (k going) Q c) : (world L).wp A C (report watched progress >>= k) Q c := by
  cases watched with
  | true =>
    refine (World.wp_call _ _).mpr ⟨hC, fun f => ?_⟩
    exact fun _ => hk _
  | false => exact hk true

lemma wp_inspect {k : FirmwareDirectoryScan → PortProgram α} (hC : C c)
    (hk : (world L).wp A C (k (scanFirmwareDirectory (L.files c config.firmwareDir))) Q c) :
    (world L).wp A C (inspect config >>= k) Q c :=
  wp_listFilesRecursive hC hk

end Wp

lemma wp_preflight : (world L).wp (fun _ => True) (fun _ => True) (preflight config watched item)
    (fun prepared _ => ∀ existing, prepared = .ok existing → Ready L config item c) c := by
  unfold preflight
  split
  · exact fun _ h => nomatch h
  · next hkind =>
    refine wp_report trivial (fun going => ?_)
    split
    · exact fun _ h => nomatch h
    refine wp_inspect trivial ?_
    split
    · exact fun _ h => nomatch h
    · next hours =>
      refine wp_probe trivial ?_
      split
      · exact fun _ h => nomatch h
      · next hinstaller =>
        have hready : Ready L config item c :=
          ⟨not_not.mp hkind, onlyFirmware_scan_iff.mp (by simpa using hours), by simpa using hinstaller⟩
        refine World.wp_next (fun stopped _ => ?_)
        cases stopped with
        | some out => exact fun _ h => nomatch h
        | none => exact fun _ _ => hready

def Steady (config : FirmwareConfig) (files : List Addition) (c c' : Card)
    (l : List (Event PortOp PortOp.Reply PortFate)) : Prop :=
  (∀ path, config.Below path → c.has path = true → c'.has path = true) ∧
    (l.any (fun ev => transfers ev.asked) = true → ∀ f ∈ files, c'.has (f.path config) = true)

lemma below_path (f : Addition) (config : FirmwareConfig) : config.Below (f.path config) := ⟨f.relative, f.named, rfl⟩

section Calm

variable {α : Type} {p : PortProgram α} {c₀ : Card} {l : List (Event PortOp PortOp.Reply PortFate)}

def Calm (config : FirmwareConfig) (e : PortOp) : Prop := transfers e = false ∧ Abstains config e

lemma calm_quiet (e : PortOp) (h : e.changes = []) : Calm config e := ⟨transfers_quiet e h, abstains_quiet e h⟩

lemma calm_discardStaging (hconfig : config.Apart) (id : Bytes) : (discardStaging config id).Asks (Calm config) :=
  Program.Asks.and ⟨rfl, fun _ => ⟨rfl, fun _ => trivial⟩⟩ (abstains_discardStaging hconfig id)

lemma Steady.extend (h : Steady config files c₀ c l) (hp : p.Asks (Calm config)) :
    (beside L config files).traced (fun _ => True) p (fun _ c' l' => Steady config files c₀ c' (l ++ l')) c := by
  intro fates _
  have hsame : ∀ path, config.Below path →
      ((world L).exec p fates c).state.has path = c.has path := by
    intro path hpath
    rw [Card.has, lookup_exec (hp.mono (fun _ he => he.2)) fates hpath, Card.has]
  have hnone : ((world L).exec p fates c).log.any (fun ev => transfers ev.asked) = false := by
    rw [List.any_eq_false]
    intro ev hev
    simp [(World.asked_of_mem_log _ hp hev).1]
  rw [exec_beside (hp.mono (fun _ he => he.1))]
  refine ⟨fun path hpath hthere => ?_, fun hasked f hf => ?_⟩
  · rw [hsame path hpath]
    exact h.1 path hpath hthere
  · rw [hsame _ (below_path f config)]
    rw [List.any_append, hnone, Bool.or_false] at hasked
    exact h.2 hasked f hf

lemma Steady.download (h : Steady config files c₀ c l) {archive : Bytes} (harchive : ¬config.Below archive)
    (url : Bytes) (expected : ExpectedArtifact) (f : PortFate) :
    Steady config files c₀ (adding config files (fetch archive expected c f).2)
      (l ++ [⟨.download url archive expected, f, (fetch archive expected c f).1⟩]) := by
  refine ⟨fun path hpath hthere => has_adding_of_has ?_, fun _ g hg => has_adding hg⟩
  have hne : path ≠ archive := by
    rintro rfl
    exact harchive hpath
  rw [Card.has, lookup_fetch hne]
  exact h.1 path hpath hthere

lemma traced_download {url archive : Bytes} {expected : ExpectedArtifact} {k : HttpError → PortProgram α}
    {R : Option α → Card → List (Event PortOp PortOp.Reply PortFate) → Prop} (hcut : R none c [])
    (hk : ∀ f, (beside L config files).traced (fun _ => True) (k (fetch archive expected c f).1)
      (fun o t l => R o t (⟨.download url archive expected, f, (fetch archive expected c f).1⟩ :: l))
      (adding config files (fetch archive expected c f).2)) :
    (beside L config files).traced (fun _ => True) (download url archive expected >>= k) R c :=
  World.traced_call hcut (fun f _ => hk f)

variable (hconfig : config.Apart)

include hconfig

lemma Steady.settle (h : Steady config files c₀ c l) (error : HttpError) :
    (beside L config files).traced (fun _ => True)
      (discarding config item (transferFailure error) >>= fun out => pure (some out))
      (fun o c' l' => Steady config files c₀ c' (l ++ l') ∧ o ≠ some none) c := by
  have hdiscarded := h.extend (L := L)
    (asks_discarding (calm_discardStaging hconfig item.id) (transferFailure error))
  refine World.traced_bind (World.traced_mono hdiscarded (fun _ _ _ hsteady _ => ⟨hsteady, nofun⟩))
    (World.traced_mono hdiscarded (fun _ _ _ hsteady _ _ => World.traced_done ⟨?_, nofun⟩))
  rwa [List.append_nil]

lemma traced_fetchArchive (h : Steady config files c₀ c l) (hno : ¬Obtainable item) :
    (beside L config files).traced (fun _ => True) (fetchArchive config watched item)
      (fun o c' l' => Steady config files c₀ c' (l ++ l') ∧ o ≠ some none) c := by
  have hasks : (report watched ⟨.downloading, 0, item.size.toNat, item.name⟩).Asks (Calm config) :=
    asks_report calm_quiet _
  have hreport := h.extend (L := L) hasks
  refine World.traced_bind (World.traced_mono hreport (fun _ _ _ hsteady _ => ⟨hsteady, nofun⟩))
    (World.traced_mono hreport (fun _ c' l' hsteady going _ => ?_))
  cases going with
  | false => exact World.traced_done ⟨by rwa [List.append_nil], nofun⟩
  | true =>
    have harchive : ¬config.Below (config.archiveFor item.id) := by
      rw [← List.append_nil (config.archiveFor item.id)]
      exact hconfig.archive item.id []
    refine traced_download ⟨by rwa [List.append_nil], nofun⟩ (fun f => ?_)
    split
    · refine World.traced_mono ((hsteady.download harchive item.url ⟨item.size, item.sha256⟩ f).settle hconfig _)
        (fun _ _ _ h => ?_)
      simpa using h
    · next herror =>
      obtain ⟨body, _, hbody⟩ := served_of_fetch (not_not.mp herror)
      exact absurd ⟨body, admission_eq_none.mpr hbody⟩ hno

lemma traced_fetchSet (hno : ¬(Ready L config item c ∧ Obtainable item)) :
    (beside L config files).traced (fun _ => True) (fetchSet config watched item)
      (fun o c' l => Steady config files c c' l ∧ ∀ existing, o ≠ some (.ok existing)) c := by
  have hbegin : Steady config files c c [] := ⟨fun _ _ h => h, fun h => nomatch h⟩
  have hasks : (preflight config watched item).Asks (Calm config) :=
    asks_preflight calm_quiet (calm_discardStaging hconfig item.id)
  have hpreflight : (beside L config files).traced (fun _ => True) (preflight config watched item)
      (fun o c' l => Steady config files c c' l ∧ ∀ existing, o = some (.ok existing) → Ready L config item c) c := by
    refine World.traced_and (World.traced_mono (hbegin.extend hasks) (fun _ _ _ h => h)) (fun fates _ existing hout => ?_)
    rw [exec_beside (hasks.mono (fun _ he => he.1))] at hout
    exact World.returns_of_wp wp_preflight fates _ hout existing rfl
  refine World.traced_bind (World.traced_mono hpreflight (fun _ _ _ h _ => ⟨h.1, nofun⟩))
    (World.traced_mono hpreflight (fun _ c' l h prepared hprepared => ?_))
  cases prepared with
  | error out => exact World.traced_done ⟨by simpa using h.1, nofun⟩
  | ok existing =>
    have harchive := @traced_fetchArchive L config watched item files c' c l hconfig h.1
      (fun hget => hno ⟨h.2 existing hprepared, hget⟩)
    refine World.traced_bind (World.traced_mono harchive (fun _ _ _ h _ => ⟨h.1, nofun⟩))
      (World.traced_mono harchive (fun _ _ _ h stopped hstopped => ?_))
    cases stopped with
    | some out => exact World.traced_done ⟨by simpa using h.1, nofun⟩
    | none => exact absurd hstopped h.2

lemma steady_of_unobtainable (hno : ¬(Ready L config item c ∧ Obtainable item)) (fates : List PortFate) :
    Steady config files c (stagedBeside L config watched item files fates c).state
      (stagedBeside L config watched item files fates c).log := by
  have hfetched := @traced_fetchSet L config watched item files c hconfig hno
  have hstaged : (beside L config files).traced (fun _ => True) (stage config watched item)
      (fun _ c' l => Steady config files c c' l) c := by
    refine World.traced_bind (World.traced_mono hfetched (fun _ _ _ h _ => h.1))
      (World.traced_mono hfetched (fun _ _ _ h fetched hout => ?_))
    cases fetched with
    | error out => exact World.traced_done (by simpa using h.1)
    | ok existing => exact absurd hout (h.2 existing)
  exact hstaged fates (fun _ _ => trivial)

end Calm

/-! An archive that is to be had: the directory is emptied, whatever has been added to it. -/

section Emptied

lemma mayEnd_beside {α : Type} {p : PortProgram α} {a : α} {c' : Card}
    {l : List (Event PortOp PortOp.Reply PortFate)} (hp : p.Asks (fun e => transfers e = false))
    (h : (world L).mayEnd p a c c' l) : (beside L config files).mayEnd p a c c' l := by
  obtain ⟨fs, hfs⟩ := h
  exact ⟨fs, fun more => (exec_beside hp _ _).trans (hfs more)⟩

lemma run_report (progress : FirmwareProgress) : (world L).run .ok (report watched progress) c = (some true, c) := by
  cases watched <;> rfl

lemma run_inspect : (world L).run .ok (inspect config) c =
    (some (scanFirmwareDirectory (L.files c config.firmwareDir)), c) := rfl

lemma run_probe_eq (path : Bytes) : (world L).run .ok (probe path) c = (some (c.has path), c) := rfl

lemma run_makeRoom : (world L).run .ok (makeRoom config item) c =
    (some none, (c.erase (config.archiveFor item.id ++ ascii ".part")).erase (config.archiveFor item.id)) := rfl

lemma run_preflight (h : Ready L config item c) : (world L).run .ok (preflight config watched item) c =
    (some (.ok (scanFirmwareDirectory (L.files c config.firmwareDir))),
      (c.erase (config.archiveFor item.id ++ ascii ".part")).erase (config.archiveFor item.id)) := by
  have hours : (scanFirmwareDirectory (L.files c config.firmwareDir)).onlyFirmware = true :=
    onlyFirmware_scan_iff.mpr h.ours
  rw [preflight, if_neg (not_not.mpr h.kind), World.run_bind_of_some _ (run_report _)]
  simp only [Bool.not_true, Bool.false_eq_true, if_false]
  rw [World.run_bind_of_some _ run_inspect]
  simp only [hours, Bool.not_true, Bool.false_eq_true, if_false]
  rw [World.run_bind_of_some _ (run_probe_eq _)]
  simp only [h.installer, Bool.not_true, Bool.false_eq_true, if_false]
  rw [World.run_bind_of_some _ run_makeRoom]
  rfl

lemma run_clearSet (hconfig : config.Apart) : ∃ removed c',
    (world L).run .ok (clearSet config) c = (some (removed, none), c') ∧
      ∀ path, config.Below path → c'.lookup path = none := by
  have hwp := wp_clearSet (L := L) (c := c) (A := fun ev => ev.fate = .ok) hconfig
  obtain ⟨⟨removed, stuck⟩, c', hrun, hgone, hnever⟩ := World.run_of_wp (f := .ok) hwp
    (asks_clearSet (P := fun e => e ≠ .abort) nofun (fun _ => nofun)) (fun e c he => step_isSome L e c he)
    (fun _ _ => rfl)
  obtain rfl : stuck = none := hnever (fun _ _ => nofun)
  exact ⟨removed, c', hrun, hgone rfl⟩

def Unread (l : List (Event PortOp PortOp.Reply PortFate)) : Prop := ∀ ev ∈ l, ∀ entries, ev.fate ≠ .archived entries

lemma unread_of_ok {l : List (Event PortOp PortOp.Reply PortFate)} (h : ∀ ev ∈ l, ev.fate = .ok) : Unread l := by
  intro ev hev entries
  simp [h ev hev]

lemma Unread.append {l l' : List (Event PortOp PortOp.Reply PortFate)} (h : Unread l) (h' : Unread l') :
    Unread (l ++ l') :=
  List.forall_mem_append.mpr ⟨h, h'⟩

lemma mayEnd_report (progress : FirmwareProgress) (c : Card) :
    ∃ l, (beside L config files).mayEnd (report watched progress) true c c l ∧ Unread l := by
  obtain ⟨l, hl, hok⟩ := World.mayEnd_of_run (run_report (L := L) (c := c) progress)
  exact ⟨l, mayEnd_beside (asks_report transfers_quiet progress) hl, unread_of_ok hok⟩

lemma mayEnd_fetchArchive (hget : Obtainable item) (c : Card) : ∃ c' l,
    (beside L config files).mayEnd (fetchArchive config watched item) none c c' l ∧
      l.any (fun ev => transfers ev.asked) = true ∧ Unread l := by
  obtain ⟨body, hbody⟩ := hget
  obtain ⟨l, hreport, hunread⟩ := @mayEnd_report L config watched files
    ⟨.downloading, 0, item.size.toNat, item.name⟩ c
  have hserved : (fetch (config.archiveFor item.id) ⟨item.size, item.sha256⟩ c (.served body)).1 = .none := hbody
  have hstep : (beside L config files).step
      (.download item.url (config.archiveFor item.id) ⟨item.size, item.sha256⟩) (.served body) c =
        (some HttpError.none, adding config files
          (fetch (config.archiveFor item.id) ⟨item.size, item.sha256⟩ c (.served body)).2) := by
    rw [← hserved]
    rfl
  refine ⟨_, _, World.mayEnd_bind hreport (World.mayEnd_call hstep World.mayEnd_done), ?_, hunread.append ?_⟩
  · simp [transfers]
  · simp [Unread]

lemma mayEnd_fetchSet (hready : Ready L config item c) (hget : Obtainable item) : ∃ existing c' l,
    (beside L config files).mayEnd (fetchSet config watched item) (.ok existing) c c' l ∧
      l.any (fun ev => transfers ev.asked) = true ∧ Unread l := by
  obtain ⟨l, hpreflight, hok⟩ := World.mayEnd_of_run (@run_preflight L config watched item c hready)
  have hasks : (preflight config watched item).Asks (fun e => transfers e = false) :=
    asks_preflight transfers_quiet ⟨rfl, fun _ => ⟨rfl, fun _ => trivial⟩⟩
  obtain ⟨c', l', harchive, hasked, hunread⟩ := @mayEnd_fetchArchive L config watched item files hget
    ((c.erase (config.archiveFor item.id ++ ascii ".part")).erase (config.archiveFor item.id))
  refine ⟨_, c', _, World.mayEnd_bind (mayEnd_beside hasks hpreflight)
    (World.mayEnd_bind harchive World.mayEnd_done), ?_, (unread_of_ok hok).append ?_⟩
  · simp [hasked]
  · simpa using hunread

lemma mayReach_emptied (hconfig : config.Apart) (hready : Ready L config item c) (hget : Obtainable item) :
    ∃ c' l, (beside L config files).mayReach (stage config watched item) c c' l ∧
      l.any (fun ev => transfers ev.asked) = true ∧ ∀ path, config.Below path → c'.lookup path = none := by
  obtain ⟨existing, c₁, l₁, hfetched, hasked, _⟩ := @mayEnd_fetchSet L config watched item files c hready hget
  obtain ⟨l₂, hreport, _⟩ := @mayEnd_report L config watched files
    ⟨.clearing, 0, existing.firmwareFiles, config.firmwareDir⟩ c₁
  obtain ⟨removed, c', hrun, hgone⟩ := run_clearSet (L := L) (c := c₁) hconfig
  obtain ⟨l₃, hcleared, _⟩ := World.mayEnd_of_run hrun
  replace hcleared := @mayEnd_beside L config files _ _ _ _ _ _
    (asks_clearSet (P := fun e => transfers e = false) rfl (fun _ => rfl)) hcleared
  refine ⟨c', _, World.mayReach_bind hfetched (World.mayReach_bind hreport
    (World.mayReach_bind hcleared (World.mayReach_refl _ _))), ?_, hgone⟩
  simp [hasked]

end Emptied

namespace Sample

def note : Addition := ⟨ascii "note.txt", [7], by decide⟩

def nca : Addition := ⟨ascii "a.nca", [7], by decide⟩

def clearing : List PortFate := List.replicate 6 .ok ++ .served [0] :: List.replicate 3 .ok

end Sample

theorem others_are_spared_iff (L : Listing) (config : FirmwareConfig) (watched : Bool) (item : Item)
    (files : List Addition) (c : Card) (hconfig : config.Apart) :
    SparesOthers L config watched item files c ↔
      (Ready L config item c → Obtainable item → ∀ f ∈ files, isFirmwareContent (baseName f.relative) = true) := by
  constructor
  · intro hspares hready hget f hf
    by_contra hother
    obtain ⟨c', l, ⟨fates, rfl, rfl⟩, hasked, hgone⟩ :=
      @mayReach_emptied L config watched item files c hconfig hready hget
    have hthere := hspares fates (f.path config) (below_path f config)
      (by rw [Addition.path, baseName_below]; simpa using hother) (.inr ⟨hasked, f, hf, rfl⟩)
    rw [stagedBeside, Card.has, hgone _ (below_path f config)] at hthere
    cases hthere
  · intro hfirmware fates path hpath hother hthere
    by_cases hempties : Ready L config item c ∧ Obtainable item
    · exfalso
      obtain ⟨relative, hne, rfl⟩ := hpath
      rw [baseName_below] at hother
      rcases hthere with hthere | ⟨_, f, hf, heq⟩
      · have hlisted := hempties.1.ours relative ((L.complete _ _ _).mpr ⟨hne, hthere⟩)
        simp [hother] at hlisted
      · obtain rfl : f.relative = relative := List.append_cancel_left heq
        have hcontent := hfirmware hempties.1 hempties.2 f hf
        simp [hother] at hcontent
    · have hsteady := @steady_of_unobtainable L config watched item files c hconfig hempties fates
      rcases hthere with hthere | ⟨hasked, f, hf, rfl⟩
      · exact hsteady.1 path hpath hthere
      · exact hsteady.2 hasked f hf

theorem further_set_spares_others : SparesOthers .stored {} false Sample.item [Sample.nca] Sample.card := by
  refine (others_are_spared_iff _ _ _ _ _ _ apart_default).mpr (fun _ _ f hf => ?_)
  rw [List.mem_singleton.mp hf]
  decide

theorem note_is_not_spared : ¬SparesOthers .stored {} false Sample.item [Sample.note] Sample.card := by
  intro h
  have hthere := h Sample.clearing (Sample.note.path {}) (below_path _ _) (by decide)
    (.inr ⟨by decide +kernel, Sample.note, List.mem_singleton_self _, rfl⟩)
  exact absurd hthere (by decide +kernel)

end NsxManager.Firmware
