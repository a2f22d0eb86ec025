import NsxManager.Cfw.Atomic
import NsxManager.Firmware.Stage

/-! A firmware set is replaced whole, and only by one that has been verified. -/

namespace NsxManager.Firmware

open NsxManager.Core Lib Infra Catalog Ports

def FirmwareConfig.Below (config : FirmwareConfig) (path : Bytes) : Prop :=
  ∃ relative, relative ≠ [] ∧ path = config.firmwareDir ++ ascii "/" ++ relative

structure FirmwareConfig.Apart (config : FirmwareConfig) : Prop where
  bare : ∃ c, config.firmwareDir.getLast? = some c ∧ c ≠ byte '/'
  archive : ∀ id rest, ¬config.Below (config.archiveFor id ++ rest)

lemma apart_default : ({} : FirmwareConfig).Apart where
  bare := ⟨byte 'e', rfl, by decide⟩
  archive := by
    rintro id rest ⟨relative, -, heq⟩
    have hsecond : (byte 'c') = byte 'f' := congrArg (fun p : Bytes => p.getD 1 0) heq
    exact absurd hsecond (by decide)

section Asks

variable {config : FirmwareConfig} {watched : Bool} {item : Item} {P : PortOp → Prop}

section

variable (hquiet : ∀ e : PortOp, e.changes = [] → P e) (hdiscard : (discardStaging config item.id).Asks P)

include hquiet

lemma asks_quiet {e : PortOp} (h : e.changes = []) : (Program.request e : PortProgram e.Reply).Asks P :=
  ⟨hquiet e h, fun _ => trivial⟩

lemma asks_report (progress : FirmwareProgress) : (report watched progress).Asks P := by
  cases watched with
  | true => exact ⟨hquiet _ rfl, fun _ => trivial⟩
  | false => trivial

include hdiscard

omit hquiet in
lemma asks_discarding (out : FirmwareOutcome) : (discarding config item out).Asks P :=
  hdiscard.bind (fun _ => trivial)

lemma asks_makeRoom : (makeRoom config item).Asks P := by
  refine hdiscard.bind (fun _ => ?_)
  refine (asks_quiet hquiet (e := .makeDirectories config.stagingRoot) rfl).bind (fun made => ?_)
  split
  · trivial
  refine (asks_quiet hquiet (e := .freeSpaceBytes config.stagingRoot) rfl).bind (fun free => ?_)
  split <;> trivial

lemma asks_preflight : (preflight config watched item).Asks P := by
  unfold preflight
  split
  · trivial
  refine (asks_report hquiet _).bind (fun going => ?_)
  split
  · trivial
  have hinspect : (inspect config).Asks P := ⟨hquiet _ rfl, fun _ => trivial⟩
  refine hinspect.bind (fun existing => ?_)
  split
  · trivial
  refine (asks_quiet hquiet (e := .probe config.daybreakNro) rfl).bind (fun installer => ?_)
  split
  · trivial
  refine (asks_makeRoom hquiet hdiscard).bind (fun stopped => ?_)
  cases stopped <;> trivial

variable (hdownload : P (.download item.url (config.archiveFor item.id) ⟨item.size, item.sha256⟩))

include hdownload

lemma asks_fetchArchive : (fetchArchive config watched item).Asks P := by
  refine (asks_report hquiet _).bind (fun going => ?_)
  split
  · trivial
  have hrequest : (Ports.download item.url (config.archiveFor item.id) ⟨item.size, item.sha256⟩).Asks P :=
    ⟨hdownload, fun _ => trivial⟩
  refine hrequest.bind (fun error => ?_)
  split
  · exact (asks_discarding hdiscard _).bind (fun _ => trivial)
  · trivial

lemma asks_fetchSet : (fetchSet config watched item).Asks P := by
  refine (asks_preflight hquiet hdiscard).bind (fun prepared => ?_)
  cases prepared with
  | error out => trivial
  | ok existing =>
    refine (asks_fetchArchive hquiet hdiscard hdownload).bind (fun stopped => ?_)
    cases stopped <;> trivial

end

abbrev Abstains (config : FirmwareConfig) : PortOp → Prop := PortOp.Spares config.Below

lemma abstains_quiet (e : PortOp) (h : e.changes = []) : Abstains config e := by
  intro p hp
  rw [h] at hp
  cases hp

lemma FirmwareConfig.Apart.join (hconfig : config.Apart) (relative : Bytes) :
    Cfw.join config.firmwareDir relative = config.firmwareDir ++ ascii "/" ++ relative := by
  obtain ⟨c, hlast, hc⟩ := hconfig.bare
  exact Cfw.Workspace.join_of_getLast hlast hc relative

lemma abstains_discardStaging (hconfig : config.Apart) (id : Bytes) :
    (discardStaging config id).Asks (Abstains config) := by
  have hremove : ∀ rest, Abstains config (.remove (config.archiveFor id ++ rest)) := by
    intro rest p hp
    rw [List.mem_singleton.mp hp]
    exact hconfig.archive id rest
  have harchive := hremove []
  rw [List.append_nil] at harchive
  exact ⟨hremove _, fun _ => ⟨harchive, fun _ => trivial⟩⟩

lemma abstains_discarding (hconfig : config.Apart) (out : FirmwareOutcome) :
    (discarding config item out).Asks (Abstains config) :=
  asks_discarding (abstains_discardStaging hconfig item.id) out

lemma abstains_fetchSet (hconfig : config.Apart) : (fetchSet config watched item).Asks (Abstains config) := by
  refine asks_fetchSet abstains_quiet (abstains_discardStaging hconfig item.id) (fun p hp => ?_)
  rw [List.mem_singleton.mp hp, ← List.append_nil (config.archiveFor item.id)]
  exact hconfig.archive item.id []

end Asks

/-! The clearing. -/

section Clear

variable {config : FirmwareConfig} {L : Listing} {c : Card}

lemma asks_clearSet {P : PortOp → Prop} (hlist : P (.listFilesRecursive config.firmwareDir))
    (hremove : ∀ path, P (.remove path)) : (clearSet config).Asks P := by
  have hloop : ∀ names removed, (clearLoop config removed names).Asks P := by
    intro names
    induction names with
    | nil => exact fun _ => trivial
    | cons relative rest ih =>
      refine fun removed => ⟨hremove _, fun gone => ?_⟩
      cases gone with
      | false => trivial
      | true => exact ih (removed + 1)
  exact ⟨hlist, fun names => hloop names 0⟩

variable {A : Event PortOp PortOp.Reply PortFate → Prop}

lemma wp_clearLoop (names : List Bytes) (removed : ℕ) (P : Bytes → Prop)
    (h : ∀ relative, P relative → relative ∉ names → c.lookup (Cfw.join config.firmwareDir relative) = none) :
    (world L).wp A (fun _ => True) (clearLoop config removed names)
      (fun out c' => (out.2 = none → ∀ relative, P relative →
        c'.lookup (Cfw.join config.firmwareDir relative) = none) ∧
        ((∀ path r, ¬A ⟨.remove path, .fails, r⟩) → out.2 = none)) c := by
  induction names generalizing removed c with
  | nil => exact ⟨fun _ relative hP => h relative hP List.not_mem_nil, fun _ => rfl⟩
  | cons name rest ih =>
    have hgone : ∀ c' : Card, c'.lookup (Cfw.join config.firmwareDir name) = none →
        (∀ p, c'.lookup p = none ∨ c'.lookup p = c.lookup p) → ∀ relative, P relative → relative ∉ rest →
          c'.lookup (Cfw.join config.firmwareDir relative) = none := by
      intro c' hname hother relative hP hrest
      by_cases heq : relative = name
      · rw [heq, hname]
      · rcases hother (Cfw.join config.firmwareDir relative) with hnone | hsame
        · exact hnone
        · rw [hsame]
          exact h relative hP (by simp [heq, hrest])
    refine wp_remove trivial (fun hfails => ?_) ?_
    · cases hthere : c.has (Cfw.join config.firmwareDir name) with
      | true => exact ⟨fun hnone => absurd hnone (Option.some_ne_none _), fun hnever => absurd hfails (hnever _ _)⟩
      | false => exact ih (removed + 1) (hgone c ((c.has_eq_false _).mp hthere) (fun _ => .inr rfl))
    · refine ih (removed + 1) (hgone _ (AList.lookup_erase _ _) (fun p => ?_))
      rw [Card.lookup_erase_eq]
      split
      · exact .inl rfl
      · exact .inr rfl

lemma wp_clearSet (hconfig : config.Apart) :
    (world L).wp A (fun _ => True) (clearSet config)
      (fun out c' => (out.2 = none → ∀ p, config.Below p → c'.lookup p = none) ∧
        ((∀ path r, ¬A ⟨.remove path, .fails, r⟩) → out.2 = none)) c := by
  refine wp_listFilesRecursive trivial (World.wp_mono (wp_clearLoop _ 0 (· ≠ []) ?_) (fun _ h => h)
    (fun _ h => h) ?_)
  · intro relative hne hunlisted
    rw [L.complete, hconfig.join] at *
    exact (c.has_eq_false _).mp (by simpa [hne] using hunlisted)
  · rintro out c' ⟨hcleared, hnever⟩
    refine ⟨?_, hnever⟩
    rintro hnone p ⟨relative, hne, rfl⟩
    rw [← hconfig.join]
    exact hcleared hnone relative hne

end Clear

/-! What is in the firmware directory comes from one set. -/

section Unmixed

variable {config : FirmwareConfig} {watched : Bool} {item : Item} {L : Listing} {c : Card} {n : ℕ} {α : Type}
  {p : PortProgram α}

lemma unmixed_of_abstains (h : p.Asks (Abstains config)) : (ledger L).unmixed config.Below n p c :=
  World.Ledger.unmixed_of_asks (h.mono (fun e he f r path hpath =>
    not_puts_of_creates (fun hmem => he path (e.creates_subset_changes hmem) hpath) f r))

lemma unmixed_clearSet : (ledger L).unmixed config.Below n (clearSet config) c := by
  have hasks : (clearSet config).Asks (fun e => e.creates = []) := asks_clearSet rfl (fun _ => rfl)
  refine World.Ledger.unmixed_of_asks (hasks.mono (fun e he f r path _ => not_puts_of_creates ?_ f r))
  rw [he]
  exact List.not_mem_nil

variable (hconfig : config.Apart)

include hconfig

lemma unmixed_replaceSet (existing : FirmwareDirectoryScan) :
    (ledger L).unmixed config.Below n (replaceSet config watched item existing) c := by
  have hreport : ∀ progress, (report watched progress).Asks (Abstains config) :=
    asks_report abstains_quiet
  have hdiscard : ∀ out c', (ledger L).unmixed config.Below n (discarding config item out) c' :=
    fun out _ => unmixed_of_abstains (abstains_discarding hconfig out)
  refine World.Ledger.unmixed_bind (unmixed_of_abstains (hreport _)) (fun fates going _ => ?_)
  cases going with
  | false => exact hdiscard _ _
  | true =>
    -- only a clearing that was not stopped is followed by the extraction
    refine World.Ledger.unmixed_bind unmixed_clearSet
      (World.returns_mono (World.returns_of_wp (wp_clearSet hconfig)) (fun out c' _ hcleared => ?_))
    rcases out with ⟨removed, _ | relative⟩
    · exact World.Ledger.unmixed_of_vacant (fun path hpath => (c'.has_eq_false path).mpr (hcleared.1 rfl path hpath))
    · exact hdiscard _ _

lemma unmixed_stage : (ledger L).unmixed config.Below n (stage config watched item) c := by
  refine World.Ledger.unmixed_bind (unmixed_of_abstains (abstains_fetchSet hconfig)) (fun fates fetched _ => ?_)
  cases fetched with
  | error out => exact unmixed_of_abstains trivial
  | ok existing => exact unmixed_replaceSet hconfig existing

end Unmixed

/-! The set that is there goes only when its replacement has been verified. -/

section Verified

variable {config : FirmwareConfig} {watched : Bool} {item : Item} {L : Listing} {c : Card}

def Verified (config : FirmwareConfig) (item : Item) (log : List (Event PortOp PortOp.Reply PortFate)) : Prop :=
  ∃ ev ∈ log, ev.asked = .download item.url (config.archiveFor item.id) ⟨item.size, item.sha256⟩ ∧
    ∃ body, ev.fate = .served body ∧ body.length = item.size.toNat ∧ Sha256.of body = item.sha256

lemma Verified.append_left {l : List (Event PortOp PortOp.Reply PortFate)} (h : Verified config item l)
    (l' : List (Event PortOp PortOp.Reply PortFate)) : Verified config item (l' ++ l) := by
  obtain ⟨ev, hev, h⟩ := h
  exact ⟨ev, List.mem_append_right _ hev, h⟩

lemma Verified.append_right {l : List (Event PortOp PortOp.Reply PortFate)} (h : Verified config item l)
    (l' : List (Event PortOp PortOp.Reply PortFate)) : Verified config item (l ++ l') := by
  obtain ⟨ev, hev, h⟩ := h
  exact ⟨ev, List.mem_append_left _ hev, h⟩

lemma returns_fetchArchive : (world L).returns (fetchArchive config watched item)
    (fun stopped _ l => stopped = none → Verified config item l) c := by
  refine World.returns_bind (fun fates going _ => ?_)
  cases going with
  | false => exact World.returns_done (fun hnone => absurd hnone (Option.some_ne_none _))
  | true =>
    refine returns_download (fun f => ?_)
    intro fates' stopped hstopped hnone
    by_cases herror : (fetch (config.archiveFor item.id) ⟨item.size, item.sha256⟩
        ((world L).exec (report watched ⟨.downloading, 0, item.size.toNat, item.name⟩) fates c).state f).1 = .none
    · obtain ⟨body, hbody⟩ := served_of_fetch herror
      exact ⟨_, List.mem_append_right _ List.mem_cons_self, rfl, body, hbody⟩
    · rw [if_pos herror] at hstopped
      obtain ⟨out, _, heq⟩ := (world L).exec_bind_some hstopped
      rw [heq, Program.pure_eq, World.exec_done] at hstopped
      exact absurd (Option.some.inj hstopped) (by simp [hnone])

lemma returns_fetchSet : (world L).returns (fetchSet config watched item)
    (fun fetched _ l => ∀ existing, fetched = .ok existing → Verified config item l) c := by
  refine World.returns_bind (fun fates prepared _ => ?_)
  cases prepared with
  | error out => exact World.returns_done (fun existing h => nomatch h)
  | ok existing =>
    refine World.returns_bind (World.returns_mono returns_fetchArchive (fun stopped t l hverified => ?_))
    cases stopped with
    | some out => exact World.returns_done (fun existing h => nomatch h)
    | none =>
      refine World.returns_done (fun _ _ => ?_)
      rw [List.append_nil]
      exact (hverified rfl).append_left _

lemma verified_of_changed (hconfig : config.Apart) (fates : List PortFate) {path : Bytes} (hpath : config.Below path)
    (hchanged : ((world L).exec (stage config watched item) fates c).state.lookup path ≠ c.lookup path) :
    Verified config item ((world L).exec (stage config watched item) fates c).log := by
  have hsame : ((world L).exec (fetchSet config watched item) fates c).state.lookup path = c.lookup path :=
    lookup_exec (abstains_fetchSet hconfig) fates hpath
  rw [stage, World.exec_bind] at hchanged ⊢
  cases hfetched : ((world L).exec (fetchSet config watched item) fates c).outcome with
  | none =>
    rw [hfetched] at hchanged
    exact absurd hsame hchanged
  | some fetched =>
    rw [hfetched] at hchanged
    cases fetched with
    | error out => exact absurd hsame hchanged
    | ok existing => exact (returns_fetchSet fates _ hfetched existing rfl).append_right _

end Verified

/-! Runs of any number of calls, each of which may be cut off anywhere. -/

/-- The card, and for each of its files the number of the call that put it there; the files that were there
at the start have the number 0. -/
structure Scene where
  card : Card
  origin : Bytes → ℕ

def Scene.after (s : Scene) (L : Listing) (config : FirmwareConfig) (watched : Bool) (item : Item)
    (fates : List PortFate) (n : ℕ) : Scene :=
  ⟨((world L).exec (stage config watched item) fates s.card).state,
    (ledger L).stamp n ((world L).exec (stage config watched item) fates s.card).log s.origin⟩

inductive Reachable (L : Listing) (config : FirmwareConfig) (start : Card) : ℕ → Scene → Prop
  | start : Reachable L config start 0 ⟨start, fun _ => 0⟩
  | call {n : ℕ} {s : Scene} (watched : Bool) (item : Item) (fates : List PortFate) :
      Reachable L config start n s → Reachable L config start (n + 1) (s.after L config watched item fates (n + 1))
  | elsewhere {n : ℕ} {s : Scene} (card : Card) : (∀ path, config.Below path → card.lookup path = s.card.lookup path) →
      Reachable L config start n s → Reachable L config start n ⟨card, s.origin⟩

lemma Reachable.uniform {L : Listing} {config : FirmwareConfig} {start : Card} {n : ℕ} {s : Scene}
    (hconfig : config.Apart) (h : Reachable L config start n s) :
    (ledger L).Uniform config.Below s.card s.origin := by
  induction h with
  | start => exact ⟨0, fun _ _ _ => rfl⟩
  | call watched item fates _ ih => exact unmixed_stage hconfig fates _ ih
  | elsewhere card hsame _ ih =>
    obtain ⟨m, hm⟩ := ih
    refine ⟨m, fun path hpath hthere => hm path hpath ?_⟩
    have hlookup := congrArg Option.isSome (hsame path hpath)
    exact hlookup.symm.trans hthere

namespace Sample

def item : Item :=
  { id := ascii "f", name := ascii "f", target := .firmwareStaging, versionText := [], url := [], size := 1,
    sha256 := Sha256.of [0], honourPreserveRules := false, summary := [], kind := .firmware, version := none,
    minAtmosphere := none, notesUrl := [] }

def card : Card := Cfw.Sample.cardOf [(ascii "/switch/daybreak.nro", [1]), (ascii "/firmware/o.nca", [2])]

def replacing : List PortFate :=
  List.replicate 6 .ok ++ .served [0] :: List.replicate 3 .ok ++ .archived [⟨ascii "n.nca", 1, [3]⟩] ::
    List.replicate 5 .ok

end Sample

theorem firmware_is_replaced_whole_and_late (L : Listing) (start : Card) (n : ℕ) (s : Scene)
    (h : Reachable L {} start n s) :
    (∃ set, ∀ path, ({} : FirmwareConfig).Below path → s.card.has path = true → s.origin path = set) ∧
      ∀ watched item fates path, ({} : FirmwareConfig).Below path →
        ((world L).exec (stage {} watched item) fates s.card).state.lookup path ≠ s.card.lookup path →
        Verified {} item ((world L).exec (stage {} watched item) fates s.card).log :=
  ⟨h.uniform apart_default, fun _ _ fates _ hpath hchanged => verified_of_changed apart_default fates hpath hchanged⟩

theorem sample_set_is_replaced :
    let s := (Scene.mk Sample.card (fun _ => 0)).after .stored {} false Sample.item Sample.replacing 1
    (s.card.has (ascii "/firmware/o.nca") = false ∧ s.card.has (ascii "/firmware/n.nca") = true) ∧
      ∃ set, ∀ path, ({} : FirmwareConfig).Below path → s.card.has path = true → s.origin path = set :=
  ⟨by decide +kernel, (firmware_is_replaced_whole_and_late .stored Sample.card 1 _
    (.call false Sample.item Sample.replacing .start)).1⟩

end NsxManager.Firmware
