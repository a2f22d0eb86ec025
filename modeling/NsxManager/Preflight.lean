import NsxManager.Cfw.Fetch
import NsxManager.Core.JsonCodec
import NsxManager.Firmware.Stage
import NsxManager.SelfUpdate.Retries

/-! The space the services ask for before a download, in 64 bits and without a bound. -/

namespace NsxManager.Preflight

open NsxManager.Core Lib

open SelfUpdate (isDownload)

def room (size : UInt64) (percent : ℕ) : ℕ := size.toNat + size.toNat * percent / 100

section Arithmetic

variable {size percent : UInt64}

lemma toNat_needed : (size + size * percent / 100).toNat =
    (size.toNat + size.toNat * percent.toNat % 2 ^ 64 / 100) % 2 ^ 64 := by
  rw [UInt64.toNat_add, UInt64.toNat_div, UInt64.toNat_mul]
  rfl

lemma toNat_needed_of_fits (hpercent : 2 ≤ percent.toNat) (h : size.toNat * percent.toNat < 2 ^ 64) :
    (size + size * percent / 100).toNat = room size percent.toNat := by
  have hdouble : size.toNat * 2 ≤ size.toNat * percent.toNat := Nat.mul_le_mul_left _ hpercent
  rw [toNat_needed, room, Nat.mod_eq_of_lt h, Nat.mod_eq_of_lt]
  generalize size.toNat * percent.toNat = product at *
  omega

lemma toNat_needed_lt (h : 2 ^ 64 ≤ size.toNat * percent.toNat) :
    (size + size * percent / 100).toNat < room size percent.toNat := by
  rw [toNat_needed, room]
  generalize size.toNat * percent.toNat = product at *
  refine lt_of_le_of_lt (Nat.mod_le _ _) ?_
  omega

end Arithmetic

def answeredSpace : Event PortOp PortOp.Reply PortFate → Option (Option UInt64)
  | ⟨.freeSpaceBytes _, _, free⟩ => some free
  | _ => none

def reading (log : List (Event PortOp PortOp.Reply PortFate)) : Option (Option UInt64) := log.findSome? answeredSpace

def Quiet : PortOp → Prop
  | .freeSpaceBytes _ | .download _ _ _ | .abort => False
  | _ => True

lemma answeredSpace_of_quiet {ev : Event PortOp PortOp.Reply PortFate} (h : Quiet ev.asked) :
    answeredSpace ev = none := by
  obtain ⟨e, fate, reply⟩ := ev
  cases e with
  | freeSpaceBytes directory => exact h.elim
  | _ => rfl

lemma not_isDownload_of_quiet {e : PortOp} (h : Quiet e) : isDownload e = false := by
  cases e with
  | download url destination expected => exact h.elim
  | _ => rfl

def Exact {α : Type} (bound : ℕ) (Short : α → Prop) (p : PortProgram α) : Prop :=
  ∀ (L : Listing) (c : Card) (fates : List PortFate) (free : UInt64),
    reading ((Ports.world L).exec p fates c).log = some (some free) → free.toNat < bound →
      (∃ out, ((Ports.world L).exec p fates c).outcome = some out ∧ Short out) ∧
        ∀ ev ∈ ((Ports.world L).exec p fates c).log, isDownload ev.asked = false

section Heeds

variable {α β : Type} {L : Listing} {bound : ℕ} {Short : α → Prop} {c : Card}

def Heeds (L : Listing) (bound : ℕ) (Short : α → Prop) (p : PortProgram α) (c : Card) : Prop :=
  (Ports.world L).traced (fun _ => True) p (fun out _ log => ∀ free, reading log = some (some free) →
    free.toNat < bound → (∃ a, out = some a ∧ Short a) ∧ ∀ ev ∈ log, isDownload ev.asked = false) c

lemma exact_of_heeds {p : PortProgram α} (h : ∀ L c, Heeds L bound Short p c) : Exact bound Short p :=
  fun L c fates => h L c fates (fun _ _ => trivial)

lemma heeds_done (a : α) : Heeds L bound Short (pure a) c := World.traced_done (fun _ h => by cases h)

lemma heeds_bind {p : PortProgram β} {k : β → PortProgram α} (hp : p.Asks Quiet)
    (hk : ∀ b c', Heeds L bound Short (k b) c') : Heeds L bound Short (p >>= k) c := by
  have hquiet : (Ports.world L).traced (fun _ => True) p (fun _ _ log => ∀ ev ∈ log, Quiet ev.asked) c :=
    World.traced_of_asks hp
  have hsilent : ∀ log : List (Event PortOp PortOp.Reply PortFate), (∀ ev ∈ log, Quiet ev.asked) →
      log.findSome? answeredSpace = none :=
    fun log h => List.findSome?_eq_none_iff.mpr (fun ev hev => answeredSpace_of_quiet (h ev hev))
  refine World.traced_bind (World.traced_mono hquiet (fun _ _ log hlog _ free hfree => ?_))
    (World.traced_mono hquiet (fun _ t log hlog b _ => World.traced_mono (hk b t) (fun _ _ more hmore free hfree hlt => ?_)))
  · rw [reading, hsilent log hlog] at hfree
    cases hfree
  · rw [reading, List.findSome?_append, hsilent log hlog, Option.none_or] at hfree
    obtain ⟨hout, hnone⟩ := hmore free hfree hlt
    refine ⟨hout, fun ev hev => ?_⟩
    rcases List.mem_append.mp hev with hev | hev
    · exact not_isDownload_of_quiet (hlog ev hev)
    · exact hnone ev hev

lemma heeds_check {directory : Bytes} {k : Option UInt64 → PortProgram α}
    (hk : ∀ free : UInt64, free.toNat < bound → ∃ a, k (some free) = pure a ∧ Short a) :
    Heeds L bound Short (Ports.freeSpaceBytes directory >>= k) c := by
  have hnext : ∀ (fate : PortFate) (answer : Option UInt64),
      (Ports.world L).traced (fun _ => True) (k answer) (fun out _ log => ∀ free,
        reading (⟨.freeSpaceBytes directory, fate, answer⟩ :: log) = some (some free) → free.toNat < bound →
          (∃ a, out = some a ∧ Short a) ∧
            ∀ ev ∈ ⟨.freeSpaceBytes directory, fate, answer⟩ :: log, isDownload ev.asked = false) c := by
    intro fate answer fates _ free hfree hlt
    obtain rfl : answer = some free := Option.some.inj hfree
    obtain ⟨a, hshort, ha⟩ := hk free hlt
    rw [hshort]
    exact ⟨⟨a, rfl, ha⟩, by simp [isDownload]⟩
  exact World.traced_call (fun _ h => by cases h) (fun fate _ => hnext fate _)

end Heeds

section Reaches

variable {α β : Type} {L : Listing} {free : UInt64} {c : Card}

def Reaches (L : Listing) (free : UInt64) (p : PortProgram α) (c : Card) : Prop :=
  ∃ fates, reading ((Ports.world L).exec p fates c).log = some (some free) ∧
    ∃ ev ∈ ((Ports.world L).exec p fates c).log, isDownload ev.asked = true

lemma not_exact_of_reaches {bound : ℕ} {Short : α → Prop} {p : PortProgram α} (h : Reaches L free p c)
    (hlt : free.toNat < bound) : ¬Exact bound Short p := by
  obtain ⟨fates, hread, ev, hev, hdownload⟩ := h
  intro hexact
  have hnone := (hexact L c fates free hread hlt).2 ev hev
  rw [hdownload] at hnone
  cases hnone

lemma reaches_next {e : PortOp} {next : e.Reply → PortProgram α} {fate : PortFate} {r : e.Reply} {c' : Card}
    (hquiet : Quiet e) (hstep : (Ports.world L).step e fate c = (some r, c')) (h : Reaches L free (next r) c') :
    Reaches L free (.call e next) c := by
  obtain ⟨fates, hread, ev, hev, hdownload⟩ := h
  have hsilent : answeredSpace ⟨e, fate, r⟩ = none := answeredSpace_of_quiet hquiet
  refine ⟨fate :: fates, ?_, ev, ?_, hdownload⟩
  · rw [World.exec_cons, hstep, reading, List.findSome?_cons, hsilent]
    exact hread
  · rw [World.exec_cons, hstep]
    exact List.mem_cons_of_mem _ hev

lemma reaches_after {p : PortProgram β} {k : β → PortProgram α} {f : PortFate} {b : β} {c' : Card}
    (hp : p.Asks Quiet) (hrun : (Ports.world L).run f p c = (some b, c')) (h : Reaches L free (k b) c') :
    Reaches L free (p >>= k) c := by
  induction p generalizing c with
  | done a =>
    obtain ⟨rfl, rfl⟩ : a = b ∧ c = c' := by simpa using hrun
    exact h
  | call e next ih =>
    rw [World.run_call] at hrun
    rcases hstep : (Ports.world L).step e f c with ⟨r | r, d⟩
    · simp [hstep] at hrun
    · rw [hstep] at hrun
      exact reaches_next hp.1 hstep (ih r (hp.2 r) hrun)

lemma reaches_check {directory : Bytes} {k : Option UInt64 → PortProgram α}
    (h : (Ports.world L).mayAsk (k (some free)) (fun e => isDownload e = true) c) :
    Reaches L free (Ports.freeSpaceBytes directory >>= k) c := by
  obtain ⟨fates, ev, hev, hdownload⟩ := h
  exact ⟨.space (some free) :: fates, rfl, ev, List.mem_cons_of_mem _ hev, hdownload⟩

end Reaches

lemma exact_iff {α : Type} {size : UInt64} {Short : α → Prop} {p : PortProgram α} (percent : UInt64)
    (hpercent : 2 ≤ percent.toNat)
    (hheeds : ∀ L c, Heeds L (size + size * percent / 100).toNat Short p c)
    (hreaches : ∃ L c, Reaches L (size + size * percent / 100) p c) :
    Exact (room size percent.toNat) Short p ↔ size.toNat * percent.toNat < 2 ^ 64 := by
  constructor
  · intro hexact
    by_contra hover
    obtain ⟨L, c, hreach⟩ := hreaches
    exact not_exact_of_reaches hreach (toNat_needed_lt (by omega)) hexact
  · intro hfits
    rw [← toNat_needed_of_fits hpercent hfits]
    exact exact_of_heeds hheeds

lemma filter_of_lt {free needed : UInt64} (h : free.toNat < needed.toNat) :
    (some free).filter (· < needed) = some free := by
  simpa [Option.filter] using UInt64.lt_iff_toNat_lt.mpr h

lemma filter_self (needed : UInt64) : (some needed).filter (· < needed) = none := by
  simp [Option.filter]

lemma asks_quiet {e : PortOp} (h : Quiet e) : (Program.request e : PortProgram e.Reply).Asks Quiet :=
  ⟨h, fun _ => trivial⟩

lemma run_quiet {α : Type} {L : Listing} {p : PortProgram α} (hp : p.Asks Quiet) (c : Card) :
    ∃ a c', (Ports.world L).run .ok p c = (some a, c') := by
  have hwp : (Ports.world L).wp (fun _ => True) (fun _ => True) p (fun _ _ => True) c :=
    World.wp_of_asks hp trivial (fun _ _ _ _ _ => trivial)
  have hanswer : ∀ e c, Quiet e → ((Ports.world L).step e .ok c).1.isSome = true := by
    intro e c he
    cases e with
    | abort => exact he.elim
    | _ => rfl
  obtain ⟨a, c', hrun, _⟩ := World.run_of_wp (f := .ok) hwp hp hanswer (fun _ _ => trivial)
  exact ⟨a, c', hrun⟩

section Services

variable {L : Listing} {c : Card}

section SelfUpdate

variable {J : JsonLibrary} {config : SelfUpdate.SelfUpdateConfig} {manifest : UpdateManifest} {asset : ManifestAsset}

lemma heeds_stage (hasset : manifest.findAsset .appNro = some asset) :
    Heeds L (SelfUpdate.needed config asset).toNat (fun out => out.result = .insufficientSpace)
      (SelfUpdate.stage J config manifest) c := by
  simp only [SelfUpdate.stage, hasset]
  refine heeds_bind (asks_quiet (e := .makeDirectories config.stagingDir) trivial) (fun made c => ?_)
  cases made with
  | false => exact heeds_done _
  | true =>
    refine heeds_check (fun free hlt => ?_)
    rw [filter_of_lt hlt]
    exact ⟨_, rfl, rfl⟩

lemma reaches_stage (hasset : manifest.findAsset .appNro = some asset) :
    Reaches L (SelfUpdate.needed config asset) (SelfUpdate.stage J config manifest) c := by
  simp only [SelfUpdate.stage, hasset]
  refine reaches_after (p := Ports.makeDirectories config.stagingDir) (b := true) ⟨trivial, fun _ => trivial⟩
    (f := .ok) rfl (reaches_check ?_)
  rw [filter_self]
  refine World.mayAsk_next (f := PortFate.ok) (r := true) rfl ?_
  exact World.mayAsk_bind (p := SelfUpdate.downloadLoop asset config.stagedNroPath 4 0 0)
    (World.mayAsk_call (f := PortFate.ok) rfl rfl)

end SelfUpdate

section Cfw

variable {J : JsonLibrary} {config : Cfw.CfwInstallConfig} {watched : Bool} {item : Cfw.CatalogItem}
  {preserve : PreserveRules}

lemma quiet_removeTree (directory : Bytes) : (Ports.removeTree directory).Asks Quiet :=
  Ports.asks_removeTree trivial (fun _ => trivial)

lemma quiet_discardStaging (id : Bytes) : (Cfw.discardStaging config id).Asks Quiet :=
  (quiet_removeTree _).bind (fun _ => ⟨trivial, fun _ => ⟨trivial, fun _ => trivial⟩⟩)

lemma quiet_report (progress : InstallProgress) : (Cfw.report watched progress).Asks Quiet :=
  Cfw.asks_report (fun _ => trivial) progress

lemma run_report (progress : InstallProgress) :
    (Ports.world L).run .ok (Cfw.report watched progress) c = (some true, c) := by
  cases watched <;> rfl

lemma heeds_install :
    Heeds L (Cfw.needed config item).toNat (fun out => out.result = .insufficientSpace)
      (Cfw.install J config watched item preserve) c := by
  rw [Cfw.install, Cfw.fetchTree, Program.bind_assoc]
  refine heeds_bind (asks_quiet (e := .probe config.markerPath) trivial) (fun inFlight c => ?_)
  cases inFlight with
  | true => exact heeds_done _
  | false =>
    rw [if_neg (by decide), Program.bind_assoc]
    refine heeds_bind (quiet_report _) (fun going c => ?_)
    cases going with
    | false => exact heeds_done _
    | true =>
      rw [if_neg (by decide), Program.bind_assoc]
      refine heeds_bind (quiet_discardStaging item.id) (fun _ c => ?_)
      rw [Program.bind_assoc]
      refine heeds_bind (quiet_removeTree _) (fun _ c => ?_)
      rw [Program.bind_assoc]
      refine heeds_bind (asks_quiet (e := .makeDirectories config.stagingRoot) trivial) (fun made c => ?_)
      cases made with
      | false => exact heeds_done _
      | true =>
        rw [if_neg (by decide), Program.bind_assoc]
        refine heeds_check (fun free hlt => ?_)
        rw [filter_of_lt hlt]
        exact ⟨_, rfl, rfl⟩

lemma mayAsk_downloadTree :
    (Ports.world L).mayAsk (Cfw.downloadTree config watched item) (fun e => isDownload e = true) c := by
  refine World.mayAsk_after (run_report _) ?_
  exact World.mayAsk_call (f := PortFate.ok) rfl rfl

lemma reaches_install (hidle : c.has config.markerPath = false) :
    Reaches L (Cfw.needed config item) (Cfw.install J config watched item preserve) c := by
  have hprobe : (Ports.world L).run .ok (Ports.probe config.markerPath) c = (some false, c) := by
    rw [← hidle]
    rfl
  rw [Cfw.install, Cfw.fetchTree, Program.bind_assoc]
  refine reaches_after (asks_quiet (e := .probe config.markerPath) trivial) hprobe ?_
  rw [if_neg (by decide), Program.bind_assoc]
  refine reaches_after (quiet_report _) (run_report _) ?_
  rw [if_neg (by decide), Program.bind_assoc]
  obtain ⟨_, c₁, hdiscarded⟩ := run_quiet (L := L) (p := Cfw.discardStaging config item.id) (quiet_discardStaging _) c
  refine reaches_after (quiet_discardStaging item.id) hdiscarded ?_
  rw [Program.bind_assoc]
  obtain ⟨_, c₂, hremoved⟩ := run_quiet (L := L) (quiet_removeTree (config.backupFor item.id)) c₁
  refine reaches_after (quiet_removeTree _) hremoved ?_
  rw [Program.bind_assoc]
  refine reaches_after (p := Ports.makeDirectories config.stagingRoot) (b := true) (asks_quiet trivial)
    (f := .ok) rfl ?_
  rw [if_neg (by decide), Program.bind_assoc]
  refine reaches_check ?_
  rw [filter_self]
  exact World.mayAsk_bind mayAsk_downloadTree

end Cfw

section Firmware

variable {config : Firmware.FirmwareConfig} {watched : Bool} {item : Catalog.Item}

lemma quiet_discardFirmware (id : Bytes) : (Firmware.discardStaging config id).Asks Quiet :=
  ⟨trivial, fun _ => ⟨trivial, fun _ => trivial⟩⟩

lemma quiet_reportFirmware (progress : FirmwareProgress) : (Firmware.report watched progress).Asks Quiet := by
  cases watched with
  | true => exact ⟨trivial, fun _ => trivial⟩
  | false => trivial

lemma run_reportFirmware (progress : FirmwareProgress) :
    (Ports.world L).run .ok (Firmware.report watched progress) c = (some true, c) := by
  cases watched <;> rfl

structure Stageable (config : Firmware.FirmwareConfig) (item : Catalog.Item) : Prop where
  kind : item.kind = .firmware
  installer : ∀ relative ≠ [], config.daybreakNro = config.firmwareDir ++ ascii "/" ++ relative →
    isFirmwareContent (baseName relative) = true

def withDaybreak (config : Firmware.FirmwareConfig) : Card := AList.insert config.daybreakNro [] ∅

lemma onlyFirmware_withDaybreak (h : Stageable config item) :
    (scanFirmwareDirectory (L.files (withDaybreak config) config.firmwareDir)).onlyFirmware = true := by
  refine onlyFirmware_scan_iff.mpr (fun relative hrelative => ?_)
  obtain ⟨hne, hhas⟩ := (L.complete _ _ _).mp hrelative
  rw [Card.has, withDaybreak, Card.lookup_insert_eq] at hhas
  split at hhas
  · next heq => exact h.installer relative hne heq.symm
  · cases hhas

lemma heeds_makeRoom_bind {k : Option Firmware.FirmwareOutcome → PortProgram Firmware.FirmwareOutcome}
    (hk : ∀ out, k (some out) = pure out) :
    Heeds L (Firmware.needed config item).toNat (fun out => out.result = .insufficientSpace)
      (Firmware.makeRoom config item >>= k) c := by
  rw [Firmware.makeRoom, Program.bind_assoc]
  refine heeds_bind (quiet_discardFirmware item.id) (fun _ c => ?_)
  rw [Program.bind_assoc]
  refine heeds_bind (asks_quiet (e := .makeDirectories config.stagingRoot) trivial) (fun made c => ?_)
  cases made with
  | false =>
    rw [if_pos (by decide), Program.pure_eq, Program.done_bind, hk]
    exact heeds_done _
  | true =>
    rw [if_neg (by decide), Program.bind_assoc]
    refine heeds_check (fun free hlt => ?_)
    rw [filter_of_lt hlt]
    exact ⟨_, hk _, rfl⟩

lemma heeds_stageSet :
    Heeds L (Firmware.needed config item).toNat (fun out => out.result = .insufficientSpace)
      (Firmware.stage config watched item) c := by
  rw [Firmware.stage, Firmware.fetchSet, Firmware.preflight]
  split
  · exact heeds_done _
  · simp only [Program.bind_assoc]
    refine heeds_bind (quiet_reportFirmware _) (fun going c => ?_)
    cases going with
    | false => exact heeds_done _
    | true =>
      rw [if_neg (by decide)]
      simp only [Program.bind_assoc]
      refine heeds_bind (p := Firmware.inspect config) ⟨trivial, fun _ => trivial⟩ (fun existing c => ?_)
      cases existing.onlyFirmware with
      | false => exact heeds_done _
      | true =>
        rw [if_neg (by decide)]
        simp only [Program.bind_assoc]
        refine heeds_bind (asks_quiet (e := .probe config.daybreakNro) trivial) (fun installer c => ?_)
        cases installer with
        | false => exact heeds_done _
        | true =>
          rw [if_neg (by decide)]
          simp only [Program.bind_assoc]
          exact heeds_makeRoom_bind (fun _ => rfl)

lemma mayAsk_fetchArchive :
    (Ports.world L).mayAsk (Firmware.fetchArchive config watched item) (fun e => isDownload e = true) c := by
  refine World.mayAsk_after (run_reportFirmware _) ?_
  exact World.mayAsk_call (f := PortFate.ok) rfl rfl

lemma reaches_stageSet (h : Stageable config item) :
    Reaches L (Firmware.needed config item) (Firmware.stage config watched item) (withDaybreak config) := by
  have hinspect : (Ports.world L).run .ok (Firmware.inspect config) (withDaybreak config) =
      (some (scanFirmwareDirectory (L.files (withDaybreak config) config.firmwareDir)), withDaybreak config) := rfl
  have hprobe : (Ports.world L).run .ok (Ports.probe config.daybreakNro) (withDaybreak config) =
      (some true, withDaybreak config) := by
    have hhas : (withDaybreak config).has config.daybreakNro = true := by
      rw [Card.has, withDaybreak, AList.lookup_insert]
      rfl
    rw [← hhas]
    rfl
  rw [Firmware.stage, Firmware.fetchSet, Firmware.preflight, if_neg (not_not.mpr h.kind)]
  simp only [Program.bind_assoc]
  refine reaches_after (quiet_reportFirmware _) (run_reportFirmware _) ?_
  rw [if_neg (by decide)]
  simp only [Program.bind_assoc]
  refine reaches_after (p := Firmware.inspect config) ⟨trivial, fun _ => trivial⟩ hinspect ?_
  rw [if_neg (by simp [onlyFirmware_withDaybreak h])]
  simp only [Program.bind_assoc]
  refine reaches_after (asks_quiet (e := .probe config.daybreakNro) trivial) hprobe ?_
  rw [if_neg (by decide), Firmware.makeRoom]
  simp only [Program.bind_assoc]
  obtain ⟨_, c, hdiscarded⟩ := run_quiet (L := L) (p := Firmware.discardStaging config item.id) (quiet_discardFirmware _)
    (withDaybreak config)
  refine reaches_after (quiet_discardFirmware item.id) hdiscarded ?_
  refine reaches_after (p := Ports.makeDirectories config.stagingRoot) (b := true) (asks_quiet trivial)
    (f := .ok) rfl ?_
  rw [if_neg (by decide)]
  simp only [Program.bind_assoc]
  refine reaches_check ?_
  rw [filter_self]
  simp only [Program.pure_eq, Program.done_bind]
  exact World.mayAsk_bind (World.mayAsk_bind mayAsk_fetchArchive)

end Firmware

end Services

/-- The headroom is a share of the size, and the product is cut down to 64 bits before it is divided. -/
theorem preflight_is_exact_iff (J : JsonLibrary) (watched : Bool) :
    (∀ (config : SelfUpdate.SelfUpdateConfig) (manifest : UpdateManifest) (asset : ManifestAsset),
      config.freeSpaceHeadroomPercent = 20 → manifest.findAsset .appNro = some asset →
        (Exact (room asset.size 20) (fun out => out.result = .insufficientSpace) (SelfUpdate.stage J config manifest) ↔
          asset.size.toNat * 20 < 2 ^ 64)) ∧
      (∀ (config : Cfw.CfwInstallConfig) (item : Cfw.CatalogItem) (preserve : PreserveRules),
        config.freeSpaceHeadroomPercent = 250 →
          (Exact (room item.size 250) (fun out => out.result = .insufficientSpace)
              (Cfw.install J config watched item preserve) ↔
            item.size.toNat * 250 < 2 ^ 64)) ∧
      ∀ (config : Firmware.FirmwareConfig) (item : Catalog.Item),
        config.freeSpaceHeadroomPercent = 220 → Stageable config item →
          (Exact (room item.size 220) (fun out => out.result = .insufficientSpace)
              (Firmware.stage config watched item) ↔
            item.size.toNat * 220 < 2 ^ 64) := by
  refine ⟨fun config manifest asset hpercent hasset => ?_, fun config item preserve hpercent => ?_,
    fun config item hpercent hstageable => ?_⟩
  · have hneeded : SelfUpdate.needed config asset = asset.size + asset.size * 20 / 100 := by
      rw [SelfUpdate.needed, hpercent]
      rfl
    refine exact_iff 20 (by decide) (fun L c => ?_) ⟨.stored, ∅, ?_⟩
    · rw [← hneeded]
      exact heeds_stage hasset
    · rw [← hneeded]
      exact reaches_stage hasset
  · have hneeded : Cfw.needed config item = item.size + item.size * 250 / 100 := by
      rw [Cfw.needed, hpercent]
      rfl
    refine exact_iff 250 (by decide) (fun L c => ?_) ⟨.stored, ∅, ?_⟩
    · rw [← hneeded]
      exact heeds_install
    · rw [← hneeded]
      exact reaches_install rfl
  · have hneeded : Firmware.needed config item = item.size + item.size * 220 / 100 := by
      rw [Firmware.needed, hpercent]
      rfl
    refine exact_iff 220 (by decide) (fun L c => ?_) ⟨.stored, withDaybreak config, ?_⟩
    · rw [← hneeded]
      exact heeds_stageSet
    · rw [← hneeded]
      exact reaches_stageSet hstageable

namespace Sample

def asset : ManifestAsset := ⟨ascii "a.nro", .appNro, ascii "https://github.com/a", 1000, .replicate 32 0⟩

def item : Catalog.Item :=
  { id := ascii "a", name := ascii "A", target := .sdRoot, versionText := [], url := ascii "https://a", size := 1000,
    sha256 := .replicate 32 0, honourPreserveRules := true, summary := [], kind := .firmware, version := none,
    minAtmosphere := none, notesUrl := [] }

def manifestText (size : Bytes) : Bytes :=
  ascii "\x7b\"schema_version\":1,\"product\":\"nsx-manager\",\"version\":\"1.0.0\",\"tag\":\"v1.0.0\"," ++
    ascii "\"min_supported\":\"1.0.0\",\"published_at\":\"2026-01-01T00:00:00Z\",\"channel\":\"stable\"," ++
    ascii "\"mandatory\":false,\"assets\":[\x7b\"name\":\"a.nro\",\"kind\":\"app-nro\"," ++
    ascii "\"url\":\"https://github.com/a\",\"size\":" ++ size ++ ascii ",\"sha256\":\"" ++
    List.replicate 64 (byte '0') ++ ascii "\"\x7d]\x7d"

def oversized : UpdateManifest :=
  { schemaVersion := 1, version := { major := 1 }, tag := ascii "v1.0.0", publishedAt := ascii "2026-01-01T00:00:00Z",
    minSupported := { major := 1 }, assets := [{ asset with size := 18293021206428638689 }] }

def staging (manifest : UpdateManifest) : Trace PortOp PortOp.Reply PortFate Card SelfUpdate.StageOutcome :=
  (Ports.world .stored).exec (SelfUpdate.stage JsonCodec.library {} manifest) [.ok, .space (some 3), .ok, .ok] ∅

end Sample

theorem small_downloads_are_preflighted_exactly :
    Exact (room 1000 20) (fun out => out.result = .insufficientSpace)
        (SelfUpdate.stage JsonCodec.library {} { assets := [Sample.asset] }) ∧
      Exact (room 1000 250) (fun out => out.result = .insufficientSpace)
        (Cfw.install JsonCodec.library {} true Sample.item.toCatalogItem {}) ∧
      Exact (room 1000 220) (fun out => out.result = .insufficientSpace) (Firmware.stage {} true Sample.item) := by
  obtain ⟨hstage, hinstall, hset⟩ := preflight_is_exact_iff JsonCodec.library true
  have hinstaller : ¬({} : Firmware.FirmwareConfig).firmwareDir ++ ascii "/" <+:
      ({} : Firmware.FirmwareConfig).daybreakNro := by decide +kernel
  exact ⟨(hstage {} _ Sample.asset rfl rfl).mpr (by decide),
    (hinstall {} Sample.item.toCatalogItem {} rfl).mpr (by decide),
    (hset {} Sample.item rfl ⟨rfl, fun r _ heq => absurd ⟨r, heq.symm⟩ hinstaller⟩).mpr (by decide)⟩

theorem an_oversized_download_is_started :
    parseManifest JsonCodec.library (Sample.manifestText (ascii "18293021206428638689")) = .ok Sample.oversized ∧
      3 < room 18293021206428638689 20 ∧ reading (Sample.staging Sample.oversized).log = some (some 3) ∧
      (Sample.staging Sample.oversized).outcome.map (fun out => out.result) = some .downloadFailed ∧
      (Sample.staging Sample.oversized).log.any (fun ev => isDownload ev.asked) = true := by
  decide +kernel

end NsxManager.Preflight
