import NsxManager.Cfw.Prepare

/-! Fetching a package: everything stays below the staging root, and what is staged afterwards was
fetched now. -/

namespace NsxManager.Cfw

open NsxManager.Core Lib Infra

section Asks

variable {P : PortOp → Prop} {config : CfwInstallConfig} {item : CatalogItem} {watched : Bool}

structure Fetches (config : CfwInstallConfig) (item : CatalogItem) (P : PortOp → Prop) : Prop where
  quiet : ∀ e : PortOp, e.changes = [] → P e
  discard : (discardStaging config item.id).Asks P
  download : P (.download item.url (config.archiveFor item.id) ⟨item.size, item.sha256⟩)
  unpack : ∀ name body, validateEntryName name = .ok () →
    P (.unpack (config.stagingFor item.id ++ ascii "/" ++ name) body)

lemma Fetches.asks_extractTree (h : Fetches config item P) (hid : isValidId item.id = true) :
    (extractTree config watched item).Asks P := by
  have hroot : (config.stagingFor item.id).getLast? ≠ some (byte '/') := by
    obtain ⟨c, hlast, hc⟩ := (Workspace.mk config item.id [] hid).getLast_stagingFor
    exact fun heq => hc (Option.some.inj (hlast.symm.trans heq))
  have hreport : ∀ progress, (report watched progress).Asks P := asks_report (fun _ => h.quiet _ rfl)
  have hmake : (Ports.makeDirectories (config.stagingFor item.id)).Asks P :=
    ⟨h.quiet _ rfl, fun _ => trivial⟩
  refine (hreport _).bind (fun going => ?_)
  split
  · exact h.discard.bind (fun _ => trivial)
  refine hmake.bind (fun made => ?_)
  split
  · exact h.discard.bind (fun _ => trivial)
  refine (asks_extractZip hroot (fun _ => h.quiet _ rfl) (fun _ => hreport _) h.unpack (h.quiet _ rfl) _).bind
    (fun extracted => ?_)
  cases extracted with
  | error error => exact h.discard.bind (fun _ => trivial)
  | ok report => trivial

lemma Fetches.asks_downloadTree (h : Fetches config item P) (hid : isValidId item.id = true) :
    (downloadTree config watched item).Asks P := by
  have hdownload : (Ports.download item.url (config.archiveFor item.id) ⟨item.size, item.sha256⟩).Asks P :=
    ⟨h.download, fun _ => trivial⟩
  refine (asks_report (fun _ => h.quiet _ rfl) _).bind (fun going => ?_)
  split
  · trivial
  refine hdownload.bind (fun error => ?_)
  split
  · exact h.discard.bind (fun _ => trivial)
  · exact h.asks_extractTree hid

lemma Fetches.asks_fetchTree (h : Fetches config item P) (hid : isValidId item.id = true)
    (hbackup : (Ports.removeTree (config.backupFor item.id)).Asks P) :
    (fetchTree config watched item).Asks P := by
  have hquiet : ∀ {e : PortOp}, e.changes = [] → (Program.request e : PortProgram e.Reply).Asks P :=
    fun he => ⟨h.quiet _ he, fun _ => trivial⟩
  refine (hquiet (e := .probe config.markerPath) rfl).bind (fun inFlight => ?_)
  split
  · trivial
  refine (asks_report (fun _ => h.quiet _ rfl) _).bind (fun going => ?_)
  split
  · trivial
  refine h.discard.bind (fun _ => hbackup.bind (fun _ => ?_))
  refine (hquiet (e := .makeDirectories config.stagingRoot) rfl).bind (fun made => ?_)
  split
  · trivial
  refine (hquiet (e := .freeSpaceBytes config.stagingRoot) rfl).bind (fun free => ?_)
  split
  · trivial
  · exact h.asks_downloadTree hid

end Asks

section Fetch

variable {L : Listing} {config : CfwInstallConfig} {item : CatalogItem} {watched : Bool}
  {A : Event PortOp PortOp.Reply PortFate → Prop} {c : Card} {fates : List PortFate}

lemma fetches_spares (config : CfwInstallConfig) (item : CatalogItem) :
    Fetches config item (PortOp.Spares config.Outside) where
  quiet e he p hp := by simp [he] at hp
  discard := asks_discardStaging config item.id
  download p hp := by
    have hinside := inside_archive config item.id []
    rw [List.append_nil] at hinside
    rwa [List.mem_singleton.mp hp]
  unpack name body _ p hp := by
    rw [List.mem_singleton.mp hp, List.append_assoc]
    exact inside_staging config item.id _

lemma fetchTree_untouched {blind : Bool} (hid : isValidId item.id = true) :
    Untouched config c ((Ports.worldOf blind L).exec (fetchTree config watched item) fates c).state := by
  refine fun path hpath => Ports.lookup_exec ((fetches_spares config item).asks_fetchTree hid ?_) fates hpath
  refine Ports.asks_removeTree (fun _ hp => nomatch hp) (fun r p hp => ?_)
  rw [List.mem_singleton.mp hp, List.append_assoc]
  exact inside_backup config item.id _

/-- The files `fetchTree` deletes and does not bring back: the whole backup, and what no archive can have
expanded to. -/
def Cleared (config : CfwInstallConfig) (id : Bytes) (A : Event PortOp PortOp.Reply PortFate → Prop) (p : Bytes) :
    Prop :=
  ¬A ⟨.unlink p, .fails, false⟩ ∧ ∃ r, r ≠ [] ∧ (p = config.backupFor id ++ ascii "/" ++ r ∨
    p = config.stagingFor id ++ ascii "/" ++ r ∧ byte '\n' ∈ r)

lemma fetches_clear (hid : isValidId item.id = true) (A : Event PortOp PortOp.Reply PortFate → Prop) :
    Fetches config item (fun e => ∀ p ∈ e.creates, ¬Cleared config item.id A p) where
  quiet e he p hp := by
    have hmem := e.creates_subset_changes hp
    simp [he] at hmem
  discard := (Ports.asks_removeTree (fun _ hp => nomatch hp) (fun _ _ hp => nomatch hp)).bind
    (fun _ => ⟨fun _ hp => (nomatch hp), fun _ => ⟨fun _ hp => (nomatch hp), fun _ => trivial⟩⟩)
  download p hp := by
    let w : Workspace := ⟨config, item.id, [], hid⟩
    rw [List.mem_singleton.mp hp]
    rintro ⟨_, r, _, heq | ⟨heq, _⟩⟩
    · exact Place.noConfusion (w.name_injective (show w.name (.leaf .archive) = w.name (.kept r) from heq))
    · exact Place.noConfusion (w.name_injective (show w.name (.leaf .archive) = w.name (.staged r) from heq))
  unpack name body hvalid p hp := by
    let w : Workspace := ⟨config, item.id, [], hid⟩
    rw [List.mem_singleton.mp hp]
    rintro ⟨_, r, _, heq | ⟨heq, hnewline⟩⟩
    · exact Place.noConfusion (w.name_injective (show w.name (.staged name) = w.name (.kept r) from heq))
    · exact newline_not_mem hvalid (List.append_cancel_left heq ▸ hnewline)

lemma wp_discardStaging_gone {id : Bytes} :
    (Ports.world L).wp A (fun _ => True) (discardStaging config id) (fun _ c' => ∀ r, r ≠ [] →
      ¬A ⟨.unlink (config.stagingFor id ++ ascii "/" ++ r), .fails, false⟩ →
      c'.lookup (config.stagingFor id ++ ascii "/" ++ r) = none) c := by
  have herase : ∀ {c : Card} {p q : Bytes}, c.lookup p = none → (c.erase q).lookup p = none := by
    intro c p q h
    rw [Card.lookup_erase_eq, h, ite_self]
  rw [discardStaging, World.wp_bind]
  refine World.wp_post (Ports.wp_removeTree (I := fun _ => True) trivial (fun _ _ => trivial)
    (fun _ _ _ _ => trivial)) ?_
  rintro _ c₁ ⟨_, hgone⟩
  refine Ports.wp_remove trivial (fun _ => ?_) ?_
  · exact Ports.wp_remove trivial (fun _ => hgone) (fun r hr hok => herase (hgone r hr hok))
  · exact Ports.wp_remove trivial (fun _ r hr hok => herase (hgone r hr hok))
      (fun r hr hok => herase (herase (hgone r hr hok)))

lemma wp_fetchTree (hid : isValidId item.id = true) :
    (Ports.world L).wp A (fun _ => True) (fetchTree config watched item)
      (fun stopped c' => stopped = none → ∀ p, Cleared config item.id A p → c'.lookup p = none) c := by
  rw [fetchTree]
  refine Ports.wp_probe trivial ?_
  split
  · exact nofun
  refine wp_report trivial (fun _ => nofun) ?_
  rw [if_neg (by decide), World.wp_bind]
  refine World.wp_post wp_discardStaging_gone ?_
  intro _ c₁ hstaging
  rw [World.wp_bind]
  refine World.wp_post (Ports.wp_removeTree (I := fun c' => ∀ r, r ≠ [] →
    ¬A ⟨.unlink (config.stagingFor item.id ++ ascii "/" ++ r), .fails, false⟩ →
    c'.lookup (config.stagingFor item.id ++ ascii "/" ++ r) = none) hstaging (fun _ _ => trivial) ?_) ?_
  · intro c' _ _ h r hr hok
    rw [Card.lookup_erase_eq, h r hr hok, ite_self]
  rintro _ c₂ ⟨hstaging, hbackup⟩
  have hcleared : ∀ p, Cleared config item.id A p → c₂.lookup p = none := by
    rintro p ⟨hok, r, hr, rfl | ⟨rfl, _⟩⟩
    · exact hbackup r hr hok
    · exact hstaging r hr hok
  refine Ports.wp_makeDirectories trivial (fun _ => nofun) ?_
  rw [if_neg (by decide)]
  refine Ports.wp_freeSpaceBytes trivial (fun free => ?_)
  split
  · exact nofun
  · exact World.wp_mono (Ports.wp_absent ((fetches_clear hid A).asks_downloadTree hid) hcleared) (fun _ h => h)
      (fun _ _ => trivial) (fun _ _ h _ => h)

end Fetch

section Install

variable (L : Listing) (J : JsonLibrary) (config : CfwInstallConfig) (watched : Bool) (item : CatalogItem)
  (preserve : PreserveRules) (fates : List PortFate) (c : Card)

def fetched : Trace PortOp PortOp.Reply PortFate Card (Option InstallOutcome) :=
  (Ports.world L).exec (fetchTree config watched item) fates c

def begun : Trace PortOp PortOp.Reply PortFate Card (Except InstallOutcome MergePlan) :=
  (Ports.world L).exec (beginMerge J config item (rulesFor item preserve) (config.stagingFor item.id)
    (config.resolve item.target)) (fetched L config watched item fates c).rest
    (fetched L config watched item fates c).state

def moved : Trace PortOp PortOp.Reply PortFate Card (Except InstallOutcome (MergePlan × Tally × Option Interruption)) :=
  (Ports.world L).exec (installTree J config watched item preserve) fates c

end Install

section Moved

variable {L : Listing} {J : JsonLibrary} {config : CfwInstallConfig} {watched : Bool} {item : CatalogItem}
  {preserve : PreserveRules} {fates : List PortFate} {c : Card}

lemma moved_cases (hid : isValidId item.id = true) :
    Untouched config c (moved L J config watched item preserve fates c).state ∨
      (fetched L config watched item fates c).outcome = some none ∧
        (moved L J config watched item preserve fates c).state =
          ((Ports.world L).exec (moveTree J config watched item (rulesFor item preserve) (config.stagingFor item.id)
            (config.resolve item.target)) (fetched L config watched item fates c).rest
            (fetched L config watched item fates c).state).state := by
  have huntouched : Untouched config c (fetched L config watched item fates c).state := fetchTree_untouched hid
  unfold moved installTree
  rw [World.exec_bind]
  change _ ∨ (fetched L config watched item fates c).outcome = some none ∧ _
  cases hfetched : (fetched L config watched item fates c).outcome with
  | none =>
    rw [fetched] at hfetched
    rw [hfetched]
    exact .inl huntouched
  | some stopped =>
    have hfetched' := hfetched
    rw [fetched] at hfetched'
    rw [hfetched']
    cases stopped with
    | none => exact .inr ⟨rfl, rfl⟩
    | some out => exact .inl huntouched

end Moved

end NsxManager.Cfw
