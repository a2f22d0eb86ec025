import Mathlib.Logic.Relation
import NsxManager.Core.SemVerOrder
import NsxManager.Maintenance.Cleanup
import NsxManager.SelfUpdate.ForwarderCopies
import NsxManager.SelfUpdate.Handover
import NsxManager.SelfUpdate.Informed

/-! The life of an installation: sessions of the application, runs of the forwarder and whatever else happens to the
card, in any order and cut off anywhere. -/

namespace NsxManager.SelfUpdate

open NsxManager.Core Lib Infra Forwarder

structure SelfUpdateConfig.Tidy (config : SelfUpdateConfig) : Prop where
  apart : config.Apart
  temporary : config.targetNro ≠ config.handoffPath ++ ascii ".tmp"
  part : config.targetNro ≠ config.stagedNroPath ++ ascii ".part"
  forwarder : config.forwarderNro ∉ [config.targetNro, config.backupNroPath, config.handoffPath]

def SelfUpdateConfig.running (config : SelfUpdateConfig) (installed : SemVer) : SelfUpdateConfig :=
  { config with installed := installed }

lemma SelfUpdateConfig.Tidy.running {config : SelfUpdateConfig} (h : config.Tidy) (installed : SemVer) :
    (config.running installed).Tidy :=
  ⟨h.apart, h.temporary, h.part, h.forwarder⟩

structure Midway (J : JsonLibrary) (config : SelfUpdateConfig) (manifest : UpdateManifest) (c c' : Card) : Prop where
  target : c'.lookup config.targetNro = c.lookup config.targetNro
  handoff : c'.lookup config.handoffPath = c.lookup config.handoffPath ∨
    ∃ asset now text, manifest.findAsset .appNro = some asset ∧ c'.lookup config.handoffPath = some text ∧
      parseHandoff J text = .ok (draftHandoff config manifest asset now)

section Staging

variable {L : Listing} {J : JsonLibrary} {config : SelfUpdateConfig} {manifest : UpdateManifest} {asset : ManifestAsset}
  {c c' : Card} {A : Event PortOp PortOp.Reply PortFate → Prop}

structure Untouched (config : SelfUpdateConfig) (c c' : Card) : Prop where
  target : c'.lookup config.targetNro = c.lookup config.targetNro
  handoff : c'.lookup config.handoffPath = c.lookup config.handoffPath

lemma Untouched.midway (h : Untouched config c c') : Midway J config manifest c c' := ⟨h.target, .inl h.handoff⟩

lemma Untouched.erase (h : Untouched config c c') {p : Bytes} (ht : config.targetNro ≠ p) (hh : config.handoffPath ≠ p) :
    Untouched config c (c'.erase p) :=
  ⟨(AList.lookup_erase_ne ht).trans h.target, (AList.lookup_erase_ne hh).trans h.handoff⟩

lemma Untouched.insert (h : Untouched config c c') {p : Bytes} (ht : config.targetNro ≠ p) (hh : config.handoffPath ≠ p)
    (b : Bytes) : Untouched config c (c'.insert p b) :=
  ⟨(AList.lookup_insert_ne ht).trans h.target, (AList.lookup_insert_ne hh).trans h.handoff⟩

abbrev stays (L : Listing) (J : JsonLibrary) (config : SelfUpdateConfig) (manifest : UpdateManifest)
    (A : Event PortOp PortOp.Reply PortFate → Prop) (p : PortProgram StageOutcome) (c c' : Card) : Prop :=
  (Ports.world L).wp A (Midway J config manifest c) p (fun _ => Midway J config manifest c) c'

lemma abandon_stays (htidy : config.Tidy) (h : Untouched config c c') (result : StageResult) (detail : Bytes) :
    stays L J config manifest A (abandon config result detail) c c' :=
  Ports.wp_remove h.midway (fun _ => h.midway)
    (h.erase htidy.apart.1 (stagedNroPath_ne_handoffPath config).1.symm).midway

lemma handOff_stays (htidy : config.Tidy) (h : Untouched config c c') {now : Int64}
    (hasset : manifest.findAsset .appNro = some asset) :
    stays L J config manifest A (handOff J config (draftHandoff config manifest asset now)) c c' := by
  cases hdoc : serializeHandoff J (draftHandoff config manifest asset now) with
  | none =>
    simp only [handOff, hdoc]
    exact Ports.wp_abort h.midway
  | some document =>
    cases hparse : parseHandoff J document with
    | error stop =>
      cases stop with
      | rejected error =>
        simp only [handOff, hdoc, hparse]
        exact abandon_stays htidy h _ _
      | fault =>
        simp only [handOff, hdoc, hparse]
        exact Ports.wp_abort h.midway
    | ok read =>
      obtain rfl := parseHandoff_readBack rfl hdoc hparse
      simp only [handOff, hdoc, hparse]
      refine Ports.wp_writeAtomic h.midway (fun _ => abandon_stays htidy h _ _) ⟨?_, .inr ?_⟩
      · exact (AList.lookup_insert_ne htidy.apart.2.2).trans ((AList.lookup_erase_ne htidy.temporary).trans h.target)
      · exact ⟨asset, now, document, hasset, AList.lookup_insert _, hparse⟩

lemma verifyStaged_stays (htidy : config.Tidy) (h : Untouched config c c')
    (hasset : manifest.findAsset .appNro = some asset) :
    stays L J config manifest A (verifyStaged J config manifest asset) c c' := by
  have habandon (result : StageResult) (detail : Bytes) :
      stays L J config manifest A (abandon config result detail) c c' := abandon_stays htidy h result detail
  refine Ports.wp_digestOf h.midway (habandon _ _) ?_
  split
  · exact habandon _ _
  · refine (World.wp_bind _ _ _).mpr (ensureForwarder_wp h.midway (habandon _ _) (fun _ => ?_) (fun bytes _ => ?_))
    · exact Ports.wp_nowUnix h.midway (fun now => handOff_stays htidy h hasset)
    · obtain ⟨htarget, -, hhandoff⟩ : config.targetNro ≠ config.forwarderNro ∧
          config.backupNroPath ≠ config.forwarderNro ∧ config.handoffPath ≠ config.forwarderNro := by
        simpa [eq_comm] using htidy.forwarder
      have hcopied := h.insert htarget hhandoff bytes
      exact ⟨hcopied.midway, Ports.wp_nowUnix hcopied.midway (fun now => handOff_stays htidy hcopied hasset)⟩

lemma stage_stays (htidy : config.Tidy) : stays L J config manifest A (stage J config manifest) c c := by
  have hstart : Untouched config c c := ⟨rfl, rfl⟩
  unfold stage
  cases hasset : manifest.findAsset .appNro with
  | none => exact hstart.midway
  | some asset =>
    refine Ports.wp_makeDirectories hstart.midway (fun _ => hstart.midway) ?_
    refine Ports.wp_freeSpaceBytes hstart.midway (fun free => ?_)
    cases free.filter (· < needed config asset) with
    | some bytes => exact hstart.midway
    | none =>
      have hpart : config.handoffPath ≠ config.stagedNroPath ++ ascii ".part" :=
        append_ne_append (by decide) (by decide) (by decide) _ _
      have hne := (stagedNroPath_ne_handoffPath config).1.symm
      have hdownload : ∀ c', Untouched config c c' → stays L J config manifest A
          (downloadLoop asset config.stagedNroPath 4 0 0 >>= fun error =>
            if error ≠ .none then pure (transferFailure error) else verifyStaged J config manifest asset) c c' := by
        intro c' h
        refine (World.wp_bind _ _ _).mpr (downloadLoop_wp (I := Untouched config c) (fun _ h => h.midway) h
          (fun _ h => h.erase htidy.apart.1 hne) (fun _ b h => h.insert htidy.apart.1 hne b)
          (fun error c'' h' => ?_) 4 0 0)
        split
        · exact h'.midway
        · exact verifyStaged_stays htidy h' hasset
      exact Ports.wp_remove hstart.midway (fun _ => hdownload c hstart) (hdownload _ (hstart.erase htidy.part hpart))

end Staging

def discardStalePartials (config : SelfUpdateConfig) : PortProgram Unit := do
  let _ ← Ports.remove (config.stagedNroPath ++ ascii ".part")

def startUp (config : ForwarderConfig) : PortProgram Bool := do
  let forwarderReady ← installForwarder config
  discardStalePartials config.toSelfUpdateConfig
  return forwarderReady

abbrev SelfUpdateConfig.vital (config : SelfUpdateConfig) : List Bytes :=
  [config.targetNro, config.backupNroPath, config.handoffPath]

lemma asks_startUp {config : ForwarderConfig} (htidy : config.Tidy) (hrepair : config.repairEntryNro ∉ config.vital) :
    (startUp config).Asks (PortOp.Spares (· ∈ config.vital)) := by
  have hpart : config.stagedNroPath ++ ascii ".part" ∉ config.vital := by
    simp only [List.mem_cons, List.not_mem_nil, or_false, not_or]
    exact ⟨htidy.part.symm, append_ne_append (by decide) (by decide) (by decide) _ _,
      append_ne_append (by decide) (by decide) (by decide) _ _⟩
  have hquiet (e : PortOp) (he : e.changes = []) : e.Spares (· ∈ config.vital) := by
    rw [PortOp.Spares, he]
    exact List.forall_mem_nil _
  have hlisted : PortOp.Spares (· ∈ config.vital) (.copyFile config.forwarderSource config.repairEntryNro) :=
    List.forall_mem_singleton.mpr hrepair
  refine Program.Asks.bind ?_ (fun _ => ⟨List.forall_mem_singleton.mpr hpart, fun _ => trivial⟩)
  refine (asks_ensureForwarder hquiet (List.forall_mem_singleton.mpr htidy.forwarder)).bind fun _ =>
    ⟨hquiet _ rfl, fun listed => ?_⟩
  cases listed with
  | true => trivial
  | false =>
    dsimp only [bind, Program.bind]
    rw [if_neg (by decide)]
    split
    · exact ⟨hlisted, fun _ => trivial⟩
    · exact ⟨hquiet _ rfl, fun _ => ⟨hlisted, fun _ => trivial⟩⟩

def Labelled (embeds : Bytes → SemVer) (manifest : UpdateManifest) : Prop :=
  ∀ asset b, manifest.findAsset .appNro = some asset → Sha256.of b = asset.sha256 → embeds b = manifest.version

/-- What can happen to a card. `embeds` is the version a binary reports of itself. The application that runs is the one
at its target: it starts up, stages what a check of its own has offered, and purges a staging directory it is not in. -/
inductive Happens (J : JsonLibrary) (config : SelfUpdateConfig) (embeds : Bytes → SemVer) : Card → Card → Prop
  | session {c : Card} {b : Bytes} {console : Console} {fates : List ServiceFate} {out : CheckOutcome}
    {manifest : UpdateManifest} (L : Listing) (portFates : List PortFate) (hlaunched : c.lookup config.targetNro = some b)
    (hcheck : (Service.world.exec (check J (config.running (embeds b))) fates console).outcome = some out)
    (hoffers : out.decision.offersUpdate = true) (hmanifest : out.manifest = some manifest)
    (hlabelled : Labelled embeds manifest) :
    Happens J config embeds c ((Ports.world L).exec (stage J (config.running (embeds b)) manifest) portFates c).state
  | started {c : Card} {installed : SemVer} {forwarder : ForwarderConfig} (L : Listing) (fates : List PortFate)
    (hconfig : forwarder.toSelfUpdateConfig = config.running installed)
    (hrepair : forwarder.repairEntryNro ∉ config.vital) :
    Happens J config embeds c ((Ports.world L).exec (startUp forwarder) fates c).state
  | purge {c : Card} {b : Bytes} {cleanup : Maintenance.CleanupConfig} (L : Listing) (fates : List PortFate)
    (hlaunched : c.lookup config.targetNro = some b) (houtside : ¬cleanup.stagingDir ++ ascii "/" <+: config.targetNro) :
    Happens J config embeds c (Maintenance.purged L cleanup fates c).state
  | forwarder {c : Card} {run : List Fate} (hfaithful : ∀ bytes, Fate.corrupt bytes ∉ run) :
    Happens J config embeds c (afterRun J config.handoffPath c run)
  | elsewhere {c c' : Card} (htarget : c'.lookup config.targetNro = c.lookup config.targetNro)
    (hbackup : c'.lookup config.backupNroPath = c.lookup config.backupNroPath)
    (hhandoff : c'.lookup config.handoffPath = c.lookup config.handoffPath) : Happens J config embeds c c'

def AtLeast (embeds : Bytes → SemVer) (version : SemVer) (b : Bytes) : Prop :=
  SemVer.compare (embeds b) version ≠ .lt

namespace Sample

def offered : UpdateManifest := releaseWith (Sha256.of [2])

def installation : SelfUpdateConfig := { config with cacheDir := ascii "/c", installed := { minor := 1 } }

def visit : List ServiceFate :=
  onReadOnlyCard (publishedWith (ascii "dbc1b4c900ffe48d575b5da5c638040125f65db0fe3e24494b76ea986457d986"))

lemma offered_and_staged :
    ((Service.world.exec (check JsonCodec.library installation) visit { card := card }).outcome.map (fun out =>
      (out.decision.action, out.manifest)) = some (.optional, some offered)) ∧
    (((Ports.world .stored).exec (stage JsonCodec.library installation offered) fates card).outcome.map (fun out =>
      out.result) = some .staged) := by
  decide +kernel

def embeds (b : Bytes) : SemVer := if Sha256.of b = Sha256.of [2] then { minor := 2 } else { minor := 1 }

lemma labelled : Labelled embeds offered := by
  intro asset b hasset hsha
  obtain rfl := Option.some.inj hasset
  exact if_pos hsha

end Sample

section Lifetime

variable {J : JsonLibrary} {config : SelfUpdateConfig} {embeds : Bytes → SemVer} {version : SemVer} {c c' : Card}

lemma atLeast_of_newer {b b' : Bytes} (h : AtLeast embeds version b)
    (hnewer : SemVer.compare (embeds b') (embeds b) = .gt) : AtLeast embeds version b' := by
  intro hlt
  have hbelow : SemVer.compare (embeds b) (embeds b') = .lt := Std.OrientedCmp.gt_iff_lt.mp hnewer
  exact h (Std.TransCmp.lt_trans hbelow hlt)

def Settled (config : SelfUpdateConfig) (embeds : Bytes → SemVer) (version : SemVer) (c : Card) : Prop :=
  c.lookup config.handoffPath = none ∧ ∃ b, c.lookup config.targetNro = some b ∧ AtLeast embeds version b

def Upheld (J : JsonLibrary) (config : SelfUpdateConfig) (htidy : config.Tidy) (embeds : Bytes → SemVer)
    (version : SemVer) (c : Card) : Prop :=
  Settled config embeds version c ∨ ∃ sha, (∀ b, Sha256.of b = sha → AtLeast embeds version b) ∧
    (terms J config htidy.apart htidy.temporary sha (AtLeast embeds version) (AtLeast embeds version)).safeOn c

variable {htidy : config.Tidy}

lemma afterRun_of_none (hnone : c.lookup config.handoffPath = none) (run : List Fate) :
    afterRun J config.handoffPath c run = c := by
  have hwp : Stdio.world.wp (· ∈ (Stdio.world.exec (runSwap J config.handoffPath) run c).log) (· = c)
      (runSwap J config.handoffPath) (fun _ => (· = c)) c := by
    refine Stdio.wp_read rfl rfl ?_
    rw [hnone]
    rfl
  exact World.exec_invariant hwp

lemma upheld_afterRun (h : Upheld J config htidy embeds version c) {run : List Fate}
    (hfaithful : ∀ bytes, Fate.corrupt bytes ∉ run) :
    Upheld J config htidy embeds version (afterRun J config.handoffPath c run) := by
  rcases h with hsettled | ⟨sha, htrusted, hsafe⟩
  · rw [afterRun_of_none hsettled.1]
    exact .inl hsettled
  refine .inr ⟨sha, htrusted, ?_⟩
  let t := terms J config htidy.apart htidy.temporary sha (AtLeast embeds version) (AtLeast embeds version)
  have hadmits : t.Admits (fun ev => ∀ bytes, ev.fate ≠ .corrupt bytes) :=
    ⟨fun data bytes hev => hev bytes rfl, fun b hb => htrusted b (hb (fun data bytes hev => hev bytes rfl)),
      fun f b _ hb _ => hb⟩
  refine Terms.safe_afterRun hadmits hsafe (fun _ _ _ _ _ => hsafe.ready (fun b hb => hb)) ?_
  intro ev hev bytes hfate
  exact hfaithful bytes (hfate ▸ Stdio.world.fate_mem_of_mem_log hev)

lemma Upheld.launched (h : Upheld J config htidy embeds version c) {b : Bytes} (hb : c.lookup config.targetNro = some b) :
    AtLeast embeds version b := by
  have hsame {b' : Bytes} (hb' : c.lookup config.targetNro = some b') (hgood : AtLeast embeds version b') :
      AtLeast embeds version b :=
    Option.some.inj (hb'.symm.trans hb) ▸ hgood
  rcases h with ⟨-, b', hb', hgood⟩ | ⟨sha, -, hsound | hdisplaced⟩
  · exact hsame hb' hgood
  · obtain ⟨b', hb', hgood⟩ := hsound.target
    exact hsame hb' hgood
  · exact hdisplaced.target b hb

lemma upheld_launched (h : Upheld J config htidy embeds version c) {b : Bytes} (hb : c.lookup config.targetNro = some b)
    (htarget : c'.lookup config.targetNro = c.lookup config.targetNro)
    (hhandoff : c'.lookup config.handoffPath = c.lookup config.handoffPath ∨ c'.lookup config.handoffPath = none) :
    Upheld J config htidy embeds version c' := by
  have hgood := h.launched hb
  rcases hhandoff with hsame | hnone
  · rcases h with hsettled | ⟨sha, htrusted, hsafe⟩
    · exact .inl ⟨hsame.trans hsettled.1, b, htarget.trans hb, hgood⟩
    · refine .inr ⟨sha, htrusted, .inl ⟨⟨b, htarget.trans hb, hgood⟩, fun text htext => ?_⟩⟩
      have hinstructed := hsafe.elim Terms.Sound.instructed Terms.Displaced.instructed
      exact hinstructed text (hsame.symm.trans htext)
  · exact .inl ⟨hnone, b, htarget.trans hb, hgood⟩

lemma upheld_stage (h : Upheld J config htidy embeds version c) {b : Bytes} (hb : c.lookup config.targetNro = some b)
    {manifest : UpdateManifest} (hnewer : SemVer.compare manifest.version (embeds b) = .gt)
    (hlabelled : Labelled embeds manifest) {installed : SemVer} (hmidway : Midway J (config.running installed) manifest c c') :
    Upheld J config htidy embeds version c' := by
  rcases hmidway.handoff with hsame | ⟨asset, now, text, hasset, htext, hparse⟩
  · exact upheld_launched h hb hmidway.target (.inl hsame)
  · have hgood := h.launched hb
    refine .inr ⟨asset.sha256, fun b' hsha => ?_, .inl ⟨⟨b, hmidway.target.trans hb, hgood⟩, fun text' htext' => ?_⟩⟩
    · exact atLeast_of_newer hgood (hlabelled asset b' hasset hsha ▸ hnewer)
    · obtain rfl : text = text' := Option.some.inj (htext.symm.trans htext')
      exact ⟨_, hparse, rfl, rfl, rfl, rfl⟩

lemma upheld_elsewhere (h : Upheld J config htidy embeds version c)
    (htarget : c'.lookup config.targetNro = c.lookup config.targetNro)
    (hbackup : c'.lookup config.backupNroPath = c.lookup config.backupNroPath)
    (hhandoff : c'.lookup config.handoffPath = c.lookup config.handoffPath) :
    Upheld J config htidy embeds version c' := by
  rcases h with ⟨hnone, b, hb, hgood⟩ | ⟨sha, htrusted, hsound | hdisplaced⟩
  · exact .inl ⟨hhandoff.trans hnone, b, htarget.trans hb, hgood⟩
  · exact .inr ⟨sha, htrusted, .inl (hsound.of_agree htarget (.inl hhandoff))⟩
  · obtain ⟨⟨b, hb, hgood⟩, hfresh, ⟨text, htext⟩, hinstructed⟩ := hdisplaced
    exact .inr ⟨sha, htrusted, .inr ⟨⟨b, hbackup.trans hb, hgood⟩, fun n hn => hfresh n (htarget.symm.trans hn),
      ⟨text, hhandoff.trans htext⟩, fun text' htext' => hinstructed text' (hhandoff.symm.trans htext')⟩⟩

lemma Happens.upheld (hhappens : Happens J config embeds c c') (h : Upheld J config htidy embeds version c) :
    Upheld J config htidy embeds version c' := by
  cases hhappens with
  | session L portFates hlaunched hcheck hoffers hmanifest hlabelled =>
    obtain ⟨manifest, heq, -, hnewer, -⟩ := (World.exec_post hcheck check_tells).offered hoffers
    obtain rfl := Option.some.inj (heq.symm.trans hmanifest)
    exact upheld_stage h hlaunched hnewer hlabelled (World.exec_invariant (stage_stays (htidy.running _)))
  | @started installed forwarder L fates hconfig hrepair =>
    obtain ⟨base, repair⟩ := forwarder
    obtain rfl : base = _ := hconfig
    let forwarder : ForwarderConfig := ⟨config.running installed, repair⟩
    have hasks : (startUp forwarder).Asks (PortOp.Spares (· ∈ config.vital)) := asks_startUp (htidy.running _) hrepair
    have hspared (p : Bytes) (hp : p ∈ config.vital) :
        ((Ports.world L).exec (startUp forwarder) fates c).state.lookup p = c.lookup p :=
      Ports.lookup_exec hasks fates hp
    exact upheld_elsewhere h (hspared _ (by simp)) (hspared _ (by simp)) (hspared _ (by simp))
  | purge L fates hlaunched houtside =>
    refine upheld_launched h hlaunched ?_ ?_
    · rw [Maintenance.lookup_purged, if_neg (Maintenance.not_granted_purged houtside)]
    · rw [Maintenance.lookup_purged]
      split
      · exact .inr rfl
      · exact .inl rfl
  | forwarder hfaithful => exact upheld_afterRun h hfaithful
  | elsewhere htarget hbackup hhandoff => exact upheld_elsewhere h htarget hbackup hhandoff

lemma Upheld.somewhere (h : Upheld J config htidy embeds version c) :
    ∃ b, (c.lookup config.targetNro = some b ∨ c.lookup config.backupNroPath = some b) ∧ AtLeast embeds version b := by
  rcases h with ⟨-, b, hb, hgood⟩ | ⟨sha, -, hsound | hdisplaced⟩
  · exact ⟨b, .inl hb, hgood⟩
  · obtain ⟨b, hb, hgood⟩ := hsound.target
    exact ⟨b, .inl hb, hgood⟩
  · obtain ⟨b, hb, hgood⟩ := hdisplaced.backup
    exact ⟨b, .inr hb, hgood⟩

lemma Upheld.repaired (h : Upheld J config htidy embeds version c) :
    ∃ result c' b, Stdio.world.run .ok (runSwap J config.handoffPath) c = (some result, c') ∧
      c'.lookup config.targetNro = some b ∧ AtLeast embeds version b := by
  rcases h with ⟨hnone, b, hb, hgood⟩ | ⟨sha, htrusted, hsafe⟩
  · refine ⟨fail .unrecoverable (decideRecovery none {}).reason, c, b, ?_, hb, hgood⟩
    rw [runSwap, Stdio.run_read, hnone]
    rfl
  · exact (hsafe.ready (fun b hb => hb)).run htrusted

theorem settled_version_is_never_undercut {start : Card} {settled : Bytes} (htidy : config.Tidy)
    (htarget : start.lookup config.targetNro = some settled) (hnone : start.lookup config.handoffPath = none)
    (hlife : Relation.ReflTransGen (Happens J config embeds) start c) :
    (∀ b, c.lookup config.targetNro = some b → AtLeast embeds (embeds settled) b) ∧
      (∃ b, (c.lookup config.targetNro = some b ∨ c.lookup config.backupNroPath = some b) ∧
        AtLeast embeds (embeds settled) b) ∧
      ∃ result c' b, Stdio.world.run .ok (runSwap J config.handoffPath) c = (some result, c') ∧
        c'.lookup config.targetNro = some b ∧ AtLeast embeds (embeds settled) b := by
  have hself : AtLeast embeds (embeds settled) settled := by
    intro hlt
    have heq : SemVer.compare (embeds settled) (embeds settled) = .eq := Std.ReflCmp.compare_self
    rw [heq] at hlt
    cases hlt
  have hupheld : Upheld J config htidy embeds (embeds settled) c := by
    induction hlife with
    | refl => exact .inl ⟨hnone, settled, htarget, hself⟩
    | tail _ hhappens ih => exact hhappens.upheld ih
  exact ⟨fun b hb => hupheld.launched hb, hupheld.somewhere, hupheld.repaired⟩

end Lifetime

theorem release_is_staged_over_an_older_one : ∃ c,
    Relation.ReflTransGen (Happens JsonCodec.library Sample.installation Sample.embeds) Sample.card c ∧
      ∃ b, (c.lookup Sample.installation.targetNro = some b ∨ c.lookup Sample.installation.backupNroPath = some b) ∧
        AtLeast Sample.embeds (Sample.embeds [1]) b := by
  obtain ⟨out, hout, heq⟩ := Option.map_eq_some_iff.mp Sample.offered_and_staged.1
  obtain ⟨haction, hmanifest⟩ := Prod.mk.inj heq
  have hembeds : Sample.embeds [1] = { minor := 1 } := by decide +kernel
  have hrunning : Sample.installation.running (Sample.embeds [1]) = Sample.installation := by
    rw [hembeds]
    rfl
  have hcard : Sample.card.lookup Sample.installation.targetNro = some [1] ∧
      Sample.card.lookup Sample.installation.handoffPath = none := by
    decide
  have hoffers : out.decision.offersUpdate = true := by simp [UpdateDecision.offersUpdate, haction]
  have hsession :=
    Happens.session .stored Sample.fates hcard.1 (hrunning ▸ hout) hoffers hmanifest Sample.labelled
  have htidy : Sample.installation.Tidy := ⟨by decide, by decide, by decide, by decide⟩
  exact ⟨_, .single hsession, (settled_version_is_never_undercut htidy hcard.1 hcard.2 (.single hsession)).2.1⟩

end NsxManager.SelfUpdate
