import NsxManager.Core.Handoff
import NsxManager.Core.ManifestCache
import NsxManager.Core.UpdatePolicy
import NsxManager.Ports

/-! Staging an update: download, verify, and leave the forwarder its instruction. -/

namespace NsxManager.SelfUpdate

open NsxManager.Core Lib Infra

structure SelfUpdateConfig where
  manifestUrl : Bytes :=
    ascii "https://github.com/mateussantoos/nsx-manager/releases/latest/download/update.json"
  mirrorUrl : Bytes :=
    ascii "https://raw.githubusercontent.com/mateussantoos/nsx-manager/release-metadata/update.json"
  cacheDir : Bytes := ascii "/config/nsx-manager/cache"
  stagingDir : Bytes := ascii "/config/nsx-manager/staging"
  targetNro : Bytes := ascii "/switch/nsx-manager/nsx-manager.nro"
  forwarderNro : Bytes := ascii "/config/nsx-manager/forwarder/nsx-forwarder.nro"
  forwarderSource : Bytes := ascii "romfs:/nsx-forwarder.nro"
  installed : SemVer := {}
  channel : Channel := .stable
  cacheTtlSeconds : Int64 := kManifestCacheTtlSeconds
  backoff : BackoffPolicy := {}
  freeSpaceHeadroomPercent : Int32 := 20
  maxSwapAttempts : Int32 := 3
  deriving DecidableEq

namespace SelfUpdateConfig

variable (config : SelfUpdateConfig)

def cachedManifestPath : Bytes := config.cacheDir ++ ascii "/update.json"

def cacheMetadataPath : Bytes := config.cacheDir ++ ascii "/update.meta.json"

def backoffPath : Bytes := config.cacheDir ++ ascii "/backoff.json"

def stagedNroPath : Bytes := config.stagingDir ++ ascii "/nsx-manager.nro"

def backupNroPath : Bytes := config.stagingDir ++ ascii "/nsx-manager.nro.bak"

def handoffPath : Bytes := config.stagingDir ++ ascii "/handoff.json"

end SelfUpdateConfig

inductive StageResult where
  | staged
  | noAppAsset
  | insufficientSpace
  | downloadFailed
  | verifyFailed
  | forwarderUnavailable
  | writeFailed
  deriving DecidableEq

structure StageOutcome where
  result : StageResult := .downloadFailed
  handoff : Option Handoff := none
  forwarderPath : Bytes := []
  forwarderArgs : Bytes := []
  transport : HttpError := .none
  detail : Bytes := []
  deriving DecidableEq

def isTransient (error : HttpError) : Bool :=
  error == .timeout || error == .connectFailed || error == .dnsFailure || error == .sizeMismatch

def describeTransport (error : HttpError) : Bytes :=
  if error.advise.isEmpty then error.describe else error.describe ++ ascii " - " ++ error.advise

def kTransientAttempts : ℕ := 3

def kDigestAttempts : ℕ := 2

/-- The download loop. Each repetition spends one of the two budgets, so four rounds are all it
ever takes. -/
def downloadLoop (asset : ManifestAsset) (path : Bytes) : ℕ → ℕ → ℕ → PortProgram HttpError
  | 0, _, _ => return .internal
  | rounds + 1, transientTries, digestTries => do
    let error ← Ports.download asset.url path ⟨asset.size, asset.sha256⟩
    if error = .none then return .none
    else if error = .digestMismatch ∧ digestTries + 1 < kDigestAttempts then
      downloadLoop asset path rounds transientTries (digestTries + 1)
    else if isTransient error ∧ transientTries + 1 < kTransientAttempts then
      downloadLoop asset path rounds (transientTries + 1) digestTries
    else return error

def ensureForwarder (config : SelfUpdateConfig) : PortProgram Bool := do
  let present ← Ports.probe config.forwarderNro
  if present then return true
  let _ ← if (parentOf config.forwarderNro).isEmpty then pure true
    else Ports.makeDirectories (parentOf config.forwarderNro)
  let copied ← Ports.copyFile config.forwarderSource config.forwarderNro
  if !copied then return false
  Ports.probe config.forwarderNro

def megabytes (bytes : UInt64) : Bytes := decimal (bytes / 1024 / 1024).toNat

def abandon (config : SelfUpdateConfig) (result : StageResult) (detail : Bytes) :
    PortProgram StageOutcome := do
  let _ ← Ports.remove config.stagedNroPath
  return { result := result, detail := detail }

def draftHandoff (config : SelfUpdateConfig) (manifest : UpdateManifest) (asset : ManifestAsset)
    (now : Int64) : Handoff :=
  { createdAtUnix := now, fromVersion := config.installed.toString,
    toVersion := manifest.version.toString, stagedNro := config.stagedNroPath,
    stagedSha256 := asset.sha256, targetNro := config.targetNro, backupNro := config.backupNroPath,
    forwarderNro := config.forwarderNro, attempts := 0, maxAttempts := config.maxSwapAttempts }

/-- The handoff is read back with the forwarder's own parser before it is written. -/
def handOff (J : JsonLibrary) (config : SelfUpdateConfig) (handoff : Handoff) :
    PortProgram StageOutcome := do
  match serializeHandoff J handoff with
  | none => Ports.abort
  | some document =>
    match parseHandoff J document with
    | .error (.rejected error) =>
      abandon config .writeFailed
        (ascii "refusing to write a handoff this build would reject: " ++ error.describe)
    | .error .fault => Ports.abort
    | .ok _ =>
      let written ← Ports.writeAtomic config.handoffPath document
      if !written then abandon config .writeFailed (ascii "could not write " ++ config.handoffPath)
      else
        return { result := .staged, handoff := some handoff, forwarderPath := config.forwarderNro,
                 forwarderArgs := ascii "\"" ++ config.forwarderNro ++ ascii "\" --handoff=" ++
                   config.handoffPath,
                 detail := ascii "staged " ++ handoff.toVersion ++ ascii "; restart to install" }

/-- The forwarder is confirmed present before the handoff is written. -/
def verifyStaged (J : JsonLibrary) (config : SelfUpdateConfig) (manifest : UpdateManifest)
    (asset : ManifestAsset) : PortProgram StageOutcome := do
  let onDisk ← Ports.digestOf config.stagedNroPath
  if !onDisk.any (digestsEqual · asset.sha256) then
    abandon config .verifyFailed (ascii "the staged binary did not verify after it was written")
  else
    let chainloadable ← ensureForwarder config
    if !chainloadable then
      abandon config .forwarderUnavailable
        (ascii "could not restore " ++ config.forwarderNro ++ ascii " from " ++ config.forwarderSource)
    else
      let now ← Ports.nowUnix
      handOff J config (draftHandoff config manifest asset now)

def transferFailure (error : HttpError) : StageOutcome :=
  if error = .digestMismatch ∨ error = .sizeMismatch then
    { result := .verifyFailed, transport := error,
      detail := describeTransport error ++
        ascii " - the update was discarded and your current version is untouched" }
  else { result := .downloadFailed, transport := error, detail := describeTransport error }

def needed (config : SelfUpdateConfig) (asset : ManifestAsset) : UInt64 :=
  asset.size + asset.size * config.freeSpaceHeadroomPercent.toInt64.toUInt64 / 100

def stage (J : JsonLibrary) (config : SelfUpdateConfig) (manifest : UpdateManifest) :
    PortProgram StageOutcome := do
  match manifest.findAsset .appNro with
  | none =>
    return { result := .noAppAsset, detail := ascii "the manifest describes no app-nro asset" }
  | some asset =>
    let made ← Ports.makeDirectories config.stagingDir
    if !made then
      return { result := .writeFailed, detail := ascii "could not create " ++ config.stagingDir }
    let free ← Ports.freeSpaceBytes config.stagingDir
    match free.filter (· < needed config asset) with
    | some bytes =>
      return { result := .insufficientSpace,
               detail := ascii "need " ++ megabytes (needed config asset) ++ ascii " MB free, have " ++
                 megabytes bytes ++ ascii " MB" }
    | none =>
      let _ ← Ports.remove (config.stagedNroPath ++ ascii ".part")
      let error ← downloadLoop asset config.stagedNroPath 4 0 0
      if error ≠ .none then return transferFailure error
      verifyStaged J config manifest asset

structure Handed (J : JsonLibrary) (config : SelfUpdateConfig) (asset : ManifestAsset) (h : Handoff)
    (c : Card) : Prop where
  instruction : ∃ text, c.lookup config.handoffPath = some text ∧ parseHandoff J text = .ok h
  stagedNro : h.stagedNro = config.stagedNroPath
  targetNro : h.targetNro = config.targetNro
  backupNro : h.backupNro = config.backupNroPath
  digest : h.stagedSha256 = asset.sha256
  attempts : h.attempts = 0
  temporary : c.lookup (config.handoffPath ++ ascii ".tmp") = none
  staged : ∃ b, c.lookup config.stagedNroPath = some b ∧ Sha256.of b = asset.sha256

lemma stagedNroPath_ne_handoffPath (config : SelfUpdateConfig) :
    config.stagedNroPath ≠ config.handoffPath ∧
      config.stagedNroPath ≠ config.handoffPath ++ ascii ".tmp" := by
  constructor
  · exact fun h => absurd (List.append_cancel_left h) (by decide)
  · intro h
    rw [SelfUpdateConfig.handoffPath, List.append_assoc] at h
    exact absurd (List.append_cancel_left h) (by decide)

section

variable {L : Listing} {J : JsonLibrary} {config : SelfUpdateConfig} {manifest : UpdateManifest}
  {asset : ManifestAsset} {c : Card}

abbrev stages (L : Listing) (J : JsonLibrary) (config : SelfUpdateConfig) (asset : ManifestAsset)
    (p : PortProgram StageOutcome) (c : Card) : Prop :=
  (Ports.world L).wp (fun _ => True) (fun _ => True) p
    (fun out c' => out.result = .staged → ∃ h, out.handoff = some h ∧ Handed J config asset h c') c

lemma abandon_stages {result : StageResult} {detail : Bytes} (h : result ≠ .staged) :
    stages L J config asset (abandon config result detail) c :=
  Ports.wp_remove trivial (fun _ hs => absurd hs h) (fun hs => absurd hs h)

lemma handOff_stages {now : Int64}
    (hstaged : ∃ b, c.lookup config.stagedNroPath = some b ∧ Sha256.of b = asset.sha256) :
    stages L J config asset (handOff J config (draftHandoff config manifest asset now)) c := by
  cases hdoc : serializeHandoff J (draftHandoff config manifest asset now) with
  | none =>
    simp only [handOff, hdoc]
    exact Ports.wp_abort trivial
  | some document =>
    cases hparse : parseHandoff J document with
    | error stop =>
      cases stop with
      | rejected error =>
        simp only [handOff, hdoc, hparse]
        exact abandon_stages (by decide)
      | fault =>
        simp only [handOff, hdoc, hparse]
        exact Ports.wp_abort trivial
    | ok h =>
      obtain rfl := parseHandoff_readBack rfl hdoc hparse
      simp only [handOff, hdoc, hparse]
      refine Ports.wp_writeAtomic trivial (fun _ => abandon_stages (by decide)) ?_
      obtain ⟨b, hb, hsha⟩ := hstaged
      obtain ⟨hne, hne'⟩ := stagedNroPath_ne_handoffPath config
      refine fun _ => ⟨_, rfl, ⟨document, AList.lookup_insert _, hparse⟩, rfl, rfl, rfl, rfl, rfl, ?_, b, ?_, hsha⟩
      · rw [Card.lookup_insert_eq, if_neg (by simp [ascii]), AList.lookup_erase]
      · rw [AList.lookup_insert_ne hne, AList.lookup_erase_ne hne', hb]

lemma ensureForwarder_wp {A : Event PortOp PortOp.Reply PortFate → Prop} {C : Card → Prop} {Q : Bool → Card → Prop}
    (hC : C c) (hfail : Q false c) (hkeep : c.has config.forwarderNro = true → Q true c)
    (hcopy : ∀ bytes, c.has config.forwarderNro = false →
      C (c.insert config.forwarderNro bytes) ∧ Q true (c.insert config.forwarderNro bytes)) :
    (Ports.world L).wp A C (ensureForwarder config) Q c := by
  refine Ports.wp_probe hC ?_
  cases hpresent : c.has config.forwarderNro with
  | true => exact hkeep hpresent
  | false =>
    have hcopied : (Ports.world L).wp A C
        (Ports.copyFile config.forwarderSource config.forwarderNro >>= fun copied =>
          if !copied then pure false else Ports.probe config.forwarderNro) Q c := by
      refine Ports.wp_copyFile hC hfail (fun bytes _ => ?_)
      rw [if_neg (by decide), ← Program.bind_done (Ports.probe config.forwarderNro)]
      refine Ports.wp_probe (hcopy bytes hpresent).1 ?_
      have hnow : Card.has (c.insert config.forwarderNro bytes) config.forwarderNro = true :=
        (Card.has_eq_true _ _).mpr ⟨bytes, AList.lookup_insert _⟩
      rw [hnow]
      exact (hcopy bytes hpresent).2
    rw [if_neg (by decide)]
    split
    · exact hcopied
    · exact Ports.wp_makeDirectories hC (fun _ => hcopied) hcopied

lemma verifyStaged_stages : stages L J config asset (verifyStaged J config manifest asset) c := by
  have habandon : stages L J config asset
      (abandon config .verifyFailed (ascii "the staged binary did not verify after it was written")) c :=
    abandon_stages (by decide)
  refine Ports.wp_digestOf trivial habandon ?_
  cases hstaged : c.lookup config.stagedNroPath with
  | none => exact habandon
  | some b =>
    simp only [Option.map_some, Option.any_some]
    by_cases hv : digestsEqual (Sha256.of b) asset.sha256 = true
    · have hsha := (digestsEqual_iff _ _).mp hv
      simp only [hv, Bool.not_true, Bool.false_eq_true, if_false]
      refine (World.wp_bind _ _ _).mpr (ensureForwarder_wp trivial ?_ (fun _ => ?_) (fun bytes habsent => ⟨trivial, ?_⟩))
      · exact abandon_stages (by decide)
      · exact Ports.wp_nowUnix trivial (fun now => handOff_stages ⟨b, hstaged, hsha⟩)
      · refine Ports.wp_nowUnix trivial (fun now => handOff_stages ⟨b, ?_, hsha⟩)
        have hne : config.stagedNroPath ≠ config.forwarderNro := by
          intro heq
          rw [Card.has, ← heq, hstaged] at habsent
          cases habsent
        rw [AList.lookup_insert_ne hne, hstaged]
    · simp only [Bool.not_eq_true] at hv
      simpa only [hv, Bool.not_false, if_true] using habandon

lemma downloadLoop_wp {A : Event PortOp PortOp.Reply PortFate → Prop} {C I : Card → Prop} {path : Bytes}
    {Q : HttpError → Card → Prop} (hC : ∀ c, I c → C c) (hI : I c) (hlost : ∀ c, I c → I (c.erase path))
    (hserved : ∀ c body, I c → I (c.insert path body)) (hQ : ∀ error c', I c' → Q error c')
    (rounds transientTries digestTries : ℕ) :
    (Ports.world L).wp A C (downloadLoop asset path rounds transientTries digestTries) Q c := by
  induction rounds generalizing transientTries digestTries c with
  | zero => exact hQ _ _ hI
  | succ rounds ih =>
    have hnext : ∀ error ≠ HttpError.none, ∀ c', I c' → (Ports.world L).wp A C
        (if error = .none then pure .none
          else if error = .digestMismatch ∧ digestTries + 1 < kDigestAttempts then
            downloadLoop asset path rounds transientTries (digestTries + 1)
          else if isTransient error ∧ transientTries + 1 < kTransientAttempts then
            downloadLoop asset path rounds (transientTries + 1) digestTries
          else pure error) Q c' := by
      intro error herror c' hI'
      rw [if_neg herror]
      split
      · exact ih hI' _ _
      · split
        · exact ih hI' _ _
        · exact hQ _ _ hI'
    exact Ports.wp_download (hC c hI) (fun error herror => hnext error herror c hI)
      (hnext _ (by decide) _ (hlost c hI)) (fun body _ => hQ _ _ (hserved c body hI))

lemma stage_stages (hasset : manifest.findAsset .appNro = some asset) :
    stages L J config asset (stage J config manifest) c := by
  have hother : ∀ {out : StageOutcome} {c' : Card}, out.result ≠ .staged →
      out.result = .staged → ∃ h, out.handoff = some h ∧ Handed J config asset h c' :=
    fun h hs => absurd hs h
  simp only [stage, hasset]
  refine Ports.wp_makeDirectories trivial (fun _ => hother (by simp)) ?_
  refine Ports.wp_freeSpaceBytes trivial (fun free => ?_)
  cases free.filter (· < needed config asset) with
  | some bytes => exact hother (by simp)
  | none =>
    have hdownload : ∀ c', stages L J config asset
        (downloadLoop asset config.stagedNroPath 4 0 0 >>= fun error =>
          if error ≠ .none then pure (transferFailure error) else verifyStaged J config manifest asset) c' := by
      refine fun c' => (World.wp_bind _ _ _).mpr (downloadLoop_wp (I := fun _ => True) (fun _ _ => trivial) trivial
        (fun _ _ => trivial) (fun _ _ _ => trivial) (fun error c'' _ => ?_) 4 0 0)
      split
      · refine hother ?_
        unfold transferFailure
        split <;> simp
      · exact verifyStaged_stages
    exact Ports.wp_remove trivial (fun _ => hdownload c) (hdownload _)

end

lemma handed_of_staged {L : Listing} {J : JsonLibrary} {config : SelfUpdateConfig}
    {manifest : UpdateManifest} {fates : List PortFate} {c : Card} {out : StageOutcome}
    (hout : ((Ports.world L).exec (stage J config manifest) fates c).outcome = some out)
    (hstaged : out.result = .staged) :
    ∃ asset h, manifest.findAsset .appNro = some asset ∧ out.handoff = some h ∧
      Handed J config asset h ((Ports.world L).exec (stage J config manifest) fates c).state := by
  cases hasset : manifest.findAsset .appNro with
  | none =>
    simp only [stage, hasset, Program.pure_eq, World.exec_done, Option.some.injEq] at hout
    subst hout
    cases hstaged
  | some asset =>
    have hstages : stages L J config asset (stage J config manifest) c := stage_stages hasset
    have hends : ((Ports.world L).exec (stage J config manifest) fates c).Ends _ _ :=
      World.exec_ends hstages (fun _ _ => trivial)
    rw [Trace.Ends, hout] at hends
    obtain ⟨h, hh, hhanded⟩ := hends hstaged
    exact ⟨asset, h, rfl, hh, hhanded⟩

end NsxManager.SelfUpdate
