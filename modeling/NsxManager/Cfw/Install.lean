import NsxManager.Core.MergeMarker
import NsxManager.Infra.ZipExtractor

/-! Installing a package: fetch it, expand it, and move it into place so that it can be undone. -/

namespace NsxManager.Cfw

open NsxManager.Core Lib Infra

inductive InstallTarget where
  | sdRoot
  | atmosphereContents
  | bootloader
  | firmwareStaging
  | switchApps
  | themes
  deriving DecidableEq

structure CatalogItem where
  id : Bytes
  name : Bytes
  target : InstallTarget
  versionText : Bytes
  url : Bytes
  size : UInt64
  sha256 : Digest
  honourPreserveRules : Bool
  deriving DecidableEq

structure CfwInstallConfig where
  stagingRoot : Bytes := ascii "/config/nsx-manager/staging/cfw"
  sdRoot : Bytes := ascii "/"
  atmosphereContents : Bytes := ascii "/atmosphere/contents"
  bootloader : Bytes := ascii "/bootloader"
  firmwareStaging : Bytes := ascii "/firmware"
  switchApps : Bytes := ascii "/switch"
  themes : Bytes := ascii "/themes"
  freeSpaceHeadroomPercent : Int32 := 250
  maxUncompressedBytes : UInt64 := 6 * 1024 * 1024 * 1024
  deriving DecidableEq

namespace CfwInstallConfig

variable (config : CfwInstallConfig)

def resolve : InstallTarget → Bytes
  | .sdRoot => config.sdRoot
  | .atmosphereContents => config.atmosphereContents
  | .bootloader => config.bootloader
  | .firmwareStaging => config.firmwareStaging
  | .switchApps => config.switchApps
  | .themes => config.themes

def stagingFor (itemId : Bytes) : Bytes := config.stagingRoot ++ ascii "/" ++ itemId

def archiveFor (itemId : Bytes) : Bytes := config.stagingRoot ++ ascii "/" ++ itemId ++ ascii ".zip"

def backupFor (itemId : Bytes) : Bytes := config.stagingRoot ++ ascii "/" ++ itemId ++ ascii ".backup"

def markerPath : Bytes := config.stagingRoot ++ ascii "/merge.json"

def mergeFileListPath : Bytes := config.stagingRoot ++ ascii "/merge.files"

end CfwInstallConfig

inductive InstallResult where
  | installed
  | insufficientSpace
  | downloadFailed
  | verifyFailed
  | unsafeArchive
  | extractFailed
  | mergeFailed
  | rolledBack
  | cancelled
  | busy
  deriving DecidableEq

structure InstallOutcome where
  result : InstallResult := .downloadFailed
  filesMerged : ℕ := 0
  filesPreserved : ℕ := 0
  filesReplaced : ℕ := 0
  transport : HttpError := .none
  detail : Bytes := []
  deriving DecidableEq

def InstallOutcome.cardUnchanged (out : InstallOutcome) : Bool :=
  out.result ≠ .installed && out.result ≠ .mergeFailed

def join (root relative : Bytes) : Bytes :=
  if root.isEmpty || root = ascii "/" then ascii "/" ++ relative
  else if root.getLast? == some (byte '/') then root ++ relative
  else root ++ ascii "/" ++ relative

def kPartialRestore : Bytes :=
  ascii "the installation failed and some files could not be put back - reinstall the pack to be " ++
    ascii "sure"

def discardStaging (config : CfwInstallConfig) (itemId : Bytes) : PortProgram Unit := do
  Ports.removeTree (config.stagingFor itemId)
  let _ ← Ports.remove (config.archiveFor itemId ++ ascii ".part")
  let _ ← Ports.remove (config.archiveFor itemId)
  return ()

/-! The merge. -/

structure Tally where
  filesMerged : ℕ := 0
  filesReplaced : ℕ := 0
  deriving DecidableEq

structure Interruption where
  result : InstallResult
  detail : Bytes
  deriving DecidableEq

structure MergePlan where
  marker : MergeMarker
  toWrite : List Bytes
  filesPreserved : ℕ
  deriving DecidableEq

def report (watched : Bool) (progress : InstallProgress) : PortProgram Bool :=
  if watched then Ports.report progress else pure true

def setAside (marker : MergeMarker) (relative : Bytes) : PortProgram (Option Interruption) := do
  let made ← makeParent (join marker.backupDir relative)
  if !made then
    return some ⟨.rolledBack, ascii "could not back up " ++ relative ++ ascii "; nothing was changed"⟩
  else
    let renamed ← Ports.rename (join marker.destinationRoot relative) (join marker.backupDir relative)
    if !renamed then
      return some ⟨.rolledBack, ascii "could not set aside " ++ relative ++ ascii "; nothing was changed"⟩
    else return none

def moveIn (marker : MergeMarker) (relative : Bytes) : PortProgram (Option Interruption) := do
  let made ← makeParent (join marker.destinationRoot relative)
  if !made then return some ⟨.rolledBack, ascii "could not create a directory for " ++ relative⟩
  else
    let renamed ← Ports.rename (join marker.stagingDir relative) (join marker.destinationRoot relative)
    if !renamed then
      return some ⟨.rolledBack,
        ascii "could not install " ++ relative ++ ascii "; the previous files were restored"⟩
    else return none

def mergeLoop (watched : Bool) (marker : MergeMarker) (total : ℕ) :
    ℕ → List Bytes → Tally → PortProgram (Tally × Option Interruption)
  | _, [], tally => return (tally, none)
  | done, relative :: rest, tally => do
    let going ← report watched ⟨.merging, done + 1, total, relative⟩
    if !going then
      return (tally, some ⟨.cancelled, ascii "cancelled; the previous files were restored"⟩)
    else
      let present ← Ports.probe (join marker.destinationRoot relative)
      let aside ← if present then setAside marker relative else pure none
      match aside with
      | some stop => return (tally, some stop)
      | none =>
        let tally := { tally with filesReplaced := tally.filesReplaced + if present then 1 else 0 }
        let moved ← moveIn marker relative
        match moved with
        | some stop => return (tally, some stop)
        | none =>
          mergeLoop watched marker total (done + 1) rest { tally with filesMerged := tally.filesMerged + 1 }

def restoreAll (marker : MergeMarker) : List Bytes → PortProgram Bool
  | [] => return true
  | relative :: rest => do
    let _ ← makeParent (join marker.destinationRoot relative)
    let renamed ← Ports.rename (join marker.backupDir relative) (join marker.destinationRoot relative)
    let complete ← restoreAll marker rest
    return renamed && complete

/-- A staged copy that is still there means that the file was never installed. -/
def withdraw (marker : MergeMarker) (displaced : List Bytes) (relative : Bytes) : PortProgram Unit := do
  if relative ∈ displaced then return ()
  else
    let waiting ← Ports.probe (join marker.stagingDir relative)
    if waiting then return ()
    else
      let _ ← Ports.remove (join marker.destinationRoot relative)
      return ()

def commit (config : CfwInstallConfig) (marker : MergeMarker) : PortProgram Unit := do
  Ports.removeTree marker.backupDir
  Ports.removeTree marker.stagingDir
  let _ ← Ports.remove (config.archiveFor marker.itemId)
  let _ ← Ports.remove config.mergeFileListPath
  let _ ← Ports.remove config.markerPath
  return ()

def rollBack (config : CfwInstallConfig) (marker : MergeMarker) (planned : List Bytes) : PortProgram Bool := do
  let backedUp ← Ports.listFilesRecursive marker.backupDir
  let complete ← restoreAll marker backedUp
  Program.each (withdraw marker backedUp) planned
  commit config marker
  return complete

def giveUp (config : CfwInstallConfig) (item : CatalogItem) (filesPreserved : ℕ) (result : InstallResult)
    (detail : Bytes) : PortProgram (Except InstallOutcome MergePlan) := do
  discardStaging config item.id
  return .error { result := result, filesPreserved := filesPreserved, detail := detail }

def planFiles (preserve : PreserveRules) (destination : Bytes) : List Bytes → PortProgram (List Bytes × ℕ)
  | [] => return ([], 0)
  | relative :: rest => do
    let kept ← if preserve.preserves relative then Ports.probe (join destination relative) else pure false
    let (toWrite, filesPreserved) ← planFiles preserve destination rest
    if kept then return (toWrite, filesPreserved + 1) else return (relative :: toWrite, filesPreserved)

def planText (toWrite : List Bytes) : Bytes := toWrite.flatMap (fun relative => relative ++ ascii "\n")

def record (config : CfwInstallConfig) (item : CatalogItem) (plan : MergePlan) (document : Bytes) :
    PortProgram (Except InstallOutcome MergePlan) := do
  let listed ← Ports.writeAtomic config.mergeFileListPath (planText plan.toWrite)
  if !listed then
    giveUp config item plan.filesPreserved .mergeFailed
      (ascii "could not record what the installation would write")
  else
    let noted ← Ports.writeAtomic config.markerPath document
    if !noted then
      let _ ← Ports.remove config.mergeFileListPath
      giveUp config item plan.filesPreserved .mergeFailed (ascii "could not record the installation")
    else return .ok plan

def draftMarker (config : CfwInstallConfig) (item : CatalogItem) (stagingDir destination : Bytes)
    (now : Int64) : MergeMarker :=
  { createdAtUnix := now, itemId := item.id, itemName := item.name, stagingDir := stagingDir,
    destinationRoot := destination, backupDir := config.backupFor item.id }

/-- The part of `mergeStagedTree` before its loop. The marker is read back with the parser a
recovery uses. -/
def beginMerge (J : JsonLibrary) (config : CfwInstallConfig) (item : CatalogItem) (preserve : PreserveRules)
    (stagingDir destination : Bytes) : PortProgram (Except InstallOutcome MergePlan) := do
  let staged ← Ports.listFilesRecursive stagingDir
  if staged.isEmpty then
    giveUp config item 0 .extractFailed (ascii "the package expanded to nothing")
  else
    let now ← Ports.nowUnix
    let marker := draftMarker config item stagingDir destination now
    match serializeMergeMarker J marker with
    | none => Ports.abort
    | some document =>
      match parseMergeMarker J document with
      | .error .fault => Ports.abort
      | .error (.rejected _) =>
        giveUp config item 0 .mergeFailed (ascii "refusing to start a merge this build could not undo")
      | .ok _ =>
        let (toWrite, filesPreserved) ← planFiles preserve destination staged
        record config item ⟨marker, toWrite, filesPreserved⟩ document

/-- The merge up to where it is committed or rolled back. -/
def moveTree (J : JsonLibrary) (config : CfwInstallConfig) (watched : Bool) (item : CatalogItem)
    (preserve : PreserveRules) (stagingDir destination : Bytes) :
    PortProgram (Except InstallOutcome (MergePlan × Tally × Option Interruption)) := do
  let begun ← beginMerge J config item preserve stagingDir destination
  match begun with
  | .error out => return .error out
  | .ok plan =>
    let (tally, stop) ← mergeLoop watched plan.marker plan.toWrite.length 0 plan.toWrite {}
    return .ok (plan, tally, stop)

def outcomeOf (plan : MergePlan) (tally : Tally) (result : InstallResult) (detail : Bytes) : InstallOutcome :=
  { result := result, filesMerged := tally.filesMerged, filesPreserved := plan.filesPreserved,
    filesReplaced := tally.filesReplaced, detail := detail }

def conclude (config : CfwInstallConfig) (item : CatalogItem) (plan : MergePlan) (tally : Tally) :
    Option Interruption → PortProgram InstallOutcome
  | none => do
    commit config plan.marker
    return outcomeOf plan tally .installed
      (ascii "installed " ++ item.name ++
        (if item.versionText.isEmpty then [] else ascii " " ++ item.versionText))
  | some stop => do
    let restored ← rollBack config plan.marker plan.toWrite
    if restored then return outcomeOf plan tally stop.result stop.detail
    else return outcomeOf plan tally .mergeFailed kPartialRestore

def settle (config : CfwInstallConfig) (item : CatalogItem) :
    Except InstallOutcome (MergePlan × Tally × Option Interruption) → PortProgram InstallOutcome
  | .error out => return out
  | .ok (plan, tally, stop) => conclude config item plan tally stop

def mergeStagedTree (J : JsonLibrary) (config : CfwInstallConfig) (watched : Bool) (item : CatalogItem)
    (preserve : PreserveRules) (stagingDir destination : Bytes) : PortProgram InstallOutcome := do
  let moved ← moveTree J config watched item preserve stagingDir destination
  settle config item moved

/-! Fetching the package. -/

def needed (config : CfwInstallConfig) (item : CatalogItem) : UInt64 :=
  item.size + item.size * config.freeSpaceHeadroomPercent.toInt64.toUInt64 / 100

def megabytes (bytes : UInt64) : Bytes := decimal (bytes / 1024 / 1024).toNat

def transferFailure (error : HttpError) : InstallOutcome :=
  { result :=
      if error = .digestMismatch ∨ error = .sizeMismatch then .verifyFailed
      else if error = .aborted then .cancelled else .downloadFailed,
    transport := error, detail := error.describe }

def extractionFailure (error : ArchiveError) : InstallOutcome :=
  { result :=
      if error = .unsafeEntry then .unsafeArchive else if error = .aborted then .cancelled else .extractFailed,
    detail := error.describe }

def cancelled : InstallOutcome := { result := .cancelled, detail := ascii "cancelled" }

def extractTree (config : CfwInstallConfig) (watched : Bool) (item : CatalogItem) :
    PortProgram (Option InstallOutcome) := do
  let going ← report watched ⟨.extracting, 0, 0, item.name⟩
  if !going then
    discardStaging config item.id
    return some cancelled
  else
    let made ← Ports.makeDirectories (config.stagingFor item.id)
    if !made then
      discardStaging config item.id
      return some { result := .extractFailed,
                    detail := ascii "could not create " ++ config.stagingFor item.id }
    else
      let extracted ← extractZip (config.archiveFor item.id)
        ⟨config.stagingFor item.id, PreserveRules.parse []⟩ config.maxUncompressedBytes
        (fun p => report watched ⟨.extracting, p.entriesDone, p.entriesTotal,
          if p.currentEntry.isEmpty then item.name else p.currentEntry⟩)
      match extracted with
      | .error error =>
        discardStaging config item.id
        return some (extractionFailure error)
      | .ok _ => return none

def downloadTree (config : CfwInstallConfig) (watched : Bool) (item : CatalogItem) :
    PortProgram (Option InstallOutcome) := do
  let going ← report watched ⟨.downloading, 0, item.size.toNat, item.name⟩
  if !going then return some cancelled
  else
    let error ← Ports.download item.url (config.archiveFor item.id) ⟨item.size, item.sha256⟩
    if error ≠ .none then
      discardStaging config item.id
      return some (transferFailure error)
    else extractTree config watched item

/-- `install` up to the merge; nothing means that the package is staged. -/
def fetchTree (config : CfwInstallConfig) (watched : Bool) (item : CatalogItem) :
    PortProgram (Option InstallOutcome) := do
  let inFlight ← Ports.probe config.markerPath
  if inFlight then
    return some { result := .busy, detail := ascii "an interrupted installation must be resolved first" }
  else
    let going ← report watched ⟨.preflight, 0, 0, item.name⟩
    if !going then return some cancelled
    else
      discardStaging config item.id
      Ports.removeTree (config.backupFor item.id)
      let made ← Ports.makeDirectories config.stagingRoot
      if !made then
        return some { result := .mergeFailed, detail := ascii "could not create " ++ config.stagingRoot }
      else
        let free ← Ports.freeSpaceBytes config.stagingRoot
        match free.filter (· < needed config item) with
        | some bytes =>
          return some { result := .insufficientSpace,
                        detail := ascii "need about " ++ megabytes (needed config item) ++
                          ascii " MB free, have " ++ megabytes bytes ++ ascii " MB" }
        | none => downloadTree config watched item

def rulesFor (item : CatalogItem) (preserve : PreserveRules) : PreserveRules :=
  if item.honourPreserveRules then preserve else PreserveRules.parse []

def install (J : JsonLibrary) (config : CfwInstallConfig) (watched : Bool) (item : CatalogItem)
    (preserve : PreserveRules) : PortProgram InstallOutcome := do
  let stopped ← fetchTree config watched item
  match stopped with
  | some out => return out
  | none =>
    mergeStagedTree J config watched item (rulesFor item preserve) (config.stagingFor item.id)
      (config.resolve item.target)

def installTree (J : JsonLibrary) (config : CfwInstallConfig) (watched : Bool) (item : CatalogItem)
    (preserve : PreserveRules) :
    PortProgram (Except InstallOutcome (MergePlan × Tally × Option Interruption)) := do
  let stopped ← fetchTree config watched item
  match stopped with
  | some out => return .error out
  | none =>
    moveTree J config watched item (rulesFor item preserve) (config.stagingFor item.id)
      (config.resolve item.target)

lemma install_eq (J : JsonLibrary) (config : CfwInstallConfig) (watched : Bool) (item : CatalogItem)
    (preserve : PreserveRules) :
    install J config watched item preserve =
      installTree J config watched item preserve >>= settle config item := by
  rw [install, installTree, Program.bind_assoc]
  congr 1
  funext stopped
  cases stopped <;> rfl

/-! Recovery. -/

def plannedIn (raw : Bytes) : List Bytes := (List.splitOn (byte '\n') raw).filter (fun line => !line.isEmpty)

def readPlannedFiles (config : CfwInstallConfig) : PortProgram (List Bytes) := do
  let raw ← Ports.readText config.mergeFileListPath (8 * 1024 * 1024)
  match raw with
  | none => return []
  | some raw => return plannedIn raw

def survey (J : JsonLibrary) (config : CfwInstallConfig) : PortProgram (Option MergeMarker × MergePresence) := do
  let inFlight ← Ports.probe config.markerPath
  if !inFlight then return (none, {})
  else
    let raw ← Ports.readText config.markerPath (64 * 1024)
    match raw with
    | none => return (none, { marker := true })
    | some raw =>
      match parseMergeMarker J raw with
      | .error .fault => Ports.abort
      | .error (.rejected _) => return (none, { marker := true })
      | .ok marker =>
        let staging ← Ports.listFilesRecursive marker.stagingDir
        let backup ← Ports.listFilesRecursive marker.backupDir
        return (some marker, ⟨true, !staging.isEmpty, !backup.isEmpty, true⟩)

def clearUp (config : CfwInstallConfig) (marker : Option MergeMarker) : PortProgram Unit := do
  match marker with
  | some marker =>
    Ports.removeTree marker.stagingDir
    Ports.removeTree marker.backupDir
    let _ ← Ports.remove (config.archiveFor marker.itemId)
  | none => pure ()
  let _ ← Ports.remove config.mergeFileListPath
  let _ ← Ports.remove config.markerPath
  return ()

def undoMerge (config : CfwInstallConfig) (marker : MergeMarker) (reason : Bytes) :
    PortProgram InstallOutcome := do
  let toRestore ← Ports.listFilesRecursive marker.backupDir
  let planned ← readPlannedFiles config
  let complete ← rollBack config marker planned
  return { result := if complete then .rolledBack else .mergeFailed, filesReplaced := toRestore.length,
           detail :=
             if !complete then ascii "some files could not be restored; reinstall the pack to be sure"
             else if planned.isEmpty then
               reason ++ ascii " - the list of installed files was lost, so some of the new " ++
                 ascii "package may remain"
             else reason }

def carryOut (config : CfwInstallConfig) (marker : Option MergeMarker) (decision : MergeRecoveryDecision) :
    PortProgram InstallOutcome :=
  match decision.action with
  | .nothing => return { result := .installed, detail := decision.reason }
  | .unrecoverable => return { result := .mergeFailed, detail := decision.reason }
  | .cleanUpOnly => do
    clearUp config marker
    return { result := .rolledBack, detail := decision.reason }
  | .rollBack =>
    match marker with
    | some marker => undoMerge config marker decision.reason
    | none => Ports.abort

def recoverInterruptedMerge (J : JsonLibrary) (config : CfwInstallConfig) : PortProgram InstallOutcome := do
  let (marker, present) ← survey J config
  carryOut config marker (decideMergeRecovery marker present)

end NsxManager.Cfw
