import NsxManager.Catalog.Document
import NsxManager.Core.FirmwareSet

/-! Staging a firmware set for Daybreak. A set is replaced whole and nothing of it is backed up, so the one
that is there goes only when its replacement has been verified. -/

namespace NsxManager.Firmware

open NsxManager.Core Lib Infra Catalog

structure FirmwareConfig where
  firmwareDir : Bytes := ascii "/firmware"
  stagingRoot : Bytes := ascii "/config/nsx-manager/staging/firmware"
  daybreakNro : Bytes := ascii "/switch/daybreak.nro"
  freeSpaceHeadroomPercent : Int32 := 220
  maxUncompressedBytes : UInt64 := 4 * 1024 * 1024 * 1024
  deriving DecidableEq

def FirmwareConfig.archiveFor (config : FirmwareConfig) (itemId : Bytes) : Bytes :=
  config.stagingRoot ++ ascii "/" ++ itemId ++ ascii ".zip"

inductive FirmwareResult where
  | ready
  | notFirmwareItem
  | insufficientSpace
  | downloadFailed
  | verifyFailed
  | unsafeArchive
  | extractFailed
  | directoryNotOurs
  | clearFailed
  | notFirmwareContent
  | daybreakMissing
  | cancelled
  deriving DecidableEq

structure FirmwareOutcome where
  result : FirmwareResult := .downloadFailed
  filesStaged : ℕ := 0
  previousFilesRemoved : ℕ := 0
  unexpectedFiles : List Bytes := []
  transport : HttpError := .none
  detail : Bytes := []
  firmwareDir : Bytes := []
  daybreakArgs : Bytes := []
  deriving DecidableEq

def report (watched : Bool) (progress : FirmwareProgress) : PortProgram Bool :=
  if watched then Ports.reportFirmware progress else pure true

def cancelled : FirmwareOutcome := { result := .cancelled, detail := ascii "cancelled" }

def transferFailure (error : HttpError) : FirmwareOutcome :=
  { result :=
      if error = .digestMismatch ∨ error = .sizeMismatch then .verifyFailed
      else if error = .aborted then .cancelled else .downloadFailed,
    transport := error, detail := error.describe }

def extractionFailure (error : ArchiveError) : FirmwareOutcome :=
  { result :=
      if error = .unsafeEntry then .unsafeArchive else if error = .aborted then .cancelled else .extractFailed,
    detail := error.describe }

def notOurs (existing : FirmwareDirectoryScan) : FirmwareOutcome :=
  { result := .directoryNotOurs, unexpectedFiles := existing.unexpected,
    detail := ascii "/firmware contains " ++ decimal existing.unexpected.length ++
      ascii " file(s) this application did not put there, starting with '" ++ existing.unexpected.headD [] ++
      ascii "'. Move them out and try again." }

section Stage

variable (config : FirmwareConfig) (watched : Bool) (item : Item)

def inspect : PortProgram FirmwareDirectoryScan := do
  let names ← Ports.listFilesRecursive config.firmwareDir
  return scanFirmwareDirectory names

def discardStaging (itemId : Bytes) : PortProgram Unit := do
  let _ ← Ports.remove (config.archiveFor itemId ++ ascii ".part")
  let _ ← Ports.remove (config.archiveFor itemId)
  return ()

def needed : UInt64 := item.size + item.size * config.freeSpaceHeadroomPercent.toInt64.toUInt64 / 100

def discarding (out : FirmwareOutcome) : PortProgram FirmwareOutcome := do
  discardStaging config item.id
  return out

def fetchArchive : PortProgram (Option FirmwareOutcome) := do
  let going ← report watched ⟨.downloading, 0, item.size.toNat, item.name⟩
  if !going then return some cancelled
  else
    let error ← Ports.download item.url (config.archiveFor item.id) ⟨item.size, item.sha256⟩
    if error ≠ .none then
      let out ← discarding config item (transferFailure error)
      return some out
    else return none

def makeRoom : PortProgram (Option FirmwareOutcome) := do
  discardStaging config item.id
  let made ← Ports.makeDirectories config.stagingRoot
  if !made then
    return some { result := .extractFailed, detail := ascii "could not create " ++ config.stagingRoot }
  else
    let free ← Ports.freeSpaceBytes config.stagingRoot
    match free.filter (· < needed config item) with
    | some bytes =>
      return some { result := .insufficientSpace,
                    detail := ascii "need about " ++ Cfw.megabytes (needed config item) ++
                      ascii " MB free, have " ++ Cfw.megabytes bytes ++ ascii " MB" }
    | none => return none

def preflight : PortProgram (Except FirmwareOutcome FirmwareDirectoryScan) := do
  if item.kind ≠ .firmware then
    return .error { result := .notFirmwareItem,
                    detail := ascii "'" ++ item.name ++ ascii "' is not a firmware set" }
  else
    let going ← report watched ⟨.preflight, 0, 0, item.name⟩
    if !going then return .error cancelled
    else
      let existing ← inspect config
      if !existing.onlyFirmware then return .error (notOurs existing)
      else
        let installer ← Ports.probe config.daybreakNro
        if !installer then
          return .error { result := .daybreakMissing,
                          detail := ascii "install Daybreak at " ++ config.daybreakNro ++ ascii " first" }
        else
          let stopped ← makeRoom config item
          match stopped with
          | some out => return .error out
          | none => return .ok existing

def fetchSet : PortProgram (Except FirmwareOutcome FirmwareDirectoryScan) := do
  let prepared ← preflight config watched item
  match prepared with
  | .error out => return .error out
  | .ok existing =>
    let stopped ← fetchArchive config watched item
    match stopped with
    | some out => return .error out
    | none => return .ok existing

def clearLoop : ℕ → List Bytes → PortProgram (ℕ × Option Bytes)
  | removed, [] => return (removed, none)
  | removed, relative :: rest => do
    let gone ← Ports.remove (Cfw.join config.firmwareDir relative)
    if !gone then return (removed, some relative)
    else clearLoop (removed + 1) rest

def clearSet : PortProgram (ℕ × Option Bytes) := do
  let names ← Ports.listFilesRecursive config.firmwareDir
  clearLoop config 0 names

def readySet (removed : ℕ) (staged : List Bytes) : FirmwareOutcome :=
  { result := .ready, filesStaged := staged.length, previousFilesRemoved := removed,
    firmwareDir := config.firmwareDir,
    daybreakArgs := ascii "\"" ++ config.daybreakNro ++ ascii "\" \"" ++ config.firmwareDir ++ ascii "\"",
    detail := ascii "firmware " ++ (if item.versionText.isEmpty then item.name else item.versionText) ++
      ascii " is ready; Daybreak will install it" }

/-- No preserve rules: there is nothing of the user's in a directory that was just emptied. -/
def extractSet (removed : ℕ) : PortProgram FirmwareOutcome := do
  let extracted ← extractZip (config.archiveFor item.id) ⟨config.firmwareDir, PreserveRules.parse []⟩
    config.maxUncompressedBytes
    (fun p => report watched ⟨.extracting, p.entriesDone, p.entriesTotal,
      if p.currentEntry.isEmpty then item.name else p.currentEntry⟩)
  match extracted with
  | .error error => discarding config item { extractionFailure error with previousFilesRemoved := removed }
  | .ok _ =>
    let staged ← Ports.listFilesRecursive config.firmwareDir
    if !looksLikeFirmware staged then
      discarding config item
        { result := .notFirmwareContent, previousFilesRemoved := removed,
          detail := if staged.isEmpty then ascii "the archive expanded to nothing"
            else ascii "the archive contains no firmware content" }
    else discarding config item (readySet config item removed staged)

def fillSet (removed : ℕ) : PortProgram FirmwareOutcome := do
  let made ← Ports.makeDirectories config.firmwareDir
  if !made then
    discarding config item { result := .clearFailed, previousFilesRemoved := removed,
                             detail := ascii "could not create " ++ config.firmwareDir }
  else
    let going ← report watched ⟨.extracting, 0, 0, item.name⟩
    if !going then discarding config item { cancelled with previousFilesRemoved := removed }
    else extractSet config watched item removed

def afterClearing : ℕ × Option Bytes → PortProgram FirmwareOutcome
  | (removed, some relative) =>
    discarding config item
      { result := .clearFailed, previousFilesRemoved := removed,
        detail := ascii "could not remove " ++ relative ++ ascii " from " ++ config.firmwareDir }
  | (removed, none) => fillSet config watched item removed

def replaceSet (existing : FirmwareDirectoryScan) : PortProgram FirmwareOutcome := do
  let going ← report watched ⟨.clearing, 0, existing.firmwareFiles, config.firmwareDir⟩
  if !going then discarding config item cancelled
  else
    let cleared ← clearSet config
    afterClearing config watched item cleared

def afterFetching : Except FirmwareOutcome FirmwareDirectoryScan → PortProgram FirmwareOutcome
  | .error out => return out
  | .ok existing => replaceSet config watched item existing

def stage : PortProgram FirmwareOutcome := do
  let fetched ← fetchSet config watched item
  afterFetching config watched item fetched

end Stage

end NsxManager.Firmware
