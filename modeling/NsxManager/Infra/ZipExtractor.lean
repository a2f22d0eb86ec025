import NsxManager.Core.Extraction
import NsxManager.Ports

/-! Expanding an archive: the whole of it is judged before any of it is written. -/

namespace NsxManager.Infra

open NsxManager.Core Lib

structure ExtractionProgress where
  entriesDone : ℕ
  entriesTotal : ℕ
  bytesWritten : UInt64
  currentEntry : Bytes
  deriving DecidableEq

structure ExtractionReport where
  filesWritten : ℕ := 0
  directoriesCreated : ℕ := 0
  skippedPreserved : ℕ := 0
  bytesWritten : UInt64 := 0
  deriving DecidableEq

def makeParent (path : Bytes) : PortProgram Bool :=
  if (parentOf path).isEmpty then pure true else Ports.makeDirectories (parentOf path)

def extractFile (entry : ZipEntry) (destination : Bytes) (report : ExtractionReport) :
    PortProgram (Except ArchiveError ExtractionReport) := do
  let made ← makeParent destination
  if !made then return .error .directoryFailed
  else
    let failure ← Ports.unpack destination entry.body
    match failure with
    | some error => return .error error
    | none =>
      return .ok { report with filesWritten := report.filesWritten + 1,
                               bytesWritten := report.bytesWritten + entry.uncompressedSize }

def extractEntry (policy : ExtractionPolicy) (entry : ZipEntry) (report : ExtractionReport) :
    PortProgram (Except ArchiveError ExtractionReport) := do
  let decision := policy.decide entry.name
  match decision.action with
  | .skipPreserved => return .ok { report with skippedPreserved := report.skippedPreserved + 1 }
  | .createDirectory =>
    let made ← Ports.makeDirectories decision.destination
    if !made then return .error .directoryFailed
    else return .ok { report with directoriesCreated := report.directoriesCreated + 1 }
  | _ => extractFile entry decision.destination report

def extractLoop (policy : ExtractionPolicy) (onProgress : ExtractionProgress → PortProgram Bool) (total : ℕ) :
    ℕ → List ZipEntry → ExtractionReport → PortProgram (Except ArchiveError ExtractionReport)
  | _, [], report => return .ok report
  | i, entry :: rest, report => do
    let going ← onProgress ⟨i, total, report.bytesWritten, entry.name⟩
    if !going then return .error .aborted
    else
      let extracted ← extractEntry policy entry report
      match extracted with
      | .error error => return .error error
      | .ok report => extractLoop policy onProgress total (i + 1) rest report

def declaredTotal (entries : List ZipEntry) : UInt64 :=
  entries.foldl (fun total entry => total + entry.uncompressedSize) 0

/-- One unsafe entry condemns the archive. -/
def extractEntries (policy : ExtractionPolicy) (maxUncompressedBytes : UInt64)
    (onProgress : ExtractionProgress → PortProgram Bool) (entries : List ZipEntry) :
    PortProgram (Except ArchiveError ExtractionReport) := do
  if entries.isEmpty then return .error .empty
  else if entries.any (fun entry => (policy.decide entry.name).action == .reject) then
    return .error .unsafeEntry
  else if 0 < maxUncompressedBytes ∧ maxUncompressedBytes < declaredTotal entries then
    return .error .tooLarge
  else
    let extracted ← extractLoop policy onProgress entries.length 0 entries {}
    match extracted with
    | .error error => return .error error
    | .ok report =>
      let _ ← onProgress ⟨entries.length, entries.length, report.bytesWritten, []⟩
      return .ok report

def extractZip (archivePath : Bytes) (policy : ExtractionPolicy) (maxUncompressedBytes : UInt64)
    (onProgress : ExtractionProgress → PortProgram Bool) : PortProgram (Except ArchiveError ExtractionReport) := do
  let entries ← Ports.entries archivePath
  extractEntries policy maxUncompressedBytes onProgress entries

section Asks

variable {P : PortOp → Prop}

lemma asks_makeParent (h : ∀ path, P (.makeDirectories path)) (path : Bytes) : (makeParent path).Asks P := by
  unfold makeParent
  split
  · trivial
  · exact ⟨h _, fun _ => trivial⟩

variable {policy : ExtractionPolicy} (hroot : policy.root.getLast? ≠ some (byte '/'))
  (hdirectory : ∀ path, P (.makeDirectories path))

include hroot hdirectory

lemma asks_extractEntry {entry : ZipEntry} (h : (policy.decide entry.name).action ≠ .reject)
    (hunpack : isDirectoryName entry.name = false → validateEntryName entry.name = .ok () →
      P (.unpack (policy.root ++ ascii "/" ++ entry.name) entry.body))
    (report : ExtractionReport) : (extractEntry policy entry report).Asks P := by
  obtain ⟨hdestination, hvalid⟩ := decide_destination hroot h
  have hfile : isDirectoryName entry.name = false →
      (extractFile entry (policy.decide entry.name).destination report).Asks P := by
    intro hname
    refine (asks_makeParent hdirectory _).bind (fun made => ?_)
    split
    · trivial
    · refine ⟨hdestination ▸ hunpack hname hvalid, fun failure => ?_⟩
      cases failure <;> trivial
  have hmake : (Ports.makeDirectories (policy.decide entry.name).destination).Asks P :=
    ⟨hdirectory _, fun _ => trivial⟩
  unfold extractEntry
  dsimp only
  cases haction : (policy.decide entry.name).action with
  | skipPreserved => trivial
  | createDirectory =>
    refine hmake.bind (fun made => ?_)
    split <;> trivial
  | write => exact hfile (isDirectoryName_of_write haction)
  | reject => exact absurd haction h

variable {onProgress : ExtractionProgress → PortProgram Bool} (hprogress : ∀ p, (onProgress p).Asks P)

include hprogress

lemma asks_extractLoop (total i : ℕ) (entries : List ZipEntry) (report : ExtractionReport)
    (h : ∀ entry ∈ entries, (policy.decide entry.name).action ≠ .reject)
    (hunpack : ∀ entry ∈ entries, isDirectoryName entry.name = false → validateEntryName entry.name = .ok () →
      P (.unpack (policy.root ++ ascii "/" ++ entry.name) entry.body)) :
    (extractLoop policy onProgress total i entries report).Asks P := by
  induction entries generalizing i report with
  | nil => trivial
  | cons entry rest ih =>
    obtain ⟨hentry, hrest⟩ := List.forall_mem_cons.mp h
    obtain ⟨hunpack, hunpacks⟩ := List.forall_mem_cons.mp hunpack
    refine (hprogress _).bind (fun going => ?_)
    split
    · trivial
    · refine (asks_extractEntry hroot hdirectory hentry hunpack report).bind (fun extracted => ?_)
      cases extracted with
      | error error => trivial
      | ok report => exact ih _ _ hrest hunpacks

lemma asks_extractZip {archivePath : Bytes}
    (hunpack : ∀ name body, validateEntryName name = .ok () → P (.unpack (policy.root ++ ascii "/" ++ name) body))
    (hentries : P (.entries archivePath)) (maxUncompressedBytes : UInt64) :
    (extractZip archivePath policy maxUncompressedBytes onProgress).Asks P := by
  have hread : (Ports.entries archivePath).Asks P := ⟨hentries, fun _ => trivial⟩
  refine hread.bind (fun entries => ?_)
  unfold extractEntries
  split
  · trivial
  split
  · trivial
  · next hsafe =>
    split
    · trivial
    refine (asks_extractLoop hroot hdirectory hprogress _ _ _ _ ?_ (fun entry _ _ => hunpack _ _)).bind
      (fun extracted => ?_)
    · simpa using hsafe
    · cases extracted with
      | error error => trivial
      | ok report => exact (hprogress _).bind (fun _ => trivial)

end Asks

/-! Where nothing fails, everything that is to be written is. -/

section Run

variable {L : Listing} {policy : ExtractionPolicy} {c : Card}

lemma run_makeParent (path : Bytes) : (Ports.world L).run .ok (makeParent path) c = (some true, c) := by
  unfold makeParent
  split <;> rfl

lemma run_extractFile (entry : ZipEntry) (destination : Bytes) (report : ExtractionReport) : ∃ report',
    (Ports.world L).run .ok (extractFile entry destination report) c =
      (some (.ok report'), c.insert destination entry.body) := by
  rw [extractFile, World.run_bind_of_some _ (run_makeParent destination)]
  exact ⟨_, rfl⟩

lemma run_extractEntry (entry : ZipEntry) (report : ExtractionReport) : ∃ report' c',
    (Ports.world L).run .ok (extractEntry policy entry report) c = (some (.ok report'), c') ∧
      (∀ path, c.has path = true → c'.has path = true) ∧
      ((policy.decide entry.name).action = .write → c'.has (policy.decide entry.name).destination = true) := by
  unfold extractEntry
  dsimp only
  cases haction : (policy.decide entry.name).action with
  | skipPreserved | createDirectory => exact ⟨_, c, rfl, fun _ h => h, nofun⟩
  | write | reject =>
    obtain ⟨report', hrun⟩ := run_extractFile (L := L) (c := c) entry (policy.decide entry.name).destination report
    exact ⟨report', _, hrun, fun _ h => c.has_insert_of_has _ _ _ h, fun _ => c.has_insert_self _ _⟩

lemma run_extractLoop {onProgress : ExtractionProgress → PortProgram Bool}
    (hprogress : ∀ p c, (Ports.world L).run .ok (onProgress p) c = (some true, c)) (total i : ℕ)
    (entries : List ZipEntry) (report : ExtractionReport) : ∃ report' c',
    (Ports.world L).run .ok (extractLoop policy onProgress total i entries report) c = (some (.ok report'), c') ∧
      (∀ path, c.has path = true → c'.has path = true) ∧
      ∀ entry ∈ entries, (policy.decide entry.name).action = .write →
        c'.has (policy.decide entry.name).destination = true := by
  induction entries generalizing i report c with
  | nil => exact ⟨report, c, rfl, fun _ h => h, fun _ h => nomatch h⟩
  | cons entry rest ih =>
    obtain ⟨report₁, c₁, hentry, hkept, hwritten⟩ := @run_extractEntry L policy c entry report
    obtain ⟨report', c', hrest, hkept', hwritten'⟩ := @ih c₁ (i + 1) report₁
    refine ⟨report', c', ?_, fun path h => hkept' path (hkept path h), List.forall_mem_cons.mpr
      ⟨fun haction => hkept' _ (hwritten haction), hwritten'⟩⟩
    rw [extractLoop, World.run_bind_of_some _ (hprogress _ c)]
    simp only [Bool.not_true, Bool.false_eq_true, if_false]
    rw [World.run_bind_of_some _ hentry]
    exact hrest

end Run

end NsxManager.Infra
