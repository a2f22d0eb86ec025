import NsxManager.Directories
import NsxManager.Lib.Steady

/-! The archive-bit repair: every directory is set aside, made anew and refilled, from the deepest up. -/

namespace NsxManager.Platform

open NsxManager.Core Lib Maintenance

inductive FsOp where
  | isPresent (p : Path)
  | isDirectory (p : Path)
  | list (p : Path)
  | progress (p : Path)
  | rename (source destination : Path)
  /-- The rename that takes back one that has been made. -/
  | restore (source destination : Path)
  | createDirectories (p : Path)
  | remove (p : Path)
  /-- A recursion that is deeper than was allowed for. -/
  | exhausted
  deriving DecidableEq

def FsOp.Reply : FsOp → Type
  | .list _ => List Bytes
  | .exhausted => Empty
  | _ => Bool

inductive Happening where
  | asked (dir : Path) (goOn : Bool)
  | renamed (directory : Bool) (source destination : Path)
  | created (p : Path)
  deriving DecidableEq

def Happening.isAsked : Happening → Bool
  | .asked _ _ => true
  | _ => false

def Happening.ofFile : Happening → Bool
  | .renamed directory _ _ => !directory
  | _ => false

structure Scene where
  disk : Disk
  history : List Happening

def Scene.calls (s : Scene) : ℕ := s.history.countP Happening.isAsked

/-- The order of the listings, the operations that fail, and the answers of the callback, one for each call. -/
structure Surroundings where
  listing : DirListing
  fails : FsOp → Bool
  answers : ℕ → Bool

abbrev FsProgram (α : Type) := Program FsOp FsOp.Reply α

def step : (e : FsOp) → Surroundings → Scene → Option e.Reply × Scene
  | .isPresent p, _, s => (some (s.disk.node p).isSome, s)
  | .isDirectory p, _, s => (some (s.disk.isDirectory p), s)
  | .list p, env, s => (some (env.listing.names s.disk p), s)
  | .progress p, env, s =>
    (some (env.answers s.calls), { s with history := s.history ++ [.asked p (env.answers s.calls)] })
  | .rename source destination, env, s =>
    if !env.fails (.rename source destination) && s.disk.movable source destination then
      (some true, ⟨s.disk.rename source destination,
        s.history ++ [.renamed (s.disk.isDirectory source) source destination]⟩)
    else (some false, s)
  | .restore source destination, _, s =>
    if s.disk.movable source destination then
      (some true, ⟨s.disk.rename source destination,
        s.history ++ [.renamed (s.disk.isDirectory source) source destination]⟩)
    else (some false, s)
  | .createDirectories p, env, s =>
    if !env.fails (.createDirectories p) && s.disk.creatable p then
      (some true, ⟨s.disk.create p, s.history ++ [.created p]⟩)
    else (some false, s)
  | .remove p, _, s =>
    if (s.disk.node p).isSome && (s.disk.children p).isEmpty then (some true, { s with disk := s.disk.erase p })
    else (some false, s)
  | .exhausted, _, s => (none, s)

def world : World FsOp FsOp.Reply Surroundings Scene := ⟨fun e env s => step e env s⟩

def isPresent (p : Path) : FsProgram Bool := .call (.isPresent p) .done

def isDirectory (p : Path) : FsProgram Bool := .call (.isDirectory p) .done

def list (p : Path) : FsProgram (List Bytes) := .call (.list p) .done

def progress (p : Path) : FsProgram Bool := .call (.progress p) .done

def rename (source destination : Path) : FsProgram Bool := .call (.rename source destination) .done

def restore (source destination : Path) : FsProgram Bool := .call (.restore source destination) .done

def createDirectories (p : Path) : FsProgram Bool := .call (.createDirectories p) .done

def remove (p : Path) : FsProgram Bool := .call (.remove p) .done

def exhausted {α : Type} : FsProgram α := .call .exhausted (fun impossible => nomatch impossible)

structure ArchiveBitReport where
  directoriesScanned : ℕ := 0
  directoriesFixed : ℕ := 0
  errors : ℕ := 0
  deriving DecidableEq

def kTempSuffix : Bytes := ascii ".nsx_tmp"

def moveBack (dir tempDir : Path) : List Bytes → FsProgram Bool
  | [] => return true
  | name :: names => do
    if ← rename (tempDir ++ [name]) (dir ++ [name]) then moveBack dir tempDir names else return false

/-- The second half of `processDirectory`, for one directory. -/
def recreate (dir tempDir : Path) (report : ArchiveBitReport) : FsProgram ArchiveBitReport := do
  if !(← rename dir tempDir) then
    return { report with errors := report.errors + 1 }
  if !(← createDirectories dir) then
    let _ ← restore tempDir dir
    return { report with errors := report.errors + 1 }
  let entries ← list tempDir
  if ← moveBack dir tempDir entries then
    let _ ← remove tempDir
    return { report with directoriesFixed := report.directoriesFixed + 1 }
  else
    return { report with errors := report.errors + 1 }

def visitEach (process : Bytes → ArchiveBitReport → FsProgram ArchiveBitReport) (dir : Path) :
    List Bytes → ArchiveBitReport → FsProgram ArchiveBitReport
  | [], report => return report
  | name :: names, report => do
    if ← isDirectory (dir ++ [name]) then
      let report ← process name report
      visitEach process dir names report
    else visitEach process dir names report

def goOn (watched : Bool) (dir : Path) : FsProgram Bool := if watched then progress dir else return true

def processDirectory (watched : Bool) : ℕ → Path → Path → ArchiveBitReport → FsProgram ArchiveBitReport
  | 0, _, _, _ => exhausted
  | fuel + 1, dir, tempDir, report => do
    if !(← isDirectory dir) then
      return report
    let report := { report with directoriesScanned := report.directoriesScanned + 1 }
    if !(← goOn watched dir) then
      return report
    let names ← list dir
    let report ← visitEach
      (fun name => processDirectory watched fuel (dir ++ [name]) (dir ++ [name ++ kTempSuffix])) dir names report
    recreate dir tempDir report

/-- The path of the temporary directory is the text of the root's with the suffix behind it. -/
def fixArchiveBit (watched : Bool) (fuel : ℕ) (rootPath : Bytes) : FsProgram ArchiveBitReport := do
  if rootPath.isEmpty then
    return {}
  if !(← isPresent (places rootPath)) then
    return {}
  if !(← isDirectory (places rootPath)) then
    return {}
  processDirectory watched fuel (places rootPath) (places (rootPath ++ kTempSuffix)) {}

def fixEach (watched : Bool) (fuel : ℕ) : List Bytes → ArchiveBitReport → FsProgram ArchiveBitReport
  | [], total => return total
  | target :: targets, total => do
    let report ← fixArchiveBit watched fuel target
    fixEach watched fuel targets ⟨total.directoriesScanned + report.directoriesScanned,
      total.directoriesFixed + report.directoriesFixed, total.errors + report.errors⟩

def fixAllCommonDirectories (watched : Bool) (fuel : ℕ) : FsProgram ArchiveBitReport :=
  fixEach watched fuel [ascii "/atmosphere", ascii "/switch"] {}

end NsxManager.Platform
