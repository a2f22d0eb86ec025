import NsxManager.Core.Handoff
import NsxManager.Stdio

/-! The forwarder: the program that replaces the application while the application is not running. -/

namespace NsxManager.Forwarder

open NsxManager.Core Lib

inductive SwapResult where
  | nothingToDo
  | installed
  | rolledBack
  | restored
  | digestMismatch
  | ioFailed
  | unrecoverable
  deriving DecidableEq

structure SwapOutcome where
  result : SwapResult := .nothingToDo
  detail : Bytes := []
  deriving DecidableEq

def SwapOutcome.applicationUsable (out : SwapOutcome) : Bool := out.result ≠ .unrecoverable

def kIoChunk : ℕ := 64 * 1024

/-- What successive reads of at most `size` bytes return. -/
def chunksOf (size : ℕ) : ℕ → Bytes → List Bytes
  | 0, _ => []
  | _ + 1, [] => []
  | n + 1, data => data.take size :: chunksOf size n (data.drop size)

def chunks (data : Bytes) : List Bytes := chunksOf kIoChunk (data.length / kIoChunk + 1) data

def writeFileAtomic (path data : Bytes) : FileProgram Bool := do
  let tmp := path ++ ascii ".tmp"
  let opened ← Stdio.create tmp
  if !opened then return false
  let written ← Stdio.append tmp data
  let flushed ← Stdio.flush tmp
  if !written || !flushed then
    let _ ← Stdio.remove tmp
    return false
  let _ ← Stdio.remove path
  let renamed ← Stdio.rename tmp path
  if !renamed then
    let _ ← Stdio.remove tmp
    return false
  return true

def writeChunks (destination : Bytes) : List Bytes → FileProgram Bool
  | [] => return true
  | chunk :: rest => do
    let written ← Stdio.append destination chunk
    if written then writeChunks destination rest else return false

/-- Both files are open before the first byte is read. -/
def copyFile (source destination : Bytes) : FileProgram Bool := do
  let opened ← Stdio.openRead source
  if !opened then return false
  let created ← Stdio.create destination
  if !created then return false
  let data ← Stdio.read source
  let copied ← match data with
    | some bytes => writeChunks destination (chunks bytes)
    | none => pure false
  let flushed ← if copied then Stdio.flush destination else pure false
  if !flushed then
    let _ ← Stdio.remove destination
    return false
  return true

/-- FatFs cannot overwrite, so every rename clears its destination first. -/
def renameOver (source destination : Bytes) : FileProgram Bool := do
  let _ ← Stdio.remove destination
  Stdio.rename source destination

def cleanUp (h : Handoff) (handoffPath : Bytes) : FileProgram Unit := do
  let _ ← Stdio.remove h.backupNro
  let _ ← Stdio.remove h.stagedNro
  let _ ← Stdio.remove handoffPath

def fail (result : SwapResult) (detail : Bytes) : SwapOutcome := ⟨result, detail⟩

def rollBack (h : Handoff) (handoffPath why : Bytes) : FileProgram SwapOutcome := do
  let kept ← Stdio.probe h.backupNro
  let inPlace ← if kept then Stdio.probe h.targetNro else pure true
  let restored ← if inPlace then pure true else renameOver h.backupNro h.targetNro
  if !restored then
    return fail .ioFailed (ascii "could not restore the backup: " ++ h.backupNro)
  cleanUp h handoffPath
  return ⟨.rolledBack, why⟩

def restoreBackup (h : Handoff) (handoffPath reason : Bytes) : FileProgram SwapOutcome := do
  let restored ← renameOver h.backupNro h.targetNro
  if !restored then return fail .ioFailed (ascii "could not restore the backup")
  cleanUp h handoffPath
  return ⟨.restored, reason⟩

def incomingNro (h : Handoff) : Bytes := h.targetNro ++ ascii ".new"

def putBack (h : Handoff) : FileProgram Unit := do
  let kept ← Stdio.probe h.backupNro
  if kept then
    let _ ← renameOver h.backupNro h.targetNro

/-- Step 7 and what follows it. -/
def confirm (h : Handoff) (handoffPath : Bytes) : FileProgram SwapOutcome := do
  let installed ← Stdio.hash h.targetNro
  if installed.any (digestsEqual · h.stagedSha256) then
    cleanUp h handoffPath
    return ⟨.installed, ascii "updated to " ++ h.toVersion⟩
  else
    putBack h
    return fail .ioFailed
      (ascii "the installed binary did not verify; the previous version was restored")

/-- Step 6: the new binary takes the place of the one moved aside. -/
def land (h : Handoff) (handoffPath : Bytes) : FileProgram SwapOutcome := do
  let landed ← renameOver (incomingNro h) h.targetNro
  if !landed then
    putBack h
    let _ ← Stdio.remove (incomingNro h)
    return fail .ioFailed (ascii "could not move the new version into place")
  confirm h handoffPath

/-- Step 5: the target is absent from here until the new binary lands. -/
def exchange (h : Handoff) (handoffPath : Bytes) : FileProgram SwapOutcome := do
  let present ← Stdio.probe h.targetNro
  let aside ← if present then renameOver h.targetNro h.backupNro else pure true
  if !aside then
    let _ ← Stdio.remove (incomingNro h)
    return fail .ioFailed (ascii "could not move the current version aside")
  land h handoffPath

def mismatched : SwapOutcome :=
  fail .digestMismatch (ascii "staged binary does not match its recorded digest; the update was " ++
    ascii "discarded and your current version is untouched")

/-- Steps 3 and 4: verify what is staged and copy it next to the target. -/
def bringIn (h : Handoff) (handoffPath : Bytes) : FileProgram SwapOutcome := do
  let actual ← Stdio.hash h.stagedNro
  match actual with
  | none => return fail .ioFailed (ascii "could not read the staged binary")
  | some digest =>
    if !digestsEqual digest h.stagedSha256 then return mismatched
    let copied ← copyFile h.stagedNro (incomingNro h)
    if !copied then
      let _ ← Stdio.remove (incomingNro h)
      return fail .ioFailed (ascii "could not stage the new binary next to the target")
    exchange h handoffPath

/-- Step 2, before anything risky, and then the swap. -/
def swap (J : JsonLibrary) (handoff : Handoff) (handoffPath : Bytes) : FileProgram SwapOutcome := do
  let h := { handoff with attempts := handoff.attempts + 1 }
  match serializeHandoff J h with
  | none => Stdio.abort
  | some text =>
    let recorded ← writeFileAtomic handoffPath text
    if !recorded then return fail .ioFailed (ascii "could not record the attempt counter")
    bringIn h handoffPath

/-- Only a decision that has a handoff may use it. -/
def act (J : JsonLibrary) (handoffPath : Bytes) (handoff : Option Handoff) (decision : RecoveryDecision) :
    FileProgram SwapOutcome :=
  match decision.action, handoff with
  | .nothing, _ => return ⟨.nothingToDo, decision.reason⟩
  | .unrecoverable, _ => return fail .unrecoverable decision.reason
  | .rollBack, some h => rollBack h handoffPath decision.reason
  | .restoreBackup, some h => restoreBackup h handoffPath decision.reason
  | .proceedWithSwap, some h => swap J h handoffPath
  | .retrySwap, some h => swap J h handoffPath
  | .installStaged, some h => swap J h handoffPath
  | _, none => Stdio.abort

def runSwap (J : JsonLibrary) (handoffPath : Bytes) : FileProgram SwapOutcome := do
  let raw ← Stdio.read handoffPath
  match raw with
  | none => act J handoffPath none (decideRecovery none {})
  | some text =>
    match parseHandoff J text with
    | .error (.rejected error) => return fail .unrecoverable error.describe
    | .error .fault => Stdio.abort
    | .ok h =>
      let staged ← Stdio.probe h.stagedNro
      let target ← Stdio.probe h.targetNro
      let backup ← Stdio.probe h.backupNro
      act J handoffPath (some h)
        (decideRecovery (some h) { handoff := true, staged := staged, target := target, backup := backup })

def presenceOf (c : Card) (h : Handoff) : FilePresence :=
  { handoff := true, staged := c.has h.stagedNro, target := c.has h.targetNro,
    backup := c.has h.backupNro }

end NsxManager.Forwarder
