import NsxManager.Core.Manifest

/-! What to do about a published release. -/

namespace NsxManager.Core

inductive UpdateAction where
  | upToDate
  | optional
  | mandatory
  | unsupportedPath
  | wrongChannel
  | manifestUnreadable
  deriving DecidableEq

structure UpdateDecision where
  action : UpdateAction := .manifestUnreadable
  target : Option SemVer := none
  reason : Bytes := []
  deriving DecidableEq

def UpdateDecision.offersUpdate (d : UpdateDecision) : Bool := d.action == .optional || d.action == .mandatory

/-- The channel comes before any version, and the oldest supported version before the newest. -/
def decideUpdate (installed : SemVer) (manifest : UpdateManifest) (channel : Channel) : UpdateDecision :=
  if manifest.channel ≠ channel then
    { action := .wrongChannel, reason := ascii "manifest is for a different release channel" }
  else if (SemVer.compare installed manifest.minSupported).isLT then
    { action := .unsupportedPath, target := some manifest.version,
      reason := ascii "installed " ++ installed.toString ++ ascii " is older than the minimum " ++
        manifest.minSupported.toString ++ ascii " this release can update from" }
  else if !SemVer.isNewerThan manifest.version installed then
    { action := .upToDate, reason := ascii "installed " ++ installed.toString ++ ascii " is current" }
  else
    { action := if manifest.mandatory then .mandatory else .optional, target := some manifest.version,
      reason := manifest.version.toString ++ ascii " is available (installed " ++ installed.toString ++
        ascii ")" }

def unreadableManifest (why : Bytes) : UpdateDecision := { action := .manifestUnreadable, reason := why }

end NsxManager.Core
