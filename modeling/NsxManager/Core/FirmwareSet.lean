import NsxManager.Core.PreserveRules
import Mathlib.Data.List.Sort

/-! Which files of a directory are firmware content. -/

namespace NsxManager.Core

def endsWithNoCase (text suffix : Bytes) : Bool :=
  suffix.length ≤ text.length && (text.drop (text.length - suffix.length)).map lower == suffix

def baseName (path : Bytes) : Bytes := (path.reverse.takeWhile (fun c => c != byte '/')).reverse

def kFirmwareSuffix : Bytes := ascii ".nca"

/-- A name that is only the suffix has no stem. -/
def isFirmwareContent (name : Bytes) : Bool :=
  kFirmwareSuffix.length < name.length && endsWithNoCase name kFirmwareSuffix

structure FirmwareDirectoryScan where
  firmwareFiles : ℕ := 0
  unexpected : List Bytes := []
  deriving DecidableEq

def FirmwareDirectoryScan.onlyFirmware (scan : FirmwareDirectoryScan) : Bool := scan.unexpected.isEmpty

def scanFirmwareDirectory (names : List Bytes) : FirmwareDirectoryScan :=
  { firmwareFiles := names.countP (fun relative => isFirmwareContent (baseName relative))
    unexpected :=
      (names.filter (fun relative => !isFirmwareContent (baseName relative))).insertionSort (· ≤ ·) }

def looksLikeFirmware (names : List Bytes) : Bool :=
  0 < (scanFirmwareDirectory names).firmwareFiles && (scanFirmwareDirectory names).onlyFirmware

lemma onlyFirmware_scan_iff {names : List Bytes} : (scanFirmwareDirectory names).onlyFirmware = true ↔
    ∀ relative ∈ names, isFirmwareContent (baseName relative) = true := by
  rw [FirmwareDirectoryScan.onlyFirmware, scanFirmwareDirectory, List.isEmpty_iff,
    ← List.length_eq_zero_iff, List.length_insertionSort, List.length_eq_zero_iff, List.filter_eq_nil_iff]
  simp

end NsxManager.Core
