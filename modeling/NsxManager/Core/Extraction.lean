import NsxManager.Core.PreserveRules

/-! Where an archive entry may be written: the traversal guard and the extraction policy. -/

namespace NsxManager.Core

def kMaxComponentLength : ℕ := 255

def kMaxPathLength : ℕ := 1024

inductive PathError where
  | empty
  | absolutePath
  | volumePrefix
  | parentTraversal
  | backslashSeparator
  | nullByte
  | controlCharacter
  | emptyComponent
  | dotComponent
  | trailingDotOrSpace
  | componentTooLong
  | pathTooLong
  deriving DecidableEq

def PathError.describe : PathError → Bytes
  | .empty => ascii "the path is empty"
  | .absolutePath => ascii "the path is absolute and would ignore the destination"
  | .volumePrefix => ascii "the path contains a volume prefix"
  | .parentTraversal => ascii "the path contains a parent reference"
  | .backslashSeparator => ascii "the path contains a backslash"
  | .nullByte => ascii "the path contains a null byte"
  | .controlCharacter => ascii "the path contains a control character"
  | .emptyComponent => ascii "the path contains an empty component"
  | .dotComponent => ascii "the path contains a '.' component"
  | .trailingDotOrSpace => ascii "a path component ends in a dot or a space"
  | .componentTooLong => ascii "a path component is too long"
  | .pathTooLong => ascii "the path is too long"

def isControl (c : UInt8) : Bool := c < 0x20 || c == 0x7f

def characterError (c : UInt8) : Option PathError :=
  if c == 0 then some .nullByte
  else if c == 0x5c then some .backslashSeparator
  else if c == byte ':' then some .volumePrefix
  else if isControl c then some .controlCharacter
  else none

def componentError (component : Bytes) : Option PathError :=
  if component.isEmpty then some .emptyComponent
  else if component = ascii "." then some .dotComponent
  else if component = ascii ".." then some .parentTraversal
  else if kMaxComponentLength < component.length then some .componentTooLong
  else if component.getLast? == some (byte '.') || component.getLast? == some (byte ' ') then
    some .trailingDotOrSpace
  else none

def isDirectoryName (entry : Bytes) : Bool := entry.getLast? == some (byte '/')

def entryBody (entry : Bytes) : Bytes := if isDirectoryName entry then entry.dropLast else entry

def entryError (entry : Bytes) : Option PathError :=
  if entry.isEmpty then some .empty
  else
    match entry.findSome? characterError with
    | some error => some error
    | none =>
      if entry.head? == some (byte '/') then some .absolutePath
      else if kMaxPathLength < entry.length then some .pathTooLong
      else if (entryBody entry).isEmpty then some .empty
      else (List.splitOn (byte '/') (entryBody entry)).findSome? componentError

def validateEntryName (entry : Bytes) : Except PathError Unit :=
  match entryError entry with
  | some error => .error error
  | none => .ok ()

def stripTrailingSlashes (path : Bytes) : Bytes :=
  match (path.reverse.dropWhile (fun c => c == byte '/')).reverse with
  | [] => path.take 1
  | stripped => stripped

def resolveUnder (root entry : Bytes) : Except PathError Bytes :=
  if root.isEmpty then .error .empty
  else
    match validateEntryName entry with
    | .error error => .error error
    | .ok () =>
      let base := stripTrailingSlashes root
      let out := (if base.getLast? == some (byte '/') then base else base ++ ascii "/") ++ entryBody entry ++
        (if isDirectoryName entry then ascii "/" else [])
      if kMaxPathLength < out.length then .error .pathTooLong else .ok out

inductive EntryAction where
  | write
  | createDirectory
  | skipPreserved
  | reject
  deriving DecidableEq

structure EntryDecision where
  action : EntryAction := .reject
  destination : Bytes := []
  error : PathError := .empty
  reason : Bytes := []
  deriving DecidableEq

structure ExtractionPolicy where
  root : Bytes
  preserve : PreserveRules

def ExtractionPolicy.decide (policy : ExtractionPolicy) (entryName : Bytes) : EntryDecision :=
  match resolveUnder policy.root entryName with
  | .error error =>
    { action := .reject, error := error, reason := error.describe ++ ascii ": " ++ entryName }
  | .ok destination =>
    if policy.preserve.preserves (entryBody entryName) then
      { action := .skipPreserved, destination := destination,
        reason := ascii "preserved by preserve.txt: " ++ entryBody entryName }
    else if isDirectoryName entryName then { action := .createDirectory, destination := destination }
    else { action := .write, destination := destination }

lemma characterError_of_entryError {entry : Bytes} (h : entryError entry = none) :
    ∀ c ∈ entry, characterError c = none := by
  simp only [entryError] at h
  split at h
  · cases h
  · split at h
    · cases h
    · next hnone => simpa [List.findSome?_eq_none_iff] using hnone

lemma newline_not_mem {entry : Bytes} (h : validateEntryName entry = .ok ()) : byte '\n' ∉ entry := by
  intro hmem
  have hnone : entryError entry = none := by
    cases hentry : entryError entry with
    | none => rfl
    | some error => simp [validateEntryName, hentry] at h
  have hcontrol : characterError (byte '\n') = none := characterError_of_entryError hnone _ hmem
  exact absurd hcontrol (by decide)

lemma entryBody_append (entry : Bytes) :
    entryBody entry ++ (if isDirectoryName entry then ascii "/" else []) = entry := by
  unfold entryBody
  split
  · next h =>
    have hlast : entry.getLast? = some (byte '/') := by simpa [isDirectoryName] using h
    have hne : entry ≠ [] := by
      rintro rfl
      cases hlast
    have hslash : ascii "/" = [entry.getLast hne] := by
      rw [List.getLast?_eq_some_getLast hne, Option.some.injEq] at hlast
      rw [hlast]
      rfl
    rw [hslash, List.dropLast_append_getLast]
  · simp

lemma stripTrailingSlashes_eq {path : Bytes} (hne : path ≠ []) (h : path.getLast? ≠ some (byte '/')) :
    stripTrailingSlashes path = path := by
  have hhead : path.reverse.head? ≠ some (byte '/') := by rwa [List.head?_reverse]
  have hkeep : path.reverse.dropWhile (fun c => c == byte '/') = path.reverse := by
    cases hr : path.reverse with
    | nil => rfl
    | cons c rest =>
      have hc : c ≠ byte '/' := by
        rintro rfl
        exact hhead (by rw [hr]; rfl)
      simp [hc]
  rw [stripTrailingSlashes, hkeep, List.reverse_reverse]
  cases path with
  | nil => exact absurd rfl hne
  | cons c rest => rfl

lemma resolveUnder_ok {root entry out : Bytes} (h : resolveUnder root entry = .ok out)
    (hroot : root.getLast? ≠ some (byte '/')) :
    out = root ++ ascii "/" ++ entry ∧ validateEntryName entry = .ok () := by
  simp only [resolveUnder] at h
  split at h
  · cases h
  · next hne =>
    have hbase : stripTrailingSlashes root = root :=
      stripTrailingSlashes_eq (by rintro rfl; simp at hne) hroot
    have hlast : (root.getLast? == some (byte '/')) = false := by simpa using hroot
    split at h
    · cases h
    · next hvalid =>
      simp only [hbase, hlast, Bool.false_eq_true, if_false] at h
      rw [List.append_assoc _ (entryBody entry), entryBody_append] at h
      split at h
      · cases h
      · exact ⟨(Except.ok.inj h).symm, hvalid⟩

lemma isDirectoryName_of_write {policy : ExtractionPolicy} {entry : Bytes}
    (h : (policy.decide entry).action = .write) : isDirectoryName entry = false := by
  unfold ExtractionPolicy.decide at h
  split at h
  · cases h
  · split_ifs at h with hpreserved hname
    simpa using hname

lemma decide_destination {policy : ExtractionPolicy} {entry : Bytes}
    (hroot : policy.root.getLast? ≠ some (byte '/')) (h : (policy.decide entry).action ≠ .reject) :
    (policy.decide entry).destination = policy.root ++ ascii "/" ++ entry ∧
      validateEntryName entry = .ok () := by
  unfold ExtractionPolicy.decide at h ⊢
  split
  · next error hresolve => simp [hresolve] at h
  · next destination hresolve =>
    obtain ⟨hout, hvalid⟩ := resolveUnder_ok hresolve hroot
    split
    · exact ⟨hout, hvalid⟩
    · split <;> exact ⟨hout, hvalid⟩

end NsxManager.Core
