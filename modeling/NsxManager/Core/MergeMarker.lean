import NsxManager.Core.Json

/-! The note that a merge is in flight, and what startup does about one it finds. -/

namespace NsxManager.Core

def kSupportedMergeMarkerSchema : Int32 := 1

inductive MergeMarkerError where
  | notJson
  | notObject
  | unsupportedSchemaVersion
  | missingField
  | wrongType
  | relativePath
  | pathTraversal
  | invalidId
  deriving DecidableEq

structure MergeMarker where
  schemaVersion : Int32 := kSupportedMergeMarkerSchema
  createdAtUnix : Int64 := 0
  itemId : Bytes := []
  itemName : Bytes := []
  stagingDir : Bytes := []
  destinationRoot : Bytes := []
  backupDir : Bytes := []
  deriving DecidableEq

def isIdCharacter (c : UInt8) : Bool :=
  (byte 'a' ≤ c && c ≤ byte 'z') || (byte '0' ≤ c && c ≤ byte '9') ||
    c == byte '-' || c == byte '_' || c == byte '.'

def isValidId (id : Bytes) : Bool :=
  !id.isEmpty && id.length ≤ 64 && id.all isIdCharacter && id.head? != some (byte '.')

def mergeMarkerKeys : List Bytes :=
  [ascii "created_at_unix", ascii "item_id", ascii "staging_dir", ascii "destination_root",
    ascii "backup_dir"]

def markerPath (doc : Members) (key : Bytes) : Parse MergeMarkerError Bytes :=
  pathField .wrongType .relativePath .pathTraversal doc key

/-- Display only, so the one field a marker may leave out. -/
def markerName (doc : Members) : Parse MergeMarkerError Bytes :=
  if doc.has (ascii "item_name") then stringField .wrongType doc (ascii "item_name") else .ok []

def readMergeMarker (doc : Members) : Parse MergeMarkerError MergeMarker := do
  need .missingField (doc.has (ascii "schema_version"))
  let schema ← integerField .wrongType doc (ascii "schema_version")
  let version ← schema.getInt
  need .unsupportedSchemaVersion (version == kSupportedMergeMarkerSchema)
  need .missingField (mergeMarkerKeys.all doc.has)
  let created ← integerField .wrongType doc (ascii "created_at_unix")
  let createdAtUnix ← created.getInt64
  let itemId ← stringField .wrongType doc (ascii "item_id")
  need .invalidId (isValidId itemId)
  let itemName ← markerName doc
  let stagingDir ← markerPath doc (ascii "staging_dir")
  let destinationRoot ← markerPath doc (ascii "destination_root")
  let backupDir ← markerPath doc (ascii "backup_dir")
  return { createdAtUnix, itemId, itemName, stagingDir, destinationRoot, backupDir }

def parseMergeMarker (J : JsonLibrary) (json : Bytes) : Parse MergeMarkerError MergeMarker :=
  match J.parse json with
  | none => .error (.rejected .notJson)
  | some (.object doc) => readMergeMarker doc
  | some _ => .error (.rejected .notObject)

def MergeMarker.members (m : MergeMarker) : List (Bytes × Scalar) :=
  [(ascii "backup_dir", .string m.backupDir),
   (ascii "created_at_unix", .integer m.createdAtUnix),
   (ascii "destination_root", .string m.destinationRoot),
   (ascii "item_id", .string m.itemId),
   (ascii "item_name", .string m.itemName),
   (ascii "schema_version", .integer m.schemaVersion.toInt64),
   (ascii "staging_dir", .string m.stagingDir)]

def serializeMergeMarker (J : JsonLibrary) (m : MergeMarker) : Option Bytes :=
  (J.dump m.members).map (· ++ ascii "\n")

inductive MergeRecovery where
  | nothing
  | rollBack
  | cleanUpOnly
  | unrecoverable
  deriving DecidableEq

structure MergePresence where
  marker : Bool := false
  staging : Bool := false
  backup : Bool := false
  destination : Bool := false
  deriving DecidableEq

structure MergeRecoveryDecision where
  action : MergeRecovery := .nothing
  reason : Bytes := []
  deriving DecidableEq

def decideMergeRecovery (marker : Option MergeMarker) (present : MergePresence) :
    MergeRecoveryDecision :=
  if !present.marker then ⟨.nothing, ascii "no merge was in flight"⟩
  else
    match marker with
    | none =>
      ⟨.unrecoverable, ascii "a merge was interrupted but its marker could not be read"⟩
    | some m =>
      if present.backup then
        ⟨.rollBack, ascii "restoring what '" ++ (if m.itemName.isEmpty then m.itemId else m.itemName) ++
          ascii "' replaced"⟩
      else if present.staging then
        ⟨.cleanUpOnly,
          ascii "the merge stopped before it changed anything; clearing the staging area"⟩
      else
        ⟨.cleanUpOnly, ascii "nothing of the interrupted merge remains; clearing the marker"⟩

structure MergeMarker.Accepted (m : MergeMarker) : Prop where
  schema : m.schemaVersion = kSupportedMergeMarkerSchema
  itemId : isValidId m.itemId = true
  staging : isSafeAbsolutePath m.stagingDir = true
  destination : isSafeAbsolutePath m.destinationRoot = true
  backup : isSafeAbsolutePath m.backupDir = true

lemma parseMergeMarker_accepted {J : JsonLibrary} {json : Bytes} {m : MergeMarker}
    (hp : parseMergeMarker J json = .ok m) : m.Accepted := by
  unfold parseMergeMarker at hp
  split at hp
  · cases hp
  · rename_i doc _
    simp only [readMergeMarker, Parse.bind_eq_ok, need_eq_ok, Parse.pure_eq, Except.ok.injEq] at hp
    obtain ⟨_, _, _, _, _, _, _, _, _, _, _, _, _, _, i, hi, _, hid, n, hn, s, hs, d, hd, b, hb, rfl⟩ := hp
    exact ⟨rfl, hid, (pathField_ok _ _ hs).2, (pathField_ok _ _ hd).2, (pathField_ok _ _ hb).2⟩
  · cases hp

def MergeMarker.document (m : MergeMarker) : Members := m.members.map (fun p => (p.1, p.2.reread))

lemma readMergeMarker_document {m : MergeMarker} (ha : m.Accepted) :
    readMergeMarker m.document = .ok m := by
  have hschema : m.document.lookup (ascii "schema_version") =
      some (Scalar.integer m.schemaVersion.toInt64).reread := rfl
  have hcreated : m.document.lookup (ascii "created_at_unix") =
      some (Scalar.integer m.createdAtUnix).reread := rfl
  have hkeys : mergeMarkerKeys.all m.document.has = true := rfl
  have hhas : m.document.has (ascii "schema_version") = true := rfl
  have hname : m.document.has (ascii "item_name") = true := rfl
  simp only [readMergeMarker, markerName, markerPath, hhas, hname, hkeys, need_true, Parse.ok_bind, reread_integer,
    getInt_reread, getInt64_reread, ha.schema, ha.itemId, beq_self_eq_true, if_true,
    integerField_eq _ _ _ hschema, integerField_eq _ _ _ hcreated,
    stringField_eq _ m.document (ascii "item_id") rfl,
    stringField_eq _ m.document (ascii "item_name") rfl,
    pathField_eq m.document (ascii "staging_dir") rfl ha.staging,
    pathField_eq m.document (ascii "destination_root") rfl ha.destination,
    pathField_eq m.document (ascii "backup_dir") rfl ha.backup, Parse.pure_eq]
  rw [← ha.schema]

lemma MergeMarker.members_keys (m : MergeMarker) : (m.members.map Prod.fst).Pairwise (· < ·) ∧
    ∀ key ∈ m.members.map Prod.fst, ∀ b ∈ key, b < 0x80 := by
  have hkeys : m.members.map Prod.fst = ({} : MergeMarker).members.map Prod.fst := rfl
  rw [hkeys]
  exact ⟨by decide, ascii_of_all (by decide)⟩

lemma parseMergeMarker_serializeMergeMarker {J : JsonLibrary} {m : MergeMarker} {text : Bytes}
    (hs : serializeMergeMarker J m = some text) :
    parseMergeMarker J text = readMergeMarker m.document := by
  obtain ⟨body, hbody, rfl⟩ := Option.map_eq_some_iff.mp hs
  have hparse := J.parse_dump m.members body (ascii "\n") m.members_keys.1 hbody (by decide)
  rw [parseMergeMarker, hparse]
  rfl

lemma accepted_of_readMergeMarker {m m' : MergeMarker} (hschema : m.schemaVersion = kSupportedMergeMarkerSchema)
    (hr : readMergeMarker m.document = .ok m') : m.Accepted := by
  have hpath : ∀ {key path value}, markerPath m.document key = .ok path →
      m.document.lookup key = some (.string value) → isSafeAbsolutePath value = true := by
    intro key path value hp hl
    obtain ⟨hlook, hsafe⟩ := pathField_ok _ _ hp
    obtain rfl : path = value := by simpa [hl] using hlook.symm
    exact hsafe
  simp only [readMergeMarker, Parse.bind_eq_ok, need_eq_ok, Parse.pure_eq, Except.ok.injEq] at hr
  obtain ⟨_, _, _, _, _, _, _, _, _, _, _, _, _, _, i, hi, _, hid, n, hn, s, hs, d, hd, b, hb, rfl⟩ := hr
  have hlook := stringField_ok _ _ _ hi
  obtain rfl : m.itemId = i := by
    rw [show m.document.lookup (ascii "item_id") = some (.string m.itemId) from rfl] at hlook
    simpa using hlook
  exact ⟨hschema, hid, hpath hs rfl, hpath hd rfl, hpath hb rfl⟩

lemma parseMergeMarker_readBack {J : JsonLibrary} {m m' : MergeMarker} {text : Bytes}
    (hschema : m.schemaVersion = kSupportedMergeMarkerSchema) (hs : serializeMergeMarker J m = some text)
    (hp : parseMergeMarker J text = .ok m') : m.Accepted ∧ m' = m := by
  have hread := parseMergeMarker_serializeMergeMarker hs
  have ha : m.Accepted := accepted_of_readMergeMarker hschema (hread.symm.trans hp)
  exact ⟨ha, Except.ok.inj (hp.symm.trans (hread.trans (readMergeMarker_document ha)))⟩

end NsxManager.Core
