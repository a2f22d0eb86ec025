import NsxManager.Cfw.Install
import NsxManager.Core.SemVer

/-! The content catalogue: what an item is, and which documents are one. -/

namespace NsxManager.Catalog

open NsxManager.Core

def kSupportedCatalogSchema : Int32 := 1

inductive ContentKind where
  | cfwPack
  | firmware
  | tool
  | cheats
  | translation
  | theme
  deriving DecidableEq

structure Item extends Cfw.CatalogItem where
  summary : Bytes
  kind : ContentKind
  version : Option SemVer
  minAtmosphere : Option SemVer
  notesUrl : Bytes
  deriving DecidableEq

inductive CatalogError where
  | notJson
  | notObject
  | unsupportedSchemaVersion
  | missingField
  | wrongType
  | invalidId
  | duplicateId
  | insecureUrl
  | invalidDigest
  | invalidSize
  | noItems
  deriving DecidableEq

def CatalogError.describe : CatalogError → Bytes
  | .notJson => ascii "the catalogue is not valid JSON"
  | .notObject => ascii "the catalogue top level is not an object"
  | .unsupportedSchemaVersion => ascii "the catalogue is newer than this version understands"
  | .missingField => ascii "a required catalogue field is missing"
  | .wrongType => ascii "a catalogue field has the wrong type"
  | .invalidId => ascii "an item id is empty or contains unexpected characters"
  | .duplicateId => ascii "two catalogue items share an id"
  | .insecureUrl => ascii "an item url is not https"
  | .invalidDigest => ascii "an item digest is not 64 lowercase hex"
  | .invalidSize => ascii "an item size is not a positive integer"
  | .noItems => ascii "the catalogue contains nothing this version can install"

structure Document where
  schemaVersion : Int32 := kSupportedCatalogSchema
  updatedAt : Bytes := []
  items : List Item := []
  deriving DecidableEq

def Document.find (doc : Document) (id : Bytes) : Option Item := doc.items.find? (fun item => item.id == id)

def parseKind (text : Bytes) : Option ContentKind :=
  if text = ascii "cfw-pack" then some .cfwPack
  else if text = ascii "firmware" then some .firmware
  else if text = ascii "tool" then some .tool
  else if text = ascii "cheats" then some .cheats
  else if text = ascii "translation" then some .translation
  else if text = ascii "theme" then some .theme
  else none

def parseTarget (text : Bytes) : Option Cfw.InstallTarget :=
  if text = ascii "sd-root" then some .sdRoot
  else if text = ascii "atmosphere-contents" then some .atmosphereContents
  else if text = ascii "bootloader" then some .bootloader
  else if text = ascii "firmware-staging" then some .firmwareStaging
  else if text = ascii "switch-apps" then some .switchApps
  else if text = ascii "themes" then some .themes
  else none

def kHttps : Bytes := ascii "https://"

def isHttpsUrl (url : Bytes) : Bool := kHttps.length < url.length && kHttps.isPrefixOf url

def itemKeys : List Bytes := [ascii "id", ascii "name", ascii "url", ascii "size", ascii "sha256"]

def requiredText (entry : Members) (key : Bytes) : Parse CatalogError Bytes := do
  need .missingField (entry.has key)
  stringField .wrongType entry key

def optionalText (entry : Members) (key : Bytes) : Parse CatalogError (Option Bytes) :=
  if entry.has key then do
    let text ← stringField .wrongType entry key
    return some text
  else .ok none

/-- A pack is extracted over the whole card, so the preserve rules apply to it unless it says otherwise. -/
def honoursPreserveRules (entry : Members) (kind : ContentKind) : Parse CatalogError Bool :=
  if entry.has (ascii "honour_preserve_rules") then do
    let value ← entry.index (ascii "honour_preserve_rules")
    need .wrongType value.isBoolean
    value.getBool
  else .ok (kind == .cfwPack)

def itemDigest (hex : Bytes) : Parse CatalogError Digest :=
  match fromHex hex with
  | some digest => .ok digest
  | none => .error (.rejected .invalidDigest)

def itemSize (entry : Members) : Parse CatalogError UInt64 := do
  let value ← entry.index (ascii "size")
  need .invalidSize value.isNumberUnsigned
  let size ← value.getUInt64
  need .invalidSize (size != 0)
  return size

def itemFields (out : Document) (entry : Members) (kind : ContentKind) (target : Cfw.InstallTarget) :
    Parse CatalogError Item := do
  need .missingField (itemKeys.all entry.has)
  let id ← stringField .wrongType entry (ascii "id")
  let name ← stringField .wrongType entry (ascii "name")
  let url ← stringField .wrongType entry (ascii "url")
  let hex ← stringField .wrongType entry (ascii "sha256")
  need .invalidId (isValidId id)
  need .duplicateId (out.find id).isNone
  need .insecureUrl (isHttpsUrl url)
  let size ← itemSize entry
  let sha256 ← itemDigest hex
  let summary ← optionalText entry (ascii "summary")
  let versionText ← optionalText entry (ascii "version")
  let minAtmosphere ← optionalText entry (ascii "min_atmosphere")
  let notesUrl ← optionalText entry (ascii "notes_url")
  need .insecureUrl (notesUrl.all (fun url => url.isEmpty || isHttpsUrl url))
  let honourPreserveRules ← honoursPreserveRules entry kind
  return { id, name, target, versionText := versionText.getD [], url, size, sha256, honourPreserveRules,
           summary := summary.getD [], kind, version := versionText.bind tryParseSemVer,
           minAtmosphere := minAtmosphere.bind tryParseSemVer, notesUrl := notesUrl.getD [] }

/-- An unknown kind or destination drops this item and no other. -/
def parseItem (out : Document) : Json → Parse CatalogError Document
  | .object entry => do
    let kind ← requiredText entry (ascii "kind")
    match parseKind kind with
    | none => return out
    | some kind =>
      let target ← requiredText entry (ascii "target")
      match parseTarget target with
      | none => return out
      | some target =>
        let item ← itemFields out entry kind target
        return { out with items := out.items ++ [item] }
  | _ => .error (.rejected .wrongType)

def catalogItems (out : Document) : Json → Parse CatalogError Document
  | .array entries => entries.foldlM parseItem out
  | _ => .error (.rejected .wrongType)

def readCatalog (doc : Members) : Parse CatalogError Document := do
  need .missingField (doc.has (ascii "schema_version"))
  let schema ← integerField .wrongType doc (ascii "schema_version")
  let schemaVersion ← schema.getInt
  need .unsupportedSchemaVersion (schemaVersion == kSupportedCatalogSchema)
  let updatedAt ← optionalText doc (ascii "updated_at")
  need .missingField (doc.has (ascii "items"))
  let listed ← doc.index (ascii "items")
  let out ← catalogItems { updatedAt := updatedAt.getD [] } listed
  need .noItems (!out.items.isEmpty)
  return out

def parseCatalog (J : JsonLibrary) (json : Bytes) : Parse CatalogError Document :=
  match J.parse json with
  | none => .error (.rejected .notJson)
  | some (.object doc) => readCatalog doc
  | some _ => .error (.rejected .notObject)

end NsxManager.Catalog
