import NsxManager.Core.Json
import NsxManager.Core.SemVer
import NsxManager.Core.Sha256

/-! A release as the update manifest describes it. -/

namespace NsxManager.Core

def kSupportedManifestSchema : Int32 := 1

inductive Channel where
  | stable
  | beta
  deriving DecidableEq

inductive AssetKind where
  | appNro
  | forwarderNro
  | sdOverlayZip
  deriving DecidableEq

inductive ManifestError where
  | notJson
  | notObject
  | unsupportedSchemaVersion
  | wrongProduct
  | missingField
  | wrongType
  | invalidVersion
  | invalidTag
  | invalidTimestamp
  | invalidChannel
  | noAssets
  | invalidAssetName
  | insecureUrl
  | invalidDigest
  | invalidSize
  | noAppAsset
  deriving DecidableEq

def ManifestError.describe : ManifestError → Bytes
  | .notJson => ascii "not valid JSON"
  | .notObject => ascii "top level is not an object"
  | .unsupportedSchemaVersion => ascii "manifest is newer than this version understands"
  | .wrongProduct => ascii "manifest is for a different product"
  | .missingField => ascii "a required field is missing"
  | .wrongType => ascii "a field has the wrong type"
  | .invalidVersion => ascii "a version field is not valid SemVer"
  | .invalidTag => ascii "tag does not match version"
  | .invalidTimestamp => ascii "published_at is not ISO-8601 UTC"
  | .invalidChannel => ascii "channel is not stable or beta"
  | .noAssets => ascii "no assets listed"
  | .invalidAssetName => ascii "an asset name is not a bare filename"
  | .insecureUrl => ascii "an asset URL is not an https GitHub release"
  | .invalidDigest => ascii "an asset digest is not 64 lowercase hex"
  | .invalidSize => ascii "an asset size is not a positive integer"
  | .noAppAsset => ascii "no application asset to download"

structure ManifestAsset where
  name : Bytes
  kind : AssetKind
  url : Bytes
  size : UInt64
  sha256 : Digest
  deriving DecidableEq

structure UpdateManifest where
  schemaVersion : Int32 := 0
  version : SemVer := {}
  tag : Bytes := []
  publishedAt : Bytes := []
  channel : Channel := .stable
  mandatory : Bool := false
  minSupported : SemVer := {}
  minAtmosphere : Option SemVer := none
  changelogUrl : Bytes := []
  releaseNotesUrl : Bytes := []
  assets : List ManifestAsset := []
  deriving DecidableEq

def UpdateManifest.findAsset (m : UpdateManifest) (kind : AssetKind) : Option ManifestAsset :=
  m.assets.find? (fun a => a.kind == kind)

def kProduct : Bytes := ascii "nsx-manager"

def kUrlPrefix : Bytes := ascii "https://github.com/"

def isFilenameCharacter (c : UInt8) : Bool :=
  (byte 'A' ≤ c && c ≤ byte 'Z') || (byte 'a' ≤ c && c ≤ byte 'z') || (byte '0' ≤ c && c ≤ byte '9') ||
    c == byte '.' || c == byte '_' || c == byte '-' || c == byte '+'

def isBareFilename (name : Bytes) : Bool :=
  !name.isEmpty && name.head? != some (byte '.') && !name.contains (byte '/') &&
    !name.contains (byte '\\') && !contains name (ascii "..") && name.all isFilenameCharacter

def isReleaseUrl (url : Bytes) : Bool := kUrlPrefix.length < url.length && kUrlPrefix.isPrefixOf url

def isIso8601Utc (s : Bytes) : Bool :=
  s.length == 20 &&
    [0, 1, 2, 3, 5, 6, 8, 9, 11, 12, 14, 15, 17, 18].all (fun i => SemVer.isDigit (s.getD i 0)) &&
    s.getD 4 0 == byte '-' && s.getD 7 0 == byte '-' && s.getD 10 0 == byte 'T' &&
    s.getD 13 0 == byte ':' && s.getD 16 0 == byte ':' && s.getD 19 0 == byte 'Z'

/-- A kind this build does not know is no error: its asset is passed over. -/
def parseKind (text : Bytes) : Option AssetKind :=
  if text = ascii "app-nro" then some .appNro
  else if text = ascii "forwarder-nro" then some .forwarderNro
  else if text = ascii "sd-overlay-zip" then some .sdOverlayZip
  else none

def parseChannel (text : Bytes) : Parse ManifestError Channel :=
  if text = ascii "stable" then .ok .stable
  else if text = ascii "beta" then .ok .beta
  else .error (.rejected .invalidChannel)

def manifestKeys : List Bytes :=
  [ascii "version", ascii "tag", ascii "published_at", ascii "channel", ascii "mandatory",
    ascii "min_supported", ascii "assets"]

def assetKeys : List Bytes :=
  [ascii "name", ascii "kind", ascii "url", ascii "size", ascii "sha256"]

def manifestVersion (text : Bytes) : Parse ManifestError SemVer :=
  match parseSemVer text with
  | .ok version => .ok version
  | .error _ => .error (.rejected .invalidVersion)

/-- An optional text; the empty one stands for its absence. -/
def manifestText (doc : Members) (key : Bytes) : Parse ManifestError Bytes :=
  if doc.has key then stringField .wrongType doc key else .ok []

def manifestAtmosphere (doc : Members) : Parse ManifestError (Option SemVer) :=
  if doc.has (ascii "min_atmosphere") then do
    let text ← stringField .wrongType doc (ascii "min_atmosphere")
    let version ← manifestVersion text
    return some version
  else .ok none

def assetDigest (hex : Bytes) : Parse ManifestError Digest :=
  match fromHex hex with
  | some digest => .ok digest
  | none => .error (.rejected .invalidDigest)

def assetFields (entry : Members) : Parse ManifestError (Option ManifestAsset) := do
  need .missingField (assetKeys.all entry.has)
  let name ← stringField .wrongType entry (ascii "name")
  let kind ← stringField .wrongType entry (ascii "kind")
  let url ← stringField .wrongType entry (ascii "url")
  let hex ← stringField .wrongType entry (ascii "sha256")
  need .invalidAssetName (isBareFilename name)
  need .insecureUrl (isReleaseUrl url)
  let sha256 ← assetDigest hex
  let count ← entry.index (ascii "size")
  need .invalidSize count.isNumberUnsigned
  let size ← count.getUInt64
  need .invalidSize (size != 0)
  return (parseKind kind).map (fun kind => ⟨name, kind, url, size, sha256⟩)

def parseAsset : Json → Parse ManifestError (Option ManifestAsset)
  | .object entry => assetFields entry
  | _ => .error (.rejected .wrongType)

def manifestAssets : Json → Parse ManifestError (List ManifestAsset)
  | .array [] => .error (.rejected .noAssets)
  | .array entries => do
    let assets ← entries.mapM parseAsset
    return assets.filterMap id
  | _ => .error (.rejected .wrongType)

def manifestFields (doc : Members) : Parse ManifestError UpdateManifest := do
  need .missingField (doc.has (ascii "schema_version"))
  let schema ← integerField .wrongType doc (ascii "schema_version")
  let schemaVersion ← schema.getInt
  need .unsupportedSchemaVersion (schemaVersion == kSupportedManifestSchema)
  need .missingField (doc.has (ascii "product"))
  let product ← stringField .wrongType doc (ascii "product")
  need .wrongProduct (product == kProduct)
  need .missingField (manifestKeys.all doc.has)
  let versionText ← stringField .wrongType doc (ascii "version")
  let minText ← stringField .wrongType doc (ascii "min_supported")
  let version ← manifestVersion versionText
  let minSupported ← manifestVersion minText
  let tag ← stringField .wrongType doc (ascii "tag")
  need .invalidTag (2 ≤ tag.length && tag.head? == some (byte 'v') && tag.drop 1 == versionText)
  let publishedAt ← stringField .wrongType doc (ascii "published_at")
  need .invalidTimestamp (isIso8601Utc publishedAt)
  let channelText ← stringField .wrongType doc (ascii "channel")
  let channel ← parseChannel channelText
  let required ← doc.index (ascii "mandatory")
  need .wrongType required.isBoolean
  let mandatory ← required.getBool
  let minAtmosphere ← manifestAtmosphere doc
  let changelogUrl ← manifestText doc (ascii "changelog_url")
  let releaseNotesUrl ← manifestText doc (ascii "release_notes_url")
  let listed ← doc.index (ascii "assets")
  let assets ← manifestAssets listed
  return { schemaVersion, version, tag, publishedAt, channel, mandatory, minSupported, minAtmosphere,
           changelogUrl, releaseNotesUrl, assets }

def readManifest (doc : Members) : Parse ManifestError UpdateManifest := do
  let manifest ← manifestFields doc
  need .noAppAsset (manifest.findAsset .appNro).isSome
  return manifest

def parseManifest (J : JsonLibrary) (json : Bytes) : Parse ManifestError UpdateManifest :=
  match J.parse json with
  | none => .error (.rejected .notJson)
  | some (.object doc) => readManifest doc
  | some _ => .error (.rejected .notObject)

lemma UpdateManifest.exists_of_findAsset {m : UpdateManifest} {kind : AssetKind}
    (h : (m.findAsset kind).isSome = true) : ∃ asset ∈ m.assets, asset.kind = kind := by
  obtain ⟨asset, hasset⟩ := Option.isSome_iff_exists.mp h
  exact ⟨asset, List.mem_of_find?_eq_some hasset, by simpa using List.find?_some hasset⟩

lemma findAsset_of_parseManifest {J : JsonLibrary} {json : Bytes} {m : UpdateManifest}
    (hp : parseManifest J json = .ok m) : (m.findAsset .appNro).isSome = true := by
  unfold parseManifest at hp
  split at hp
  · cases hp
  · simp only [readManifest, Parse.bind_eq_ok, need_eq_ok, Parse.pure_eq, Except.ok.injEq] at hp
    obtain ⟨_, _, _, h, rfl⟩ := hp
    exact h
  · cases hp

end NsxManager.Core
