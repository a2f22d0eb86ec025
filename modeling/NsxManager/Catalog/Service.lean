import NsxManager.Catalog.Document
import NsxManager.SelfUpdate.Check

/-! The catalogue service: a second cache in the directory of the first. -/

namespace NsxManager.Catalog

open NsxManager.Core Lib Infra SelfUpdate

structure CatalogConfig where
  catalogUrl : Bytes :=
    ascii "https://github.com/mateussantoos/nsx-catalog/releases/latest/download/catalog.json"
  mirrorUrl : Bytes :=
    ascii "https://raw.githubusercontent.com/mateussantoos/nsx-catalog/catalog-metadata/catalog.json"
  cacheDir : Bytes := ascii "/config/nsx-manager/cache"
  cacheTtlSeconds : Int64 := 24 * 60 * 60
  backoff : BackoffPolicy := {}
  deriving DecidableEq

namespace CatalogConfig

variable (config : CatalogConfig)

def cachedCatalogPath : Bytes := config.cacheDir ++ ascii "/catalog.json"

def cacheMetadataPath : Bytes := config.cacheDir ++ ascii "/catalog.meta.json"

def backoffPath : Bytes := config.cacheDir ++ ascii "/catalog.backoff.json"

def files : List Bytes :=
  [config.cachedCatalogPath, config.cachedCatalogPath ++ ascii ".tmp", config.cacheMetadataPath,
    config.cacheMetadataPath ++ ascii ".tmp", config.backoffPath, config.backoffPath ++ ascii ".tmp"]

end CatalogConfig

structure CatalogOutcome where
  catalog : Option Document := none
  plan : FetchPlan := .fetch
  servedFromCache : Bool := false
  usedMirror : Bool := false
  ageSeconds : Int64 := 0
  transport : HttpError := .none
  detail : Bytes := []
  deriving DecidableEq

def CatalogOutcome.available (out : CatalogOutcome) : Bool := out.catalog.isSome

def kMaxDocumentBytes : ℕ := 2 ^ 20

def kMaxSidecarBytes : ℕ := 64 * 1024

def hostUnreachable (error : HttpError) : Bool :=
  error == .dnsFailure || error == .connectFailed || error == .timeout

def describeTransport (error : HttpError) : Bytes :=
  if error.advise.isEmpty then error.describe else error.describe ++ ascii " - " ++ error.advise

section Fetch

variable (J : JsonLibrary) (config : CatalogConfig)

def loadCache : ServiceProgram (Option CachedDocument) := do
  let rawMetadata ← Service.readText config.cacheMetadataPath kMaxSidecarBytes
  match rawMetadata with
  | none => return none
  | some raw =>
    match parseCacheMetadata J raw with
    | .error (.rejected _) => return none
    | .error .fault => Service.abort
    | .ok metadata =>
      let document ← Service.readText config.cachedCatalogPath kMaxDocumentBytes
      match document with
      | none => return none
      | some document =>
        if cacheMatchesDocument metadata document then return some ⟨metadata, document⟩ else return none

def loadBackoff : ServiceProgram BackoffState := do
  let raw ← Service.readText config.backoffPath kMaxSidecarBytes
  match raw with
  | none => return {}
  | some raw =>
    match parseBackoff J raw with
    | .error (.rejected _) => return {}
    | .error .fault => Service.abort
    | .ok state => return state

def saveBackoff (state : BackoffState) : ServiceProgram Unit := do
  let _ ← Service.makeDirectories config.cacheDir
  match serializeBackoff J state with
  | none => Service.abort
  | some text =>
    let _ ← Service.writeAtomic config.backoffPath text

def storeCache (document etag sourceUrl : Bytes) (nowUnix : Int64) : ServiceProgram Bool := do
  Service.storing ⟨document, etag, sourceUrl⟩
  let made ← Service.makeDirectories config.cacheDir
  if !made then return false
  let written ← Service.writeAtomic config.cachedCatalogPath document
  if !written then return false
  match serializeCacheMetadata J
    { fetchedAtUnix := nowUnix, etag, documentSha256 := Sha256.hexOf document,
      documentSize := document.length.toUInt64, sourceUrl } with
  | none => Service.abort
  | some text => Service.writeAtomic config.cacheMetadataPath text

def fromDocument (document : Bytes) (servedFromCache : Bool) (ageSeconds : Int64) (plan : FetchPlan)
    (detail : Bytes) : ServiceProgram CatalogOutcome :=
  match parseCatalog J document with
  | .error (.rejected error) => return { plan, servedFromCache, ageSeconds, detail := error.describe }
  | .error .fault => Service.abort
  | .ok catalog => return { plan, servedFromCache, ageSeconds, detail, catalog := some catalog }

def request (ifNoneMatch : Bytes) : ServiceProgram (Bool × Except HttpError Response) := do
  let response ← Service.fetch config.catalogUrl ifNoneMatch
  match response with
  | .ok response => return (false, .ok response)
  | .error error =>
    if hostUnreachable error && !config.mirrorUrl.isEmpty then
      let response ← Service.fetch config.mirrorUrl []
      return (true, response)
    else return (false, .error error)

def CatalogConfig.sourceUrl (usedMirror : Bool) : Bytes :=
  if usedMirror then config.mirrorUrl else config.catalogUrl

def plan (b : Beginning) : FetchDecision :=
  planManifestFetch (b.cached.map CachedDocument.metadata) b.backoff b.now config.cacheTtlSeconds config.backoff

def saveFailure (b : Beginning) : ServiceProgram Unit :=
  saveBackoff J config (afterFailure b.backoff b.now config.backoff b.now.toUInt64)

def afterRefusal (b : Beginning) (usedMirror : Bool) (error : HttpError) : ServiceProgram CatalogOutcome := do
  saveFailure J config b
  match b.cached with
  | some pair =>
    let out ← fromDocument J pair.document true (plan config b).cacheAgeSeconds (plan config b).plan
      (ascii "catalogue fetch failed (" ++ describeTransport error ++
        ascii "); showing the last known catalogue")
    return { out with transport := error, usedMirror }
  | none =>
    return { plan := (plan config b).plan, transport := error, usedMirror, detail := describeTransport error }

def afterNotModified (b : Beginning) (usedMirror : Bool) (pair : CachedDocument) :
    ServiceProgram CatalogOutcome := do
  let _ ← storeCache J config pair.document
    (if pair.metadata.etag.isEmpty then (plan config b).ifNoneMatch else pair.metadata.etag)
    (if pair.metadata.sourceUrl.isEmpty then config.sourceUrl usedMirror else pair.metadata.sourceUrl) b.now
  saveBackoff J config (afterSuccess b.backoff b.now)
  let out ← fromDocument J pair.document true 0 (plan config b).plan (ascii "not modified since last check")
  return { out with usedMirror }

def afterResponse (b : Beginning) (usedMirror : Bool) (response : Response) : ServiceProgram CatalogOutcome := do
  let out ← fromDocument J response.body false 0 (plan config b).plan (ascii "fetched a fresh catalogue")
  if !out.available then
    saveFailure J config b
    match b.cached with
    | some pair =>
      let fallback ← fromDocument J pair.document true (plan config b).cacheAgeSeconds (plan config b).plan
        (ascii "the published catalogue could not be read (" ++ out.detail ++
          ascii "); showing the last known catalogue")
      return { fallback with usedMirror }
    | none => return { out with usedMirror }
  else
    let _ ← storeCache J config response.body response.etag (config.sourceUrl usedMirror) b.now
    saveBackoff J config (afterSuccess b.backoff b.now)
    return { out with usedMirror }

def askNetwork (b : Beginning) : ServiceProgram CatalogOutcome := do
  let (usedMirror, response) ← request config (plan config b).ifNoneMatch
  match response with
  | .error error => afterRefusal J config b usedMirror error
  | .ok response =>
    if response.status = 304 then
      match b.cached with
      | some pair => afterNotModified J config b usedMirror pair
      | none => afterResponse J config b usedMirror response
    else afterResponse J config b usedMirror response

def serve (b : Beginning) : ServiceProgram CatalogOutcome :=
  match b.cached with
  | some pair =>
    fromDocument J pair.document true (plan config b).cacheAgeSeconds (plan config b).plan (plan config b).reason
  | none => Service.absent

def proceed (b : Beginning) : ServiceProgram CatalogOutcome :=
  match (plan config b).plan with
  | .serveCache | .deferToCache => serve J config b
  | .deferNoCache => return { plan := (plan config b).plan, detail := (plan config b).reason }
  | .revalidate | .fetch => askNetwork J config b

def fetch : ServiceProgram CatalogOutcome := do
  let now ← Service.nowUnix
  let cached ← loadCache J config
  let backoff ← loadBackoff J config
  proceed J config ⟨now, cached, backoff⟩

def invalidateCache : ServiceProgram Unit := do
  let _ ← Service.onDisk (SdFileStore.remove config.cachedCatalogPath)
  let _ ← Service.onDisk (SdFileStore.remove config.cacheMetadataPath)

end Fetch

end NsxManager.Catalog
