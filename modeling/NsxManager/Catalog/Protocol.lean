import NsxManager.Catalog.Service

/-! The protocol behind the update check and the catalogue: one cached document, its metadata and a backoff,
whatever the files are called and whatever the document means. -/

namespace NsxManager.Catalog

open NsxManager.Core Lib Infra SelfUpdate

inductive CacheFile where
  | document
  | metadata
  | backoff
  deriving DecidableEq

abbrev Cell := CacheFile × Bool

def cellName (name : CacheFile → Bytes) : Cell → Bytes
  | (file, false) => name file
  | (file, true) => name file ++ ascii ".tmp"

structure Layout where
  directory : Bytes
  name : CacheFile → Bytes
  injective : Function.Injective (cellName name)

abbrev Layout.cell (l : Layout) : Cell → Bytes := cellName l.name

structure Client (α : Type) where
  layout : Layout
  primary : Bytes
  mirror : Bytes
  ttl : Int64
  policy : BackoffPolicy
  present : Bytes → Bool → Int64 → FetchPlan → Bytes → ServiceProgram α
  Unreadable : α → Prop
  decidable : DecidablePred Unreadable
  detail : α → Bytes
  via : Bool → α → α
  cutOff : HttpError → Bool → α → α
  deferred : FetchDecision → α
  unreachable : FetchDecision → Bool → HttpError → α
  failed : HttpError → Bytes
  unread : Bytes → Bytes
  fresh : Bytes

namespace Client

variable {α : Type} (J : JsonLibrary) (c : Client α)

instance (a : α) : Decidable (c.Unreadable a) := c.decidable a

def loadCache : ServiceProgram (Option CachedDocument) := do
  let rawMetadata ← Service.readText (c.layout.name .metadata) kMaxSidecarBytes
  match rawMetadata with
  | none => return none
  | some raw =>
    match parseCacheMetadata J raw with
    | .error (.rejected _) => return none
    | .error .fault => Service.abort
    | .ok metadata =>
      let document ← Service.readText (c.layout.name .document) kMaxDocumentBytes
      match document with
      | none => return none
      | some document =>
        if cacheMatchesDocument metadata document then return some ⟨metadata, document⟩ else return none

def loadBackoff : ServiceProgram BackoffState := do
  let raw ← Service.readText (c.layout.name .backoff) kMaxSidecarBytes
  match raw with
  | none => return {}
  | some raw =>
    match parseBackoff J raw with
    | .error (.rejected _) => return {}
    | .error .fault => Service.abort
    | .ok state => return state

def saveBackoff (state : BackoffState) : ServiceProgram Unit := do
  let _ ← Service.makeDirectories c.layout.directory
  match serializeBackoff J state with
  | none => Service.abort
  | some text =>
    let _ ← Service.writeAtomic (c.layout.name .backoff) text

def storeCache (record : CacheRecord) (nowUnix : Int64) : ServiceProgram Bool := do
  Service.storing record
  let made ← Service.makeDirectories c.layout.directory
  if !made then return false
  let written ← Service.writeAtomic (c.layout.name .document) record.document
  if !written then return false
  match serializeCacheMetadata J (metadataOf record nowUnix) with
  | none => Service.abort
  | some text => Service.writeAtomic (c.layout.name .metadata) text

def request (ifNoneMatch : Bytes) : ServiceProgram (Bool × Except HttpError Response) := do
  let response ← Service.fetch c.primary ifNoneMatch
  match response with
  | .ok response => return (false, .ok response)
  | .error error =>
    if hostUnreachable error && !c.mirror.isEmpty then
      let response ← Service.fetch c.mirror []
      return (true, response)
    else return (false, .error error)

def sourceUrl (usedMirror : Bool) : Bytes := if usedMirror then c.mirror else c.primary

def plan (b : Beginning) : FetchDecision :=
  planManifestFetch (b.cached.map CachedDocument.metadata) b.backoff b.now c.ttl c.policy

def saveFailure (b : Beginning) : ServiceProgram Unit :=
  c.saveBackoff J (afterFailure b.backoff b.now c.policy b.now.toUInt64)

def afterRefusal (b : Beginning) (usedMirror : Bool) (error : HttpError) : ServiceProgram α := do
  c.saveFailure J b
  match b.cached with
  | some pair =>
    let out ← c.present pair.document true (c.plan b).cacheAgeSeconds (c.plan b).plan (c.failed error)
    return c.cutOff error usedMirror out
  | none => return c.unreachable (c.plan b) usedMirror error

def afterNotModified (b : Beginning) (usedMirror : Bool) (pair : CachedDocument) : ServiceProgram α := do
  let record : CacheRecord :=
    { document := pair.document
      etag := if pair.metadata.etag.isEmpty then (c.plan b).ifNoneMatch else pair.metadata.etag
      sourceUrl := if pair.metadata.sourceUrl.isEmpty then c.sourceUrl usedMirror else pair.metadata.sourceUrl }
  let _ ← c.storeCache J record b.now
  c.saveBackoff J (afterSuccess b.backoff b.now)
  let out ← c.present pair.document true 0 (c.plan b).plan (ascii "not modified since last check")
  return c.via usedMirror out

def afterResponse (b : Beginning) (usedMirror : Bool) (response : Response) : ServiceProgram α := do
  let out ← c.present response.body false 0 (c.plan b).plan c.fresh
  if c.Unreadable out then
    c.saveFailure J b
    match b.cached with
    | some pair =>
      let fallback ← c.present pair.document true (c.plan b).cacheAgeSeconds (c.plan b).plan
        (c.unread (c.detail out))
      return c.via usedMirror fallback
    | none => return c.via usedMirror out
  else
    let _ ← c.storeCache J ⟨response.body, response.etag, c.sourceUrl usedMirror⟩ b.now
    c.saveBackoff J (afterSuccess b.backoff b.now)
    return c.via usedMirror out

def askNetwork (b : Beginning) : ServiceProgram α := do
  let (usedMirror, response) ← c.request (c.plan b).ifNoneMatch
  match response with
  | .error error => c.afterRefusal J b usedMirror error
  | .ok response =>
    if response.status = 304 then
      match b.cached with
      | some pair => c.afterNotModified J b usedMirror pair
      | none => c.afterResponse J b usedMirror response
    else c.afterResponse J b usedMirror response

def serve (b : Beginning) : ServiceProgram α :=
  match b.cached with
  | some pair => c.present pair.document true (c.plan b).cacheAgeSeconds (c.plan b).plan (c.plan b).reason
  | none => Service.absent

def proceed (b : Beginning) : ServiceProgram α :=
  match (c.plan b).plan with
  | .serveCache | .deferToCache => c.serve b
  | .deferNoCache => return c.deferred (c.plan b)
  | .revalidate | .fetch => c.askNetwork J b

def get : ServiceProgram α := do
  let now ← Service.nowUnix
  let cached ← c.loadCache J
  let backoff ← c.loadBackoff J
  c.proceed J ⟨now, cached, backoff⟩

end Client

lemma cellName_append (dir : Bytes) (suffix : CacheFile → Bytes) (x : Cell) :
    cellName (fun file => dir ++ suffix file) x = dir ++ cellName suffix x := by
  rcases x with ⟨file, _ | _⟩
  · rfl
  · exact List.append_assoc _ _ _

lemma injective_cellName {dir : Bytes} {suffix : CacheFile → Bytes}
    (h : ∀ x y : Cell, cellName suffix x = cellName suffix y → x = y) :
    Function.Injective (cellName (fun file => dir ++ suffix file)) := by
  intro x y hxy
  rw [cellName_append, cellName_append] at hxy
  exact h x y (List.append_cancel_left hxy)

def updateSuffix : CacheFile → Bytes
  | .document => ascii "/update.json"
  | .metadata => ascii "/update.meta.json"
  | .backoff => ascii "/backoff.json"

def catalogSuffix : CacheFile → Bytes
  | .document => ascii "/catalog.json"
  | .metadata => ascii "/catalog.meta.json"
  | .backoff => ascii "/catalog.backoff.json"

def updateLayout (dir : Bytes) : Layout where
  directory := dir
  name file := dir ++ updateSuffix file
  injective := injective_cellName (by
    rintro ⟨_ | _ | _, _ | _⟩ ⟨_ | _ | _, _ | _⟩ h <;> first | rfl | exact absurd h (by decide))

def catalogLayout (dir : Bytes) : Layout where
  directory := dir
  name file := dir ++ catalogSuffix file
  injective := injective_cellName (by
    rintro ⟨_ | _ | _, _ | _⟩ ⟨_ | _ | _, _ | _⟩ h <;> first | rfl | exact absurd h (by decide))

def updateClient (J : JsonLibrary) (config : SelfUpdateConfig) : Client CheckOutcome where
  layout := updateLayout config.cacheDir
  primary := config.manifestUrl
  mirror := config.mirrorUrl
  ttl := config.cacheTtlSeconds
  policy := config.backoff
  present := SelfUpdate.fromDocument J config
  Unreadable out := out.decision.action = .manifestUnreadable
  decidable _ := inferInstance
  detail := CheckOutcome.detail
  via usedMirror out := { out with usedMirror }
  cutOff error usedMirror out := { out with transport := error, usedMirror }
  deferred plan := { plan := plan.plan, decision := unreadableManifest plan.reason, detail := plan.reason }
  unreachable plan usedMirror error :=
    { plan := plan.plan, transport := error, usedMirror, detail := SelfUpdate.describeTransport error,
      decision := unreadableManifest (SelfUpdate.describeTransport error) }
  failed error :=
    ascii "update check failed (" ++ SelfUpdate.describeTransport error ++ ascii "); showing the last known release"
  unread detail :=
    ascii "the published manifest could not be read (" ++ detail ++ ascii "); showing the last known release"
  fresh := ascii "fetched a fresh manifest"

def catalogClient (J : JsonLibrary) (config : CatalogConfig) : Client CatalogOutcome where
  layout := catalogLayout config.cacheDir
  primary := config.catalogUrl
  mirror := config.mirrorUrl
  ttl := config.cacheTtlSeconds
  policy := config.backoff
  present := fromDocument J
  Unreadable out := (!out.available) = true
  decidable _ := inferInstance
  detail := CatalogOutcome.detail
  via usedMirror out := { out with usedMirror }
  cutOff error usedMirror out := { out with transport := error, usedMirror }
  deferred plan := { plan := plan.plan, detail := plan.reason }
  unreachable plan usedMirror error :=
    { plan := plan.plan, transport := error, usedMirror, detail := describeTransport error }
  failed error :=
    ascii "catalogue fetch failed (" ++ describeTransport error ++ ascii "); showing the last known catalogue"
  unread detail :=
    ascii "the published catalogue could not be read (" ++ detail ++ ascii "); showing the last known catalogue"
  fresh := ascii "fetched a fresh catalogue"

lemma check_eq_get (J : JsonLibrary) (config : SelfUpdateConfig) : check J config = (updateClient J config).get J :=
  rfl

lemma fetch_eq_get (J : JsonLibrary) (config : CatalogConfig) : fetch J config = (catalogClient J config).get J :=
  rfl

end NsxManager.Catalog
