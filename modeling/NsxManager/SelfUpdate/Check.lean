import NsxManager.Forwarder.Steps
import NsxManager.SelfUpdate.Stage

/-! The update check: cache, throttling, primary host and mirror. -/

namespace NsxManager.SelfUpdate

open NsxManager.Core Lib Infra

structure Response where
  status : Int64 := 0
  body : Bytes := []
  etag : Bytes := []
  deriving DecidableEq

structure CacheRecord where
  document : Bytes
  etag : Bytes
  sourceUrl : Bytes
  deriving DecidableEq

inductive ServiceOp where
  | nowUnix
  | readText (path : Bytes) (maxBytes : ℕ)
  | makeDirectories (path : Bytes)
  | disk (request : FileOp)
  | fetch (url ifNoneMatch : Bytes)
  /-- Marks that `storeCache` is called, and does nothing. -/
  | storing (record : CacheRecord)
  /-- `*cached` where nothing is cached. -/
  | absent
  /-- An exception nothing catches. -/
  | abort
  deriving DecidableEq

def ServiceOp.Reply : ServiceOp → Type
  | .nowUnix => Int64
  | .readText _ _ => Option Bytes
  | .makeDirectories _ => Bool
  | .disk request => request.Reply
  | .fetch _ _ => Except HttpError Response
  | .storing _ => Unit
  | .absent | .abort => Empty

/-- Power is lost in the middle of a write, or before the request that is given no fate. -/
inductive ServiceFate where
  | ok
  | fails (written : ℕ)
  | torn (written : ℕ)
  | time (now : Int64)
  | responded (response : Response)
  | refused (error : HttpError)
  deriving DecidableEq

def ServiceFate.failing : ServiceFate → Bool
  | .fails _ | .torn _ => true
  | _ => false

def ServiceFate.onDisk : ServiceFate → Fate
  | .fails written => .fails written
  | .torn written => .torn written
  | _ => .ok

def ServiceFate.answer : ServiceFate → Except HttpError Response
  | .responded response => .ok response
  | .refused error => .error error
  | _ => .error .noNetwork

/-- The card, with what the gateway has answered and what `storeCache` has been given so far, newest
first. -/
structure Console where
  card : Card
  answers : List (Except HttpError Response) := []
  stored : List CacheRecord := []

abbrev ServiceProgram (α : Type) := Program ServiceOp ServiceOp.Reply α

namespace Service

def step : (e : ServiceOp) → ServiceFate → Console → Option e.Reply × Console
  | .nowUnix, fate, s => (some (match fate with | .time now => now | _ => (0 : Int64)), s)
  | .readText path maxBytes, _, s => (some ((s.card.lookup path).filter (fun b => b.length ≤ maxBytes)), s)
  | .makeDirectories _, fate, s => (some (!fate.failing), s)
  | .disk request, fate, s =>
    ((Stdio.step request fate.onDisk s.card).1, { s with card := (Stdio.step request fate.onDisk s.card).2 })
  | .fetch _ _, fate, s => (some fate.answer, { s with answers := fate.answer :: s.answers })
  | .storing record, _, s => (some (), { s with stored := record :: s.stored })
  | .absent, _, s => (none, s)
  | .abort, _, s => (none, s)

def world : World ServiceOp ServiceOp.Reply ServiceFate Console := ⟨step⟩

def nowUnix : ServiceProgram Int64 := .call .nowUnix .done

def readText (path : Bytes) (maxBytes : ℕ) : ServiceProgram (Option Bytes) :=
  .call (.readText path maxBytes) .done

def makeDirectories (path : Bytes) : ServiceProgram Bool := .call (.makeDirectories path) .done

def fetch (url ifNoneMatch : Bytes) : ServiceProgram (Except HttpError Response) :=
  .call (.fetch url ifNoneMatch) .done

def storing (record : CacheRecord) : ServiceProgram Unit := .call (.storing record) .done

def absent {α : Type} : ServiceProgram α := .call .absent (fun impossible => nomatch impossible)

def abort {α : Type} : ServiceProgram α := .call .abort (fun impossible => nomatch impossible)

def onDisk {α : Type} : FileProgram α → ServiceProgram α
  | .done a => .done a
  | .call request next => .call (.disk request) (fun reply => onDisk (next reply))

end Service

def SdFileStore.writeAtomic (path data : Bytes) : FileProgram Bool := do
  let tmp := path ++ ascii ".tmp"
  let opened ← Stdio.create tmp
  if !opened then return false
  let written ← if data.isEmpty then pure true else Stdio.append tmp data
  let flushed ← Stdio.flush tmp
  if !written || !flushed then
    let _ ← Stdio.remove tmp
    return false
  let _ ← Stdio.remove path
  let renamed ← Stdio.rename tmp path
  if !renamed then
    let _ ← Stdio.remove tmp
    return false
  return true

def SdFileStore.remove (path : Bytes) : FileProgram Bool := do
  let _ ← Stdio.remove path
  let there ← Stdio.probe path
  return !there

def Service.writeAtomic (path data : Bytes) : ServiceProgram Bool :=
  Service.onDisk (SdFileStore.writeAtomic path data)

def kMaxDocumentBytes : ℕ := 2 ^ 20

def kMaxSidecarBytes : ℕ := 64 * 1024

def hostUnreachable (error : HttpError) : Bool :=
  error == .dnsFailure || error == .connectFailed || error == .timeout

structure CachedDocument where
  metadata : CacheMetadata
  document : Bytes
  deriving DecidableEq

structure CheckOutcome where
  decision : UpdateDecision := {}
  manifest : Option UpdateManifest := none
  plan : FetchPlan := .fetch
  servedFromCache : Bool := false
  usedMirror : Bool := false
  manifestAgeSeconds : Int64 := 0
  transport : HttpError := .none
  detail : Bytes := []
  deriving DecidableEq

section Check

variable (J : JsonLibrary) (config : SelfUpdateConfig)

/-- A pair that does not describe itself is treated as no cache at all. -/
def loadCache : ServiceProgram (Option CachedDocument) := do
  let rawMetadata ← Service.readText config.cacheMetadataPath kMaxSidecarBytes
  match rawMetadata with
  | none => return none
  | some raw =>
    match parseCacheMetadata J raw with
    | .error (.rejected _) => return none
    | .error .fault => Service.abort
    | .ok metadata =>
      let document ← Service.readText config.cachedManifestPath kMaxDocumentBytes
      match document with
      | none => return none
      | some document =>
        if cacheMatchesDocument metadata document then return some ⟨metadata, document⟩ else return none

def loadBackoff : ServiceProgram BackoffState := do
  let raw ← Service.readText config.backoffPath kMaxSidecarBytes
  match raw with
  | none => return {}
  | some raw =>
    match parseBackoff J raw with
    | .error (.rejected _) => return {}
    | .error .fault => Service.abort
    | .ok state => return state

/-- Best effort: whether it could be written is not looked at. -/
def saveBackoff (state : BackoffState) : ServiceProgram Unit := do
  let _ ← Service.makeDirectories config.cacheDir
  match serializeBackoff J state with
  | none => Service.abort
  | some text =>
    let _ ← Service.writeAtomic config.backoffPath text

def metadataOf (record : CacheRecord) (nowUnix : Int64) : CacheMetadata :=
  { fetchedAtUnix := nowUnix, etag := record.etag, documentSha256 := Sha256.hexOf record.document,
    documentSize := record.document.length.toUInt64, sourceUrl := record.sourceUrl }

def storeCache (record : CacheRecord) (nowUnix : Int64) : ServiceProgram Bool := do
  Service.storing record
  let made ← Service.makeDirectories config.cacheDir
  if !made then return false
  let written ← Service.writeAtomic config.cachedManifestPath record.document
  if !written then return false
  match serializeCacheMetadata J (metadataOf record nowUnix) with
  | none => Service.abort
  | some text => Service.writeAtomic config.cacheMetadataPath text

def fromDocument (document : Bytes) (servedFromCache : Bool) (ageSeconds : Int64) (plan : FetchPlan)
    (detail : Bytes) : ServiceProgram CheckOutcome :=
  match parseManifest J document with
  | .error (.rejected error) =>
    return { plan, servedFromCache, manifestAgeSeconds := ageSeconds,
             decision := unreadableManifest error.describe, detail := error.describe }
  | .error .fault => Service.abort
  | .ok manifest =>
    return { plan, servedFromCache, manifestAgeSeconds := ageSeconds, detail, manifest := some manifest,
             decision := decideUpdate config.installed manifest config.channel }

/-- The mirror has tags of its own, so it is asked without one. -/
def request (ifNoneMatch : Bytes) : ServiceProgram (Bool × Except HttpError Response) := do
  let response ← Service.fetch config.manifestUrl ifNoneMatch
  match response with
  | .ok response => return (false, .ok response)
  | .error error =>
    if hostUnreachable error && !config.mirrorUrl.isEmpty then
      let response ← Service.fetch config.mirrorUrl []
      return (true, response)
    else return (false, .error error)

def SelfUpdateConfig.sourceUrl (usedMirror : Bool) : Bytes :=
  if usedMirror then config.mirrorUrl else config.manifestUrl

structure Beginning where
  now : Int64
  cached : Option CachedDocument
  backoff : BackoffState

def Beginning.plan (b : Beginning) : FetchDecision :=
  planManifestFetch (b.cached.map CachedDocument.metadata) b.backoff b.now config.cacheTtlSeconds config.backoff

def saveFailure (b : Beginning) : ServiceProgram Unit :=
  saveBackoff J config (afterFailure b.backoff b.now config.backoff b.now.toUInt64)

def afterRefusal (b : Beginning) (usedMirror : Bool) (error : HttpError) : ServiceProgram CheckOutcome := do
  saveFailure J config b
  match b.cached with
  | some pair =>
    let out ← fromDocument J config pair.document true (b.plan config).cacheAgeSeconds (b.plan config).plan
      (ascii "update check failed (" ++ describeTransport error ++ ascii "); showing the last known release")
    return { out with transport := error, usedMirror }
  | none =>
    return { plan := (b.plan config).plan, transport := error, usedMirror, detail := describeTransport error,
             decision := unreadableManifest (describeTransport error) }

def afterNotModified (b : Beginning) (usedMirror : Bool) (pair : CachedDocument) :
    ServiceProgram CheckOutcome := do
  let record : CacheRecord :=
    { document := pair.document
      etag := if pair.metadata.etag.isEmpty then (b.plan config).ifNoneMatch else pair.metadata.etag
      sourceUrl := if pair.metadata.sourceUrl.isEmpty then config.sourceUrl usedMirror
        else pair.metadata.sourceUrl }
  let _ ← storeCache J config record b.now
  saveBackoff J config (afterSuccess b.backoff b.now)
  let out ← fromDocument J config pair.document true 0 (b.plan config).plan
    (ascii "not modified since last check")
  return { out with usedMirror }

/-- A document this build cannot read is never cached, and counts as a failure. -/
def afterResponse (b : Beginning) (usedMirror : Bool) (response : Response) : ServiceProgram CheckOutcome := do
  let out ← fromDocument J config response.body false 0 (b.plan config).plan (ascii "fetched a fresh manifest")
  if out.decision.action = .manifestUnreadable then
    saveFailure J config b
    match b.cached with
    | some pair =>
      let fallback ← fromDocument J config pair.document true (b.plan config).cacheAgeSeconds
        (b.plan config).plan
        (ascii "the published manifest could not be read (" ++ out.detail ++
          ascii "); showing the last known release")
      return { fallback with usedMirror }
    | none => return { out with usedMirror }
  else
    let _ ← storeCache J config ⟨response.body, response.etag, config.sourceUrl usedMirror⟩ b.now
    saveBackoff J config (afterSuccess b.backoff b.now)
    return { out with usedMirror }

def askNetwork (b : Beginning) : ServiceProgram CheckOutcome := do
  let (usedMirror, response) ← request config (b.plan config).ifNoneMatch
  match response with
  | .error error => afterRefusal J config b usedMirror error
  | .ok response =>
    if response.status = 304 then
      match b.cached with
      | some pair => afterNotModified J config b usedMirror pair
      | none => afterResponse J config b usedMirror response
    else afterResponse J config b usedMirror response

def serve (b : Beginning) : ServiceProgram CheckOutcome :=
  match b.cached with
  | some pair =>
    fromDocument J config pair.document true (b.plan config).cacheAgeSeconds (b.plan config).plan
      (b.plan config).reason
  | none => Service.absent

def proceed (b : Beginning) : ServiceProgram CheckOutcome :=
  match (b.plan config).plan with
  | .serveCache | .deferToCache => serve J config b
  | .deferNoCache =>
    return { plan := (b.plan config).plan, decision := unreadableManifest (b.plan config).reason,
             detail := (b.plan config).reason }
  | .revalidate | .fetch => askNetwork J config b

def check : ServiceProgram CheckOutcome := do
  let now ← Service.nowUnix
  let cached ← loadCache J config
  let backoff ← loadBackoff J config
  proceed J config ⟨now, cached, backoff⟩

end Check

def ServiceOp.isFetch : ServiceOp → Bool
  | .fetch _ _ => true
  | _ => false

structure Exchange where
  url : Bytes
  ifNoneMatch : Bytes
  answer : Except HttpError Response
  deriving DecidableEq

def exchangeOf : Event ServiceOp ServiceOp.Reply ServiceFate → Option Exchange
  | ⟨.fetch url ifNoneMatch, _, answer⟩ => some ⟨url, ifNoneMatch, answer⟩
  | _ => none

lemma exchangeOf_eq_none {e : ServiceOp} {f : ServiceFate} {r : e.Reply} (h : e.isFetch = false) :
    exchangeOf ⟨e, f, r⟩ = none := by
  cases e <;> first | rfl | cases h

def exchanges (log : List (Event ServiceOp ServiceOp.Reply ServiceFate)) : List Exchange := log.filterMap exchangeOf

def SelfUpdateConfig.files (config : SelfUpdateConfig) : List Bytes :=
  [config.cachedManifestPath, config.cachedManifestPath ++ ascii ".tmp", config.cacheMetadataPath,
    config.cacheMetadataPath ++ ascii ".tmp", config.backoffPath, config.backoffPath ++ ascii ".tmp"]

end NsxManager.SelfUpdate
