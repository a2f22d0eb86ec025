import NsxManager.Core.Backoff
import NsxManager.Core.Sha256

/-! The cached manifest: what is recorded beside the document, and whether to ask the network at all. -/

namespace NsxManager.Core

def kManifestCacheTtlSeconds : Int64 := 6 * 60 * 60

def kSupportedCacheSchema : Int32 := 1

inductive CacheError where
  | notJson
  | notObject
  | unsupportedSchemaVersion
  | missingField
  | wrongType
  | invalidDigest
  | invalidTimestamp
  deriving DecidableEq

structure CacheMetadata where
  schemaVersion : Int32 := kSupportedCacheSchema
  fetchedAtUnix : Int64 := 0
  etag : Bytes := []
  documentSha256 : Bytes := []
  documentSize : UInt64 := 0
  sourceUrl : Bytes := []
  deriving DecidableEq

def isLowercaseHexDigest (text : Bytes) : Bool :=
  text.length == 64 &&
    text.all (fun c => (byte '0' ≤ c && c ≤ byte '9') || (byte 'a' ≤ c && c ≤ byte 'f'))

def cacheKeys : List Bytes :=
  [ascii "fetched_at_unix", ascii "document_sha256", ascii "document_size"]

/-- A cache that has lost its tag, or where it came from, can still be served. -/
def cacheText (doc : Members) (key : Bytes) : Parse CacheError Bytes :=
  if doc.has key then stringField .wrongType doc key else .ok []

def readCacheMetadata (doc : Members) : Parse CacheError CacheMetadata := do
  need .missingField (doc.has (ascii "schema_version"))
  let schema ← integerField .wrongType doc (ascii "schema_version")
  let version ← schema.getInt
  need .unsupportedSchemaVersion (version == kSupportedCacheSchema)
  need .missingField (cacheKeys.all doc.has)
  let fetched ← integerField .wrongType doc (ascii "fetched_at_unix")
  let fetchedAtUnix ← fetched.getInt64
  need .invalidTimestamp (0 ≤ fetchedAtUnix)
  let documentSha256 ← stringField .wrongType doc (ascii "document_sha256")
  need .invalidDigest (isLowercaseHexDigest documentSha256)
  let size ← doc.index (ascii "document_size")
  need .wrongType size.isNumberUnsigned
  let documentSize ← size.getUInt64
  let etag ← cacheText doc (ascii "etag")
  let sourceUrl ← cacheText doc (ascii "source_url")
  return { fetchedAtUnix, etag, documentSha256, documentSize, sourceUrl }

def parseCacheMetadata (J : JsonLibrary) (json : Bytes) : Parse CacheError CacheMetadata :=
  match J.parse json with
  | none => .error (.rejected .notJson)
  | some (.object doc) => readCacheMetadata doc
  | some _ => .error (.rejected .notObject)

def CacheMetadata.members (m : CacheMetadata) : List (Bytes × Scalar) :=
  [(ascii "document_sha256", .string m.documentSha256),
   (ascii "document_size", .unsigned m.documentSize),
   (ascii "etag", .string m.etag),
   (ascii "fetched_at_unix", .integer m.fetchedAtUnix),
   (ascii "schema_version", .integer kSupportedCacheSchema.toInt64),
   (ascii "source_url", .string m.sourceUrl)]

def serializeCacheMetadata (J : JsonLibrary) (m : CacheMetadata) : Option Bytes :=
  (J.dump m.members).map (· ++ ascii "\n")

def Sha256.hexOf (data : Bytes) : Bytes := toHex (Sha256.of data)

def cacheMatchesDocument (m : CacheMetadata) (document : Bytes) : Bool :=
  m.documentSize.toNat == document.length && Sha256.hexOf document == m.documentSha256

def cacheAgeSeconds (m : CacheMetadata) (nowUnix : Int64) : Int64 :=
  if nowUnix ≤ m.fetchedAtUnix then 0 else nowUnix - m.fetchedAtUnix

/-- A document stamped in the future is never fresh. -/
def cacheIsFresh (m : CacheMetadata) (nowUnix ttlSeconds : Int64) : Bool :=
  0 < ttlSeconds && m.fetchedAtUnix ≤ nowUnix && nowUnix - m.fetchedAtUnix < ttlSeconds

def humanDuration (seconds : Int64) : Bytes :=
  if seconds < 60 then decimal seconds.toInt ++ ascii "s"
  else if seconds < 60 * 60 then decimal (seconds / 60).toInt ++ ascii "m"
  else decimal (seconds / (60 * 60)).toInt ++ ascii "h"

inductive FetchPlan where
  | serveCache
  | revalidate
  | fetch
  | deferToCache
  | deferNoCache
  deriving DecidableEq

structure FetchDecision where
  plan : FetchPlan := .fetch
  ifNoneMatch : Bytes := []
  retryAfterSeconds : Int64 := 0
  cacheAgeSeconds : Int64 := 0
  reason : Bytes := []
  deriving DecidableEq

def FetchDecision.requestsNetwork (d : FetchDecision) : Bool := d.plan == .revalidate || d.plan == .fetch

def backingOff (backoff : BackoffState) (wait : Int64) : Bytes :=
  ascii "backing off after " ++ decimal backoff.consecutiveFailures.toInt ++
    ascii " failure(s); retrying in " ++ humanDuration wait

/-- A fresh cache comes first: it makes no request, so there is nothing to throttle. -/
def planManifestFetch (cached : Option CacheMetadata) (backoff : BackoffState) (nowUnix ttlSeconds : Int64)
    (policy : BackoffPolicy) : FetchDecision :=
  let wait := secondsUntilNextAttempt backoff nowUnix policy
  match cached with
  | some m =>
    let age := cacheAgeSeconds m nowUnix
    if cacheIsFresh m nowUnix ttlSeconds then
      { plan := .serveCache, cacheAgeSeconds := age,
        reason := ascii "cached manifest is " ++ humanDuration age ++ ascii " old" }
    else if 0 < wait then
      { plan := .deferToCache, retryAfterSeconds := wait, cacheAgeSeconds := age,
        reason := backingOff backoff wait ++ ascii ", serving a cache " ++ humanDuration age ++ ascii " old" }
    else if !m.etag.isEmpty then
      { plan := .revalidate, ifNoneMatch := m.etag, cacheAgeSeconds := age,
        reason := ascii "cached manifest is " ++ humanDuration age ++ ascii " old; revalidating" }
    else
      { plan := .fetch, cacheAgeSeconds := age, reason := ascii "cached manifest has no etag; fetching" }
  | none =>
    if 0 < wait then
      { plan := .deferNoCache, retryAfterSeconds := wait, reason := backingOff backoff wait }
    else { plan := .fetch, reason := ascii "no cached manifest" }

def CacheMetadata.document (m : CacheMetadata) : Members := m.members.map (fun p => (p.1, p.2.reread))

lemma CacheMetadata.members_keys (m : CacheMetadata) : (m.members.map Prod.fst).Pairwise (· < ·) := by
  have hkeys : m.members.map Prod.fst = ({} : CacheMetadata).members.map Prod.fst := rfl
  rw [hkeys]
  decide

lemma parseCacheMetadata_serializeCacheMetadata {J : JsonLibrary} {m : CacheMetadata} {text : Bytes}
    (hs : serializeCacheMetadata J m = some text) : parseCacheMetadata J text = readCacheMetadata m.document := by
  obtain ⟨body, hbody, rfl⟩ := Option.map_eq_some_iff.mp hs
  rw [parseCacheMetadata, J.parse_dump m.members body (ascii "\n") m.members_keys hbody (by decide)]
  rfl

lemma cacheText_ok {doc : Members} {key value text : Bytes} (hl : doc.lookup key = some (.string value))
    (h : cacheText doc key = .ok text) : text = value := by
  have hhas : doc.has key = true := by rw [Members.has, hl]; rfl
  rw [cacheText, if_pos hhas] at h
  simpa [hl] using (stringField_ok _ _ _ h).symm

lemma parseCacheMetadata_readBack {J : JsonLibrary} {m m' : CacheMetadata} {text : Bytes}
    (hs : serializeCacheMetadata J m = some text) (hp : parseCacheMetadata J text = .ok m') :
    m'.etag = m.etag ∧ m'.sourceUrl = m.sourceUrl ∧ m'.documentSha256 = m.documentSha256 := by
  rw [parseCacheMetadata_serializeCacheMetadata hs] at hp
  simp only [readCacheMetadata, Parse.bind_eq_ok, need_eq_ok, Parse.pure_eq, Except.ok.injEq] at hp
  obtain ⟨_, _, _, _, _, _, _, _, _, _, _, _, _, _, _, _, digest, hdigest, _, _, _, _, _, _, _, _,
    etag, hetag, url, hurl, rfl⟩ := hp
  have hlook := stringField_ok _ _ _ hdigest
  rw [show m.document.lookup (ascii "document_sha256") = some (.string m.documentSha256) from rfl] at hlook
  exact ⟨cacheText_ok rfl hetag, cacheText_ok rfl hurl, by simpa using hlook.symm⟩

end NsxManager.Core
