import NsxManager.Core.Sha256Standard
import NsxManager.Lib.Lists
import NsxManager.Ports
import NsxManager.SelfUpdate.Check

/-! The client over libcurl: small documents into memory, verified downloads onto the card. -/

namespace NsxManager.Infra.CurlClient

open NsxManager.Core Lib SelfUpdate

inductive CurlCode where
  | ok
  | couldntResolveHost
  | couldntResolveProxy
  | couldntConnect
  | operationTimedout
  | abortedByCallback
  | writeError
  | unsupportedProtocol
  | urlMalformat
  | filesizeExceeded
  | peerFailedVerification
  | sslCacertBadfile
  | sslConnectError
  | other (code : ℕ)
  deriving DecidableEq

/-- What a request comes to: the header lines and chunks that are handed to the callbacks, the final code, the
verify result if it can be had, and the status. libcurl counts what it delivers in a signed 64-bit integer. -/
structure Transfer where
  headers : List Bytes
  chunks : List Bytes
  counted : chunks.flatten.length < 2 ^ 63
  code : CurlCode
  verifyResult : Option Int64
  status : Int64

def kBadCertExpired : Int64 := 0x01
def kBadCertFuture : Int64 := 0x08

def classify (code : CurlCode) (verifyResult : Option Int64) : HttpError :=
  match code with
  | .ok => .none
  | .couldntResolveHost | .couldntResolveProxy => .dnsFailure
  | .couldntConnect => .connectFailed
  | .operationTimedout => .timeout
  | .abortedByCallback => .aborted
  | .writeError => .writeFailed
  | .unsupportedProtocol | .urlMalformat => .insecureUrl
  | .filesizeExceeded => .tooLarge
  | .peerFailedVerification | .sslCacertBadfile | .sslConnectError =>
    if verifyResult.any (fun result => result &&& (kBadCertExpired ||| kBadCertFuture) != 0) then .tlsClockSkew
    else .tlsVerifyFailed
  | .other _ => .internal

def classifyStatus (status : Int64) : HttpError :=
  if 200 ≤ status ∧ status < 400 then .none
  else if status = 403 ∨ status = 429 then .rateLimited
  else .httpStatus

def kScheme : Bytes := ascii "https://"

def isHttpsUrl (url : Bytes) : Bool := kScheme.length < url.length && kScheme.isPrefixOf url

section Get

structure MemorySink where
  data : Bytes := []
  limit : UInt64
  overflowed : Bool := false

def writeToMemory (sink : MemorySink) (chunk : Bytes) : MemorySink :=
  if sink.limit < sink.data.length.toUInt64 + chunk.length.toUInt64 then { sink with overflowed := true }
  else { sink with data := sink.data ++ chunk }

def kEtag : Bytes := ascii "etag:"

def lower (c : UInt8) : UInt8 := if byte 'A' ≤ c ∧ c ≤ byte 'Z' then c + 32 else c

def isBlank (c : UInt8) : Bool := c == byte ' ' || c == byte '\t'

def isLineEnd (c : UInt8) : Bool := c == byte '\r' || c == byte '\n'

def headerValue (value : Bytes) : Bytes := (value.dropWhile isBlank).rdropWhile isLineEnd

def captureHeader (etag line : Bytes) : Bytes :=
  if kEtag.length < line.length ∧ (line.take kEtag.length).map lower = kEtag then
    headerValue (line.drop kEtag.length)
  else etag

/-- `perform` is what the request comes to that has this URL and these headers. -/
def get (url : Bytes) (maxBytes : UInt64) (ifNoneMatch : Bytes) (initialised : Bool)
    (perform : Bytes → List Bytes → Transfer) : Except HttpError Response :=
  if !isHttpsUrl url then .error .insecureUrl
  else if !initialised then .error .internal
  else
    let headers := if ifNoneMatch.isEmpty then [] else [ascii "If-None-Match: " ++ ifNoneMatch]
    let transfer := perform url headers
    let sink := transfer.chunks.foldl writeToMemory { limit := maxBytes }
    let transport := classify transfer.code transfer.verifyResult
    let statusError := classifyStatus transfer.status
    if transport ≠ .none then .error (if sink.overflowed then .tooLarge else transport)
    else if statusError ≠ .none then .error statusError
    else .ok ⟨transfer.status, sink.data, transfer.headers.foldl captureHeader []⟩

def fetch (url ifNoneMatch : Bytes) (initialised : Bool) (perform : Bytes → List Bytes → Transfer) :
    Except HttpError Response :=
  get url ((1 : UInt64) <<< 20) ifNoneMatch initialised perform

end Get

section Download

structure FileSink where
  hasher : Sha256 := .reset
  written : UInt64 := 0
  limit : UInt64
  failed : Bool := false

/-- There is nothing to fail at in a write of no bytes. -/
def fwrite (path data : Bytes) : FileProgram Bool :=
  if data.isEmpty then return true else Stdio.append path data

def writeToFile (partPath : Bytes) (sink : FileSink) (chunk : Bytes) : FileProgram FileSink :=
  if sink.limit < sink.written + chunk.length.toUInt64 then return { sink with failed := true }
  else do
    let taken ← fwrite partPath chunk
    if !taken then return { sink with failed := true }
    else
      return { sink with hasher := sink.hasher.update chunk, written := sink.written + chunk.length.toUInt64 }

/-- Nothing is assumed of what libcurl does after a call that did not take its chunk. -/
def deliver (partPath : Bytes) : List Bytes → FileSink → FileProgram FileSink
  | [], sink => return sink
  | chunk :: chunks, sink => do
    let sink ← writeToFile partPath sink chunk
    deliver partPath chunks sink

/-- What `discard` is called with, where it is called before the file gets its name. -/
def verdict (expected : ExpectedArtifact) (transfer : Transfer) (flushed : Bool) (sink : FileSink) : HttpError :=
  let transport := classify transfer.code transfer.verifyResult
  let statusError := classifyStatus transfer.status
  if transport ≠ .none then if sink.failed && sink.limit ≤ sink.written then .tooLarge else transport
  else if !flushed || sink.failed then .writeFailed
  else if statusError ≠ .none then statusError
  else if sink.written ≠ expected.size then .sizeMismatch
  else if !digestsEqual sink.hasher.finish.1 expected.sha256 then .digestMismatch
  else .none

def discard (partPath : Bytes) (error : HttpError) : FileProgram (Except HttpError Unit) := do
  let _ ← Stdio.remove partPath
  return .error error

def settle (destPath partPath : Bytes) (error : HttpError) : FileProgram (Except HttpError Unit) :=
  if error ≠ .none then discard partPath error
  else do
    let _ ← Stdio.remove destPath
    let renamed ← Stdio.rename partPath destPath
    if !renamed then discard partPath .writeFailed else return .ok ()

def receive (destPath partPath : Bytes) (expected : ExpectedArtifact) (transfer : Transfer) :
    FileProgram (Except HttpError Unit) := do
  let sink ← deliver partPath transfer.chunks { limit := expected.size }
  let flushed ← Stdio.flush partPath
  settle destPath partPath (verdict expected transfer flushed sink)

def partOf (destPath : Bytes) : Bytes := destPath ++ ascii ".part"

def download (url destPath : Bytes) (expected : ExpectedArtifact) (initialised : Bool) (transfer : Transfer) :
    FileProgram (Except HttpError Unit) :=
  if !isHttpsUrl url then return .error .insecureUrl
  else if expected.size = 0 then return .error .internal
  else if !initialised then return .error .internal
  else do
    let opened ← Stdio.create (partOf destPath)
    if !opened then return .error .writeFailed
    else receive destPath (partOf destPath) expected transfer

end Download

section Memory

lemma limit_writeToMemory (sink : MemorySink) (chunk : Bytes) : (writeToMemory sink chunk).limit = sink.limit := by
  rw [writeToMemory]
  split <;> rfl

lemma length_writeToMemory (sink : MemorySink) (chunk : Bytes) (hsum : sink.data.length + chunk.length < 2 ^ 63)
    (h : sink.data.length ≤ sink.limit.toNat) :
    (writeToMemory sink chunk).data.length ≤ sink.limit.toNat ∧
      (writeToMemory sink chunk).data.length ≤ sink.data.length + chunk.length := by
  rw [writeToMemory]
  split
  · exact ⟨h, Nat.le_add_right ..⟩
  · next hroom =>
    rw [UInt64.lt_iff_toNat_lt, UInt64.toNat_add, Nat.toUInt64_eq, Nat.toUInt64_eq, UInt64.toNat_ofNat',
      UInt64.toNat_ofNat'] at hroom
    rw [List.length_append]
    omega

lemma length_foldl_writeToMemory (chunks : List Bytes) {sink : MemorySink}
    (hsum : sink.data.length + chunks.flatten.length < 2 ^ 63) (h : sink.data.length ≤ sink.limit.toNat) :
    (chunks.foldl writeToMemory sink).data.length ≤ sink.limit.toNat := by
  induction chunks generalizing sink with
  | nil => exact h
  | cons chunk chunks ih =>
    rw [List.flatten_cons, List.length_append] at hsum
    obtain ⟨hlimit, hgrown⟩ := length_writeToMemory sink chunk (by omega) h
    have hrest := @ih (writeToMemory sink chunk) (by omega) (by rwa [limit_writeToMemory])
    rwa [limit_writeToMemory] at hrest

lemma length_body_of_get {url ifNoneMatch : Bytes} {maxBytes : UInt64} {initialised : Bool}
    {perform : Bytes → List Bytes → Transfer} {response : Response}
    (h : get url maxBytes ifNoneMatch initialised perform = .ok response) : response.body.length ≤ maxBytes.toNat := by
  dsimp only [get] at h
  generalize perform url (if ifNoneMatch.isEmpty then [] else [ascii "If-None-Match: " ++ ifNoneMatch]) = transfer at h
  split at h
  · cases h
  split at h
  · cases h
  split at h
  · cases h
  split at h
  · cases h
  cases h
  refine length_foldl_writeToMemory _ ?_ (Nat.zero_le _)
  rw [List.length_nil, Nat.zero_add]
  exact transfer.counted

end Memory

lemma partOf_ne (destPath : Bytes) : destPath ≠ partOf destPath := by
  simp [partOf, ascii]

/-- The sink after `hashed` has gone past it, on a card that was `c` at the start. Once a call has failed nothing
is known of the part file. -/
structure Filled (destPath partPath : Bytes) (c : Card) (sink : FileSink) (hashed : Bytes) (d : Card) : Prop where
  destination : d.lookup destPath = c.lookup destPath
  hasher : sink.hasher.Holds hashed
  written : sink.written = hashed.length.toUInt64
  part : sink.failed = false → d.lookup partPath = some hashed

section Sink

variable {α : Type} {A : Event FileOp FileOp.Reply Fate → Prop} {C : Card → Prop} {Q : α → Card → Prop}
  {destPath partPath : Bytes} {c d : Card} {sink : FileSink} {hashed : Bytes}

lemma Filled.fail (h : Filled destPath partPath c sink hashed d) {d' : Card}
    (hd : d'.lookup destPath = d.lookup destPath) :
    Filled destPath partPath c { sink with failed := true } hashed d' :=
  ⟨hd.trans h.destination, h.hasher, h.written, nofun⟩

lemma Filled.take (h : Filled destPath partPath c sink hashed d) {d' : Card} {chunk : Bytes}
    (hd : d'.lookup destPath = d.lookup destPath)
    (hpart : d.lookup partPath = some hashed → d'.lookup partPath = some (hashed ++ chunk)) :
    Filled destPath partPath c
      { sink with hasher := sink.hasher.update chunk, written := sink.written + chunk.length.toUInt64 }
      (hashed ++ chunk) d' := by
  refine ⟨hd.trans h.destination, h.hasher.update chunk, ?_, fun hfailed => hpart (h.part hfailed)⟩
  rw [h.written, List.length_append]
  exact (UInt64.ofNat_add ..).symm

variable (hne : destPath ≠ partPath) (hfaithful : Stdio.Faithful A partPath)
  (hC : ∀ d, d.lookup destPath = c.lookup destPath → C d)

include hne hfaithful hC

lemma wp_writeToFile (chunk : Bytes) {k : FileSink → FileProgram α} (h : Filled destPath partPath c sink hashed d)
    (hk : ∀ sink' hashed' d', Filled destPath partPath c sink' hashed' d' →
      hashed'.length ≤ hashed.length + chunk.length → Stdio.world.wp A C (k sink') Q d') :
    Stdio.world.wp A C (writeToFile partPath sink chunk >>= k) Q d := by
  rw [writeToFile]
  split
  · exact hk _ _ _ (h.fail rfl) (Nat.le_add_right ..)
  rw [fwrite]
  split
  · next hempty =>
    obtain rfl : chunk = [] := List.isEmpty_iff.mp hempty
    exact hk _ _ _ (h.take rfl (fun hpart => by rwa [List.append_nil])) (List.length_append ..).le
  · have hother : ∀ bytes, (Stdio.extend d partPath bytes).lookup destPath = d.lookup destPath := by
      intro bytes
      rw [Stdio.lookup_extend, if_neg hne]
    refine Stdio.wp_append (hC d h.destination) (fun bytes _ => hC _ ?_) (fun bytes _ => ?_)
      (fun bytes hbytes => ?_)
    · rw [hother, h.destination]
    · exact hk _ _ _ (h.fail (hother bytes)) (Nat.le_add_right ..)
    · obtain rfl := hbytes hfaithful
      exact hk _ _ _ (h.take (hother _) (Stdio.lookup_extended _)) (List.length_append ..).le

lemma wp_deliver (chunks : List Bytes) {k : FileSink → FileProgram α} (h : Filled destPath partPath c sink hashed d)
    (hk : ∀ sink' hashed' d', Filled destPath partPath c sink' hashed' d' →
      hashed'.length ≤ hashed.length + chunks.flatten.length → Stdio.world.wp A C (k sink') Q d') :
    Stdio.world.wp A C (deliver partPath chunks sink >>= k) Q d := by
  induction chunks generalizing sink hashed d with
  | nil => exact hk _ _ _ h (Nat.le_add_right ..)
  | cons chunk chunks ih =>
    rw [deliver, Program.bind_assoc]
    refine wp_writeToFile hne hfaithful hC chunk h (fun sink' hashed' d' h' hle => ih h' ?_)
    intro sink'' hashed'' d'' h'' hle'
    refine hk _ _ _ h'' ?_
    rw [List.flatten_cons, List.length_append]
    omega

end Sink

lemma of_verdict_eq_none {expected : ExpectedArtifact} {transfer : Transfer} {flushed : Bool} {sink : FileSink}
    (h : verdict expected transfer flushed sink = .none) :
    sink.failed = false ∧ sink.written = expected.size ∧ sink.hasher.finish.1 = expected.sha256 := by
  dsimp only [verdict] at h
  split at h
  · next htransport =>
    split at h
    · cases h
    · exact absurd h htransport
  split at h
  · cases h
  next hkept =>
  split at h
  · next hstatus => exact absurd h hstatus
  split at h
  · cases h
  next hsize =>
  split at h
  · cases h
  next hdigest =>
  rw [Bool.not_eq_true', Bool.not_eq_false, digestsEqual_iff] at hdigest
  rw [Bool.or_eq_true, not_or, Bool.not_eq_true] at hkept
  exact ⟨Bool.not_eq_true _ ▸ hkept.2, not_not.mp hsize, hdigest⟩

lemma Filled.admitted {destPath partPath : Bytes} {c d : Card} {sink : FileSink} {hashed : Bytes}
    (h : Filled destPath partPath c sink hashed d) (hlen : hashed.length < 2 ^ 63) {expected : ExpectedArtifact}
    {transfer : Transfer} {flushed : Bool} (hverdict : verdict expected transfer flushed sink = .none) :
    d.lookup partPath = some hashed ∧ Ports.admission expected hashed = .none := by
  obtain ⟨hfailed, hsize, hdigest⟩ := of_verdict_eq_none hverdict
  refine ⟨h.part hfailed, Ports.admission_eq_none.mpr ⟨?_, h.hasher.of_eq.symm.trans hdigest⟩⟩
  rw [← hsize, h.written, Nat.toUInt64_eq, UInt64.toNat_ofNat']
  omega

def errorOf : Except HttpError Unit → HttpError
  | .ok () => .none
  | .error error => error

/-- The destination is as the gateway of the ports leaves it under some fate, with the same report. -/
def Meets (destPath : Bytes) (expected : ExpectedArtifact) (c : Card) (r : Except HttpError Unit) (d : Card) : Prop :=
  ∃ fate, (Ports.fetch destPath expected c fate).1 = errorOf r ∧
    d.lookup destPath = (Ports.fetch destPath expected c fate).2.lookup destPath

section Settle

variable {A : Event FileOp FileOp.Reply Fate → Prop} {expected : ExpectedArtifact} {destPath partPath : Bytes}
  {c d : Card} {r : Except HttpError Unit} {error : HttpError}

lemma meets_of_kept (herror : error ≠ .none) (hd : d.lookup destPath = c.lookup destPath) :
    Meets destPath expected c (.error error) d :=
  ⟨.refused error, if_neg herror, hd⟩

lemma meets_of_gone (hd : d.lookup destPath = none) : Meets destPath expected c (.error .writeFailed) d :=
  ⟨.broken .writeFailed, rfl, hd.trans (AList.lookup_erase destPath c).symm⟩

lemma meets_of_admitted {content : Bytes} (hadmitted : Ports.admission expected content = .none)
    (hd : d.lookup destPath = some content) : Meets destPath expected c (.ok ()) d := by
  refine ⟨.served content, hadmitted, ?_⟩
  rw [Ports.fetch, if_pos hadmitted, hd, AList.lookup_insert]

def Removes (A : Event FileOp FileOp.Reply Fate → Prop) (partPath : Bytes) : Prop :=
  ∀ n, ¬A ⟨.remove partPath, .fails n, false⟩

structure Ended (A : Event FileOp FileOp.Reply Fate → Prop) (destPath partPath : Bytes) (expected : ExpectedArtifact)
    (c : Card) (r : Except HttpError Unit) (d : Card) : Prop where
  meets : Meets destPath expected c r d
  clean : r ≠ .ok () → Removes A partPath → d.lookup partPath = none

def NothingNew (destPath : Bytes) (c d : Card) : Prop :=
  d.lookup destPath = c.lookup destPath ∨ d.lookup destPath = none

lemma wp_discard (hne : destPath ≠ partPath) (hd : NothingNew destPath c d)
    (hmeets : ∀ d', d'.lookup destPath = d.lookup destPath → Meets destPath expected c (.error error) d') :
    Stdio.world.wp A (NothingNew destPath c) (discard partPath error) (Ended A destPath partPath expected c) d := by
  refine (World.wp_call _ _).mpr ⟨hd, fun f => ?_⟩
  have hgone : Ended A destPath partPath expected c (.error error) (d.erase partPath) := by
    refine ⟨hmeets _ ?_, fun _ _ => AList.lookup_erase partPath d⟩
    rw [Card.lookup_erase_eq, if_neg hne]
  cases f with
  | torn n => exact hd
  | fails n => exact fun hA => ⟨hmeets d rfl, fun _ hremoves => absurd hA (hremoves n)⟩
  | _ => exact fun _ => hgone

lemma wp_settle (hne : destPath ≠ partPath) (hd : d.lookup destPath = c.lookup destPath)
    (hpart : error = .none → ∃ content, d.lookup partPath = some content ∧ Ports.admission expected content = .none) :
    Stdio.world.wp A (NothingNew destPath c) (settle destPath partPath error)
      (Ended A destPath partPath expected c) d := by
  rw [settle]
  split
  · next herror => exact wp_discard hne (.inl hd) (fun d' hd' => meets_of_kept herror (hd'.trans hd))
  · next hnone =>
    obtain ⟨content, hcontent, hadmitted⟩ := hpart (not_not.mp hnone)
    have hrename : ∀ d, NothingNew destPath c d → d.lookup partPath = some content →
        Stdio.world.wp A (NothingNew destPath c) (Stdio.rename partPath destPath >>= fun renamed =>
          if !renamed then discard partPath .writeFailed else pure (.ok ()))
          (Ended A destPath partPath expected c) d := by
      intro d hd hcontent
      refine Stdio.wp_rename hd (wp_discard hne hd (fun d' hd' => ?_)) (fun bytes hbytes hfree => ?_)
      · rcases hd with hd | hd
        · exact meets_of_kept (by decide) (hd'.trans hd)
        · exact meets_of_gone (hd'.trans hd)
      · obtain rfl : content = bytes := Option.some.inj (hcontent.symm.trans hbytes)
        refine ⟨meets_of_admitted hadmitted ?_, fun hok => absurd rfl hok⟩
        rw [d.lookup_move _ hcontent hfree, if_pos rfl]
    refine Stdio.wp_remove (.inl hd) (fun _ => hrename d (.inl hd) hcontent) (fun _ => hrename _ (.inr ?_) ?_)
    · exact AList.lookup_erase destPath d
    · rw [Card.lookup_erase_eq, if_neg hne.symm, hcontent]

lemma wp_receive (hne : destPath ≠ partPath) (hfaithful : Stdio.Faithful A partPath) (transfer : Transfer)
    (hd : d.lookup destPath = c.lookup destPath) (hpart : d.lookup partPath = some []) :
    Stdio.world.wp A (NothingNew destPath c) (receive destPath partPath expected transfer)
      (Ended A destPath partPath expected c) d := by
  have hstart : Filled destPath partPath c { limit := expected.size } [] d :=
    ⟨hd, Sha256.holds_reset, rfl, fun _ => hpart⟩
  refine wp_deliver hne hfaithful (fun _ => .inl) _ hstart (fun sink hashed d' h hle => ?_)
  refine Stdio.wp_flush (.inl h.destination) (fun flushed => wp_settle hne h.destination (fun hverdict => ?_))
  have hcounted := transfer.counted
  exact ⟨hashed, h.admitted (by rw [List.length_nil] at hle; omega) hverdict⟩

end Settle

def Verified (expected : ExpectedArtifact) (content : Bytes) : Prop :=
  content.length = expected.size.toNat ∧ Fips180.sha256 content = expected.sha256.toList

lemma verified_of_admission {expected : ExpectedArtifact} {content : Bytes}
    (h : Ports.admission expected content = .none) : Verified expected content := by
  obtain ⟨hsize, hdigest⟩ := Ports.admission_eq_none.mp h
  exact ⟨hsize, by rw [← hdigest, Sha256.toList_of]⟩

lemma Meets.of_ok {destPath : Bytes} {expected : ExpectedArtifact} {c d : Card}
    (h : Meets destPath expected c (.ok ()) d) :
    ∃ content, d.lookup destPath = some content ∧ Verified expected content := by
  obtain ⟨fate, herror, hd⟩ := h
  cases fate with
  | served body =>
    have hadmitted : Ports.admission expected body = .none := herror
    refine ⟨body, ?_, verified_of_admission hadmitted⟩
    rw [hd, Ports.fetch, if_pos hadmitted, AList.lookup_insert]
  | refused error =>
    have hrefused : (if error = .none then HttpError.internal else error) = .none := herror
    split at hrefused
    · cases hrefused
    · next hne => exact absurd hrefused hne
  | _ => cases herror

lemma Meets.nothingNew_or {destPath : Bytes} {expected : ExpectedArtifact} {c d : Card} {r : Except HttpError Unit}
    (h : Meets destPath expected c r d) :
    NothingNew destPath c d ∨ ∃ content, d.lookup destPath = some content ∧ Verified expected content := by
  obtain ⟨fate, hfate, hd⟩ := h
  cases fate with
  | served body =>
    by_cases hadmission : Ports.admission expected body = .none
    · rw [Ports.fetch, if_pos hadmission, AList.lookup_insert] at hd
      exact .inr ⟨body, hd, verified_of_admission hadmission⟩
    · rw [Ports.fetch, if_neg hadmission] at hd
      exact .inl (.inl hd)
  | broken _ => exact .inl (.inr (hd.trans (AList.lookup_erase destPath c)))
  | _ => exact .inl (.inl hd)

lemma download_cases (url destPath : Bytes) (expected : ExpectedArtifact) (initialised : Bool) (transfer : Transfer) :
    (∃ error, download url destPath expected initialised transfer = .done (.error error)) ∨
      download url destPath expected initialised transfer = .call (.create (partOf destPath)) (fun opened : Bool =>
        if !opened then .done (.error .writeFailed) else receive destPath (partOf destPath) expected transfer) := by
  rw [download]
  split
  · exact .inl ⟨_, rfl⟩
  split
  · exact .inl ⟨_, rfl⟩
  split
  · exact .inl ⟨_, rfl⟩
  · exact .inr rfl

lemma faithful_of_fates {α : Type} (prog : FileProgram α) {fates : List Fate} (c : Card)
    (h : ∀ bytes, Fate.corrupt bytes ∉ fates) (path : Bytes) :
    Stdio.Faithful (· ∈ (Stdio.world.exec prog fates c).log) path :=
  fun _ bytes hmem => h bytes (World.fate_mem_of_mem_log _ hmem)

structure Safe (destPath : Bytes) (expected : ExpectedArtifact) (c : Card)
    (t : Trace FileOp FileOp.Reply Fate Card (Except HttpError Unit)) : Prop where
  held : NothingNew destPath c t.state ∨ ∃ content, t.state.lookup destPath = some content ∧ Verified expected content
  verified : t.outcome = some (.ok ()) → ∃ content, t.state.lookup destPath = some content ∧ Verified expected content
  clean : ∀ error f, t.outcome = some (.error error) → ⟨.create (partOf destPath), f, true⟩ ∈ t.log →
    Removes (· ∈ t.log) (partOf destPath) → t.state.lookup (partOf destPath) = none

section Safe

variable {destPath : Bytes} {expected : ExpectedArtifact} {c : Card}

lemma safe_of_unopened {t : Trace FileOp FileOp.Reply Fate Card (Except HttpError Unit)} (hstate : t.state = c)
    (hout : t.outcome ≠ some (.ok ())) (hlog : ∀ f, ⟨.create (partOf destPath), f, true⟩ ∉ t.log) :
    Safe destPath expected c t where
  held := .inl (.inl (by rw [hstate]))
  verified hok := absurd hok hout
  clean _ f _ hopened := absurd hopened (hlog f)

lemma safe_of_ended {t : Trace FileOp FileOp.Reply Fate Card (Except HttpError Unit)}
    (h : t.Ends (Ended (· ∈ t.log) destPath (partOf destPath) expected c) (NothingNew destPath c)) :
    Safe destPath expected c t := by
  rw [Trace.Ends] at h
  cases hout : t.outcome with
  | none =>
    rw [hout] at h
    exact ⟨.inl h, by simp [hout], by simp [hout]⟩
  | some r =>
    rw [hout] at h
    refine ⟨h.meets.nothingNew_or, fun hok => ?_, fun error _ herror _ hremoves => ?_⟩
    · obtain rfl : r = .ok () := Option.some.inj (hout.symm.trans hok)
      exact h.meets.of_ok
    · obtain rfl : r = .error error := Option.some.inj (hout.symm.trans herror)
      exact h.clean (by simp) hremoves

end Safe

theorem only_verified_bytes_get_the_name (url destPath : Bytes) (expected : ExpectedArtifact) (initialised : Bool)
    (transfer : Transfer) (fates : List Fate) (c : Card) (hwritten : ∀ bytes, Fate.corrupt bytes ∉ fates) :
    Safe destPath expected c
      (Stdio.world.exec (download url destPath expected initialised transfer) fates c) := by
  have hne := partOf_ne destPath
  have hfaithful := faithful_of_fates (download url destPath expected initialised transfer) c hwritten
    (partOf destPath)
  rcases download_cases url destPath expected initialised transfer with ⟨error, heq⟩ | heq
  · rw [heq, World.exec_done]
    exact safe_of_unopened rfl nofun (fun _ => List.not_mem_nil)
  rw [heq] at hfaithful ⊢
  cases fates with
  | nil => exact safe_of_unopened rfl nofun (fun _ => List.not_mem_nil)
  | cons f fates =>
    cases f with
    | torn n => exact safe_of_unopened rfl nofun (fun _ => List.not_mem_nil)
    | fails n =>
      refine safe_of_unopened rfl nofun (fun f hmem => ?_)
      cases List.mem_singleton.mp hmem
    | corrupt bytes => exact absurd List.mem_cons_self (hwritten bytes)
    | ok =>
      -- the events of the run from here on are among those of the whole run
      refine safe_of_ended (World.exec_ends (p := receive destPath (partOf destPath) expected transfer)
        (wp_receive hne hfaithful transfer ?_ ?_) (fun _ hev => List.mem_cons_of_mem _ hev))
      · rw [Card.lookup_insert_eq, if_neg hne]
      · rw [Card.lookup_insert_eq, if_pos rfl]

namespace Sample

def expected : ExpectedArtifact := ⟨3, Sha256.of (ascii "abc")⟩

def transfer : Transfer := ⟨[], [ascii "a", [], ascii "bc"], by decide, .ok, none, 200⟩

def run : Trace FileOp FileOp.Reply Fate Card (Except HttpError Unit) :=
  Stdio.world.exec (download (ascii "https://a/b") (ascii "b") expected true transfer) (List.replicate 6 .ok) ∅

end Sample

theorem a_download_in_chunks_is_safe : Sample.run.outcome.any Except.isOk = true ∧
    Safe (ascii "b") Sample.expected ∅ Sample.run :=
  ⟨by decide +kernel, only_verified_bytes_get_the_name _ _ _ _ _ _ _ (fun _ h => nomatch List.eq_of_mem_replicate h)⟩

end NsxManager.Infra.CurlClient
