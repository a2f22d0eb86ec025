import NsxManager.Core.Json
import NsxManager.Core.Sha256

/-! The instruction the application leaves for the forwarder, and what the forwarder does with
what it finds. -/

namespace NsxManager.Core

def kSupportedHandoffSchema : Int32 := 1

inductive HandoffError where
  | notJson
  | notObject
  | unsupportedSchemaVersion
  | missingField
  | wrongType
  | relativePath
  | pathTraversal
  | invalidDigest
  | invalidAttempts
  deriving DecidableEq

def HandoffError.describe : HandoffError → Bytes
  | .notJson => ascii "handoff is not valid JSON"
  | .notObject => ascii "handoff top level is not an object"
  | .unsupportedSchemaVersion => ascii "handoff is newer than this build understands"
  | .missingField => ascii "handoff is missing a required field"
  | .wrongType => ascii "a handoff field has the wrong type"
  | .relativePath => ascii "a handoff path is not absolute"
  | .pathTraversal => ascii "a handoff path contains a parent reference"
  | .invalidDigest => ascii "the staged digest is not 64 lowercase hex"
  | .invalidAttempts => ascii "the attempt counters are out of range"

structure Handoff where
  schemaVersion : Int32 := kSupportedHandoffSchema
  createdAtUnix : Int64 := 0
  fromVersion : Bytes := []
  toVersion : Bytes := []
  stagedNro : Bytes := []
  stagedSha256 : Digest := Vector.replicate 32 0
  targetNro : Bytes := []
  backupNro : Bytes := []
  forwarderNro : Bytes := []
  attempts : Int32 := 0
  maxAttempts : Int32 := 3
  deriving DecidableEq

def Handoff.attemptsExhausted (h : Handoff) : Bool := h.maxAttempts ≤ h.attempts

def handoffKeys : List Bytes :=
  [ascii "created_at_unix", ascii "from_version", ascii "to_version", ascii "staged_nro",
    ascii "staged_sha256", ascii "target_nro", ascii "backup_nro", ascii "forwarder_nro",
    ascii "attempts", ascii "max_attempts"]

def handoffPath (doc : Members) (key : Bytes) : Parse HandoffError Bytes :=
  pathField .wrongType .relativePath .pathTraversal doc key

def handoffDigest (doc : Members) : Parse HandoffError Digest := do
  let hex ← stringField .wrongType doc (ascii "staged_sha256")
  match fromHex hex with
  | some digest => return digest
  | none => .error (.rejected .invalidDigest)

def readHandoff (doc : Members) : Parse HandoffError Handoff := do
  need .missingField (doc.has (ascii "schema_version"))
  let schema ← integerField .wrongType doc (ascii "schema_version")
  let version ← schema.getInt
  need .unsupportedSchemaVersion (version == kSupportedHandoffSchema)
  need .missingField (handoffKeys.all doc.has)
  let created ← integerField .wrongType doc (ascii "created_at_unix")
  let createdAtUnix ← created.getInt64
  let fromVersion ← stringField .wrongType doc (ascii "from_version")
  let toVersion ← stringField .wrongType doc (ascii "to_version")
  let stagedNro ← handoffPath doc (ascii "staged_nro")
  let targetNro ← handoffPath doc (ascii "target_nro")
  let backupNro ← handoffPath doc (ascii "backup_nro")
  let forwarderNro ← handoffPath doc (ascii "forwarder_nro")
  let stagedSha256 ← handoffDigest doc
  let attempts ← integerField .wrongType doc (ascii "attempts")
  let maxAttempts ← integerField .wrongType doc (ascii "max_attempts")
  let attempts ← attempts.getInt
  let maxAttempts ← maxAttempts.getInt
  need .invalidAttempts
    (0 ≤ attempts && 1 ≤ maxAttempts && attempts ≤ 1000 && maxAttempts ≤ 1000)
  return { createdAtUnix, fromVersion, toVersion, stagedNro, stagedSha256, targetNro, backupNro,
           forwarderNro, attempts, maxAttempts }

def parseHandoff (J : JsonLibrary) (json : Bytes) : Parse HandoffError Handoff :=
  match J.parse json with
  | none => .error (.rejected .notJson)
  | some (.object doc) => readHandoff doc
  | some _ => .error (.rejected .notObject)

def Handoff.members (h : Handoff) : List (Bytes × Scalar) :=
  [(ascii "attempts", .integer h.attempts.toInt64),
   (ascii "backup_nro", .string h.backupNro),
   (ascii "created_at_unix", .integer h.createdAtUnix),
   (ascii "forwarder_nro", .string h.forwarderNro),
   (ascii "from_version", .string h.fromVersion),
   (ascii "max_attempts", .integer h.maxAttempts.toInt64),
   (ascii "schema_version", .integer h.schemaVersion.toInt64),
   (ascii "staged_nro", .string h.stagedNro),
   (ascii "staged_sha256", .string (toHex h.stagedSha256)),
   (ascii "target_nro", .string h.targetNro),
   (ascii "to_version", .string h.toVersion)]

def serializeHandoff (J : JsonLibrary) (h : Handoff) : Option Bytes :=
  (J.dump h.members).map (· ++ ascii "\n")

structure FilePresence where
  handoff : Bool := false
  staged : Bool := false
  target : Bool := false
  backup : Bool := false
  deriving DecidableEq

inductive RecoveryAction where
  | nothing
  | proceedWithSwap
  | retrySwap
  | rollBack
  | restoreBackup
  | installStaged
  | unrecoverable
  deriving DecidableEq

structure RecoveryDecision where
  action : RecoveryAction := .nothing
  reason : Bytes := []
  deriving DecidableEq

def swapFailedTimes (h : Handoff) (what : String) : Bytes :=
  ascii "swap failed " ++ decimal h.attempts.toInt ++ ascii " time(s); " ++ ascii what

def decideRecovery (handoff : Option Handoff) (present : FilePresence) : RecoveryDecision :=
  match handoff, present.handoff with
  | some h, true =>
    if h.attemptsExhausted then
      if present.backup then
        ⟨.rollBack, swapFailedTimes h "restoring the previous version"⟩
      else if present.target then
        ⟨.rollBack, swapFailedTimes h "the application is intact, abandoning the update"⟩
      else if present.staged then
        ⟨.installStaged, ascii "no application and no backup; installing the staged binary"⟩
      else
        ⟨.unrecoverable, ascii "swap failed and nothing usable remains"⟩
    else if !present.target then
      if present.backup then
        ⟨.restoreBackup, ascii "the application is missing; restoring the backup"⟩
      else if present.staged then
        ⟨.installStaged, ascii "the application is missing; installing the staged binary"⟩
      else
        ⟨.unrecoverable, ascii "the application is missing and nothing is staged"⟩
    else if !present.staged then
      ⟨.unrecoverable, ascii "the staged binary named by the handoff is missing"⟩
    else if h.attempts == 0 then
      ⟨.proceedWithSwap, ascii "installing " ++ h.toVersion⟩
    else
      ⟨.retrySwap, ascii "resuming an interrupted swap (attempt " ++ decimal (h.attempts.toInt + 1) ++
        ascii " of " ++ decimal h.maxAttempts.toInt ++ ascii ")"⟩
  | _, _ =>
    if present.target then ⟨.nothing, ascii "no update in flight"⟩
    else if present.backup then
      ⟨.restoreBackup, ascii "no handoff, but a backup exists and the application is missing"⟩
    else
      ⟨.unrecoverable, ascii "the application is missing and there is nothing to restore"⟩

lemma decideRecovery_cases (h : Handoff) (present : FilePresence) (hp : present.handoff = true) :
    (decideRecovery (some h) present).action = .rollBack ∧ h.attemptsExhausted = true ∧
        (present.backup = true ∨ present.target = true) ∨
    (decideRecovery (some h) present).action = .restoreBackup ∧ h.attemptsExhausted = false ∧
        present.target = false ∧ present.backup = true ∨
    (decideRecovery (some h) present).action = .installStaged ∧
        present.target = false ∧ present.backup = false ∧ present.staged = true ∨
    (decideRecovery (some h) present).action = .unrecoverable ∧ present.staged = false ∧
        (present.target = false ∧ present.backup = false ∨
          present.target = true ∧ h.attemptsExhausted = false) ∨
    ((decideRecovery (some h) present).action = .proceedWithSwap ∨
        (decideRecovery (some h) present).action = .retrySwap) ∧
        h.attemptsExhausted = false ∧ present.target = true ∧ present.staged = true := by
  rcases present with ⟨_, staged, target, backup⟩
  obtain rfl : _ = true := hp
  cases he : h.attemptsExhausted <;> cases staged <;> cases target <;> cases backup <;>
    simp [decideRecovery, he] <;> split <;> simp

structure Handoff.Accepted (h : Handoff) : Prop where
  schema : h.schemaVersion = kSupportedHandoffSchema
  staged : isSafeAbsolutePath h.stagedNro = true
  target : isSafeAbsolutePath h.targetNro = true
  backup : isSafeAbsolutePath h.backupNro = true
  forwarder : isSafeAbsolutePath h.forwarderNro = true
  attempts : 0 ≤ h.attempts ∧ h.attempts ≤ 1000
  maxAttempts : 1 ≤ h.maxAttempts ∧ h.maxAttempts ≤ 1000

structure Handoff.Utf8 (h : Handoff) : Prop where
  fromVersion : validUtf8 h.fromVersion = true
  toVersion : validUtf8 h.toVersion = true
  staged : validUtf8 h.stagedNro = true
  target : validUtf8 h.targetNro = true
  backup : validUtf8 h.backupNro = true
  forwarder : validUtf8 h.forwarderNro = true

lemma Handoff.attempts_lt {h : Handoff} (hb : h.attemptsExhausted = false) :
    h.attempts.toInt < h.maxAttempts.toInt := by
  simpa [Handoff.attemptsExhausted, Int32.le_iff_toInt_le] using hb

lemma Handoff.Accepted.attempts_succ {h : Handoff} (ha : h.Accepted) (hb : h.attemptsExhausted = false) :
    (h.attempts + 1).toInt = h.attempts.toInt + 1 := by
  have hlt := Handoff.attempts_lt hb
  have h₀ : 0 ≤ h.attempts.toInt := by simpa [Int32.le_iff_toInt_le] using ha.attempts.1
  have h₁ : h.maxAttempts.toInt ≤ 1000 := by simpa [Int32.le_iff_toInt_le] using ha.maxAttempts.2
  rw [Int32.toInt_add, Int32.toInt_one]
  exact Int.bmod_eq_of_le (by omega) (by omega)

lemma Handoff.Accepted.attempt {h : Handoff} (ha : h.Accepted) (hb : h.attemptsExhausted = false) :
    ({ h with attempts := h.attempts + 1 } : Handoff).Accepted := by
  have hlt := Handoff.attempts_lt hb
  have h₀ : 0 ≤ h.attempts.toInt := by simpa [Int32.le_iff_toInt_le] using ha.attempts.1
  have h₁ : h.maxAttempts.toInt ≤ 1000 := by simpa [Int32.le_iff_toInt_le] using ha.maxAttempts.2
  refine ⟨ha.schema, ha.staged, ha.target, ha.backup, ha.forwarder, ?_, ha.maxAttempts⟩
  simp only [Int32.le_iff_toInt_le, ha.attempts_succ hb]
  exact ⟨by simpa using (by omega : 0 ≤ h.attempts.toInt + 1),
    by simpa using (by omega : h.attempts.toInt + 1 ≤ 1000)⟩

lemma Handoff.Accepted.fresh {h : Handoff} (ha : h.Accepted) (hzero : h.attempts = 0) :
    h.attemptsExhausted = false := by
  have hmax : 1 ≤ h.maxAttempts.toInt := by simpa [Int32.le_iff_toInt_le] using ha.maxAttempts.1
  simp only [Handoff.attemptsExhausted, hzero, decide_eq_false_iff_not, Int32.le_iff_toInt_le,
    Int32.toInt_zero]
  omega

lemma handoffDigest_eq (doc : Members) {digest : Digest}
    (h : doc.lookup (ascii "staged_sha256") = some (.string (toHex digest))) :
    handoffDigest doc = .ok digest := by
  simp [handoffDigest, stringField_eq _ _ _ h, fromHex_toHex]

lemma parseHandoff_ok {J : JsonLibrary} {json : Bytes} {h : Handoff}
    (hp : parseHandoff J json = .ok h) :
    ∃ doc, J.parse json = some (.object doc) ∧ readHandoff doc = .ok h := by
  unfold parseHandoff at hp
  split at hp
  · cases hp
  · exact ⟨_, by assumption, hp⟩
  · cases hp

lemma parseHandoff_accepted {J : JsonLibrary} {json : Bytes} {h : Handoff}
    (hp : parseHandoff J json = .ok h) : h.Accepted ∧ h.Utf8 := by
  obtain ⟨doc, hdoc, hr⟩ := parseHandoff_ok hp
  have utf8 : ∀ {key s}, doc.lookup key = some (.string s) → validUtf8 s = true :=
    fun hs => J.parse_utf8 json doc _ _ hdoc hs
  simp only [readHandoff, Parse.bind_eq_ok, need_eq_ok, Parse.pure_eq, Except.ok.injEq,
    Bool.and_eq_true, decide_eq_true_eq] at hr
  obtain ⟨_, _, _, _, _, _, _, _, _, _, _, _, _, _, v, hv, w, hw, s, hs, t, ht, b, hb, f, hf, d, hd,
    _, _, _, _, a, ha, m, hm, _, ⟨⟨⟨ha₀, hm₁⟩, ha₁⟩, hm₂⟩, rfl⟩ := hr
  exact ⟨⟨rfl, (pathField_ok _ _ hs).2, (pathField_ok _ _ ht).2, (pathField_ok _ _ hb).2,
    (pathField_ok _ _ hf).2, ⟨ha₀, ha₁⟩, ⟨hm₁, hm₂⟩⟩,
    ⟨utf8 (stringField_ok _ _ _ hv), utf8 (stringField_ok _ _ _ hw), utf8 (pathField_ok _ _ hs).1,
      utf8 (pathField_ok _ _ ht).1, utf8 (pathField_ok _ _ hb).1, utf8 (pathField_ok _ _ hf).1⟩⟩

def Handoff.document (h : Handoff) : Members := h.members.map (fun m => (m.1, m.2.reread))

lemma readHandoff_document {h : Handoff} (ha : h.Accepted) : readHandoff h.document = .ok h := by
  have hschema : h.document.lookup (ascii "schema_version") =
      some (Scalar.integer h.schemaVersion.toInt64).reread := rfl
  have hcreated : h.document.lookup (ascii "created_at_unix") =
      some (Scalar.integer h.createdAtUnix).reread := rfl
  have hattempts : h.document.lookup (ascii "attempts") =
      some (Scalar.integer h.attempts.toInt64).reread := rfl
  have hmax : h.document.lookup (ascii "max_attempts") =
      some (Scalar.integer h.maxAttempts.toInt64).reread := rfl
  have hkeys : handoffKeys.all h.document.has = true := rfl
  have hrange : (decide (0 ≤ h.attempts) && decide (1 ≤ h.maxAttempts) && decide (h.attempts ≤ 1000) &&
      decide (h.maxAttempts ≤ 1000)) = true := by
    simp [ha.attempts, ha.maxAttempts]
  have hhas : h.document.has (ascii "schema_version") = true := rfl
  simp only [readHandoff, handoffPath, hhas, hkeys, need_true, Parse.ok_bind, reread_integer, getInt_reread,
    getInt64_reread, ha.schema, beq_self_eq_true, integerField_eq _ _ _ hschema,
    integerField_eq _ _ _ hcreated, integerField_eq _ _ _ hattempts, integerField_eq _ _ _ hmax,
    stringField_eq _ h.document (ascii "from_version") rfl,
    stringField_eq _ h.document (ascii "to_version") rfl,
    pathField_eq h.document (ascii "staged_nro") rfl ha.staged,
    pathField_eq h.document (ascii "target_nro") rfl ha.target,
    pathField_eq h.document (ascii "backup_nro") rfl ha.backup,
    pathField_eq h.document (ascii "forwarder_nro") rfl ha.forwarder,
    handoffDigest_eq h.document rfl, hrange, Parse.pure_eq]
  rw [← ha.schema]

lemma accepted_of_readHandoff {h h' : Handoff} (hschema : h.schemaVersion = kSupportedHandoffSchema)
    (hr : readHandoff h.document = .ok h') : h.Accepted := by
  have hpath : ∀ {key path value}, handoffPath h.document key = .ok path →
      h.document.lookup key = some (.string value) → isSafeAbsolutePath value = true := by
    intro key path value hp hl
    obtain ⟨hlook, hsafe⟩ := pathField_ok _ _ hp
    obtain rfl : path = value := by simpa [hl] using hlook.symm
    exact hsafe
  simp only [readHandoff, Parse.bind_eq_ok, need_eq_ok, Parse.pure_eq, Except.ok.injEq,
    Bool.and_eq_true, decide_eq_true_eq] at hr
  obtain ⟨_, _, _, _, _, _, _, _, _, _, _, _, _, _, v, hv, w, hw, s, hs, t, ht, b, hb, f, hf, d, hd,
    ja, hja, jm, hjm, a, ha, m, hm, _, ⟨⟨⟨ha₀, hm₁⟩, ha₁⟩, hm₂⟩, rfl⟩ := hr
  have hattempts : a = h.attempts := by
    rw [integerField_eq _ h.document (ascii "attempts") rfl (reread_integer _), Except.ok.injEq] at hja
    rw [← hja, getInt_reread, Except.ok.injEq] at ha
    exact ha.symm
  have hmax : m = h.maxAttempts := by
    rw [integerField_eq _ h.document (ascii "max_attempts") rfl (reread_integer _), Except.ok.injEq] at hjm
    rw [← hjm, getInt_reread, Except.ok.injEq] at hm
    exact hm.symm
  subst hattempts hmax
  exact ⟨hschema, hpath hs rfl, hpath ht rfl, hpath hb rfl, hpath hf rfl, ⟨ha₀, ha₁⟩, ⟨hm₁, hm₂⟩⟩

lemma Handoff.members_keys (h : Handoff) : (h.members.map Prod.fst).Pairwise (· < ·) ∧
    ∀ key ∈ h.members.map Prod.fst, ∀ b ∈ key, b < 0x80 := by
  have hkeys : h.members.map Prod.fst = ({} : Handoff).members.map Prod.fst := rfl
  rw [hkeys]
  exact ⟨by decide, ascii_of_all (by decide)⟩

lemma parseHandoff_of_serializeHandoff {J : JsonLibrary} {h : Handoff} {text : Bytes}
    (hs : serializeHandoff J h = some text) : parseHandoff J text = readHandoff h.document := by
  obtain ⟨body, hbody, rfl⟩ := Option.map_eq_some_iff.mp hs
  have hparse := J.parse_dump h.members body (ascii "\n") h.members_keys.1 hbody (by decide)
  rw [parseHandoff, hparse]
  rfl

lemma parseHandoff_serializeHandoff {J : JsonLibrary} {h : Handoff} {text : Bytes} (ha : h.Accepted)
    (hs : serializeHandoff J h = some text) : parseHandoff J text = .ok h :=
  (parseHandoff_of_serializeHandoff hs).trans (readHandoff_document ha)

lemma parseHandoff_readBack {J : JsonLibrary} {h h' : Handoff} {text : Bytes}
    (hschema : h.schemaVersion = kSupportedHandoffSchema) (hs : serializeHandoff J h = some text)
    (hp : parseHandoff J text = .ok h') : h' = h := by
  have ha : h.Accepted := accepted_of_readHandoff hschema ((parseHandoff_of_serializeHandoff hs).symm.trans hp)
  exact Except.ok.inj (hp.symm.trans (parseHandoff_serializeHandoff ha hs))

lemma serializeHandoff_isSome {J : JsonLibrary} {h : Handoff} (hu : h.Utf8) :
    ∃ text, serializeHandoff J h = some text := by
  have hdump : (J.dump h.members).isSome := by
    rw [J.dump_isSome]
    intro m hm
    refine ⟨validUtf8_of_ascii (h.members_keys.2 _ (List.mem_map_of_mem hm)), ?_⟩
    revert m
    simp [Handoff.members, Scalar.Utf8, hu.fromVersion, hu.toVersion, hu.staged, hu.target, hu.backup,
      hu.forwarder, validUtf8_of_ascii (toHex_ascii _)]
  obtain ⟨body, hbody⟩ := Option.isSome_iff_exists.mp hdump
  exact ⟨_, by rw [serializeHandoff, hbody]; rfl⟩

end NsxManager.Core
