import NsxManager.Core.Json

/-! How long to leave a failing endpoint alone, and the file that remembers it between launches. -/

namespace NsxManager.Core

structure BackoffPolicy where
  baseSeconds : Int64 := 60
  capSeconds : Int64 := 6 * 60 * 60
  jitterPercent : Int32 := 20
  deriving DecidableEq

structure BackoffState where
  consecutiveFailures : Int32 := 0
  nextAttemptUnix : Int64 := 0
  lastFailureUnix : Int64 := 0
  lastSuccessUnix : Int64 := 0
  deriving DecidableEq

/-- SplitMix64 -/
def mix (seed : UInt64) : UInt64 :=
  let z := seed + 0x9E3779B97F4A7C15
  let z := (z ^^^ (z >>> 30)) * 0xBF58476D1CE4E5B9
  let z := (z ^^^ (z >>> 27)) * 0x94D049BB133111EB
  z ^^^ (z >>> 31)

/-- Doubling stops at the cap, so a long backoff never wraps round to a short one. -/
def growCapped (value : Int64) : ℕ → Int64 → Int64
  | 0, cap => if cap < value then cap else value
  | steps + 1, cap => if cap - value ≤ value then cap else growCapped (value * 2) steps cap

def clamp (value low high : Int32) : Int32 :=
  if value < low then low else if high < value then high else value

def BackoffPolicy.base (policy : BackoffPolicy) : Int64 :=
  if 0 < policy.baseSeconds then policy.baseSeconds else 1

def BackoffPolicy.cap (policy : BackoffPolicy) : Int64 :=
  if policy.base < policy.capSeconds then policy.capSeconds else policy.base

def jitter (plain span cap : Int64) (jitterSeed : UInt64) : Int64 :=
  let offset := (mix jitterSeed % (2 * span).toUInt64).toInt64 - span
  let jittered := if plain + offset < 1 then 1 else plain + offset
  if cap < jittered then cap else jittered

def backoffDelaySeconds (consecutiveFailures : Int32) (policy : BackoffPolicy) (jitterSeed : UInt64) : Int64 :=
  if consecutiveFailures ≤ 0 then 0
  else
    let steps := if 40 < consecutiveFailures then 40 else consecutiveFailures - 1
    let plain := growCapped policy.base steps.toInt.toNat policy.cap
    let spread := clamp policy.jitterPercent 0 100
    let span := plain * spread.toInt64 / 100
    if spread = 0 ∨ span ≤ 0 then plain else jitter plain span policy.cap jitterSeed

def afterFailure (state : BackoffState) (nowUnix : Int64) (policy : BackoffPolicy) (jitterSeed : UInt64) :
    BackoffState :=
  let failures :=
    if state.consecutiveFailures < 1000000 then state.consecutiveFailures + 1 else state.consecutiveFailures
  { state with
    consecutiveFailures := failures
    lastFailureUnix := nowUnix
    nextAttemptUnix := nowUnix + backoffDelaySeconds failures policy jitterSeed }

def afterSuccess (state : BackoffState) (nowUnix : Int64) : BackoffState :=
  { state with consecutiveFailures := 0, nextAttemptUnix := 0, lastSuccessUnix := nowUnix }

/-- A deadline further away than the longest delay is one this program did not set. -/
def secondsUntilNextAttempt (state : BackoffState) (nowUnix : Int64) (policy : BackoffPolicy) : Int64 :=
  if state.nextAttemptUnix ≤ nowUnix then 0
  else if (if 0 < policy.capSeconds then policy.capSeconds else 1) < state.nextAttemptUnix - nowUnix then 0
  else state.nextAttemptUnix - nowUnix

def BackoffState.members (state : BackoffState) : List (Bytes × Scalar) :=
  [(ascii "consecutive_failures", .integer state.consecutiveFailures.toInt64),
   (ascii "last_failure_unix", .integer state.lastFailureUnix),
   (ascii "last_success_unix", .integer state.lastSuccessUnix),
   (ascii "next_attempt_unix", .integer state.nextAttemptUnix),
   (ascii "schema_version", .integer 1)]

def serializeBackoff (J : JsonLibrary) (state : BackoffState) : Option Bytes :=
  (J.dump state.members).map (· ++ ascii "\n")

def backoffField (doc : Members) (key : Bytes) : Option Json :=
  (doc.lookup key).filter Json.isNumberInteger

def backoffInt (doc : Members) (key : Bytes) : Parse Unit Int32 :=
  match backoffField doc key with
  | some value => value.getInt
  | none => .ok 0

def backoffInt64 (doc : Members) (key : Bytes) : Parse Unit Int64 :=
  match backoffField doc key with
  | some value => value.getInt64
  | none => .ok 0

def readBackoff (doc : Members) : Parse Unit BackoffState := do
  let failures ← backoffInt doc (ascii "consecutive_failures")
  let nextAttemptUnix ← backoffInt64 doc (ascii "next_attempt_unix")
  let lastFailureUnix ← backoffInt64 doc (ascii "last_failure_unix")
  let lastSuccessUnix ← backoffInt64 doc (ascii "last_success_unix")
  return { consecutiveFailures := if failures < 0 then 0 else failures,
           nextAttemptUnix, lastFailureUnix, lastSuccessUnix }

/-- The one rejection there is carries no reason. -/
def parseBackoff (J : JsonLibrary) (json : Bytes) : Parse Unit BackoffState :=
  match J.parse json with
  | some (.object doc) => readBackoff doc
  | _ => .error (.rejected ())

lemma growCapped_bounds {value cap : Int64} (steps : ℕ) (hvalue : 1 ≤ value) (hcap : value ≤ cap)
    (hlarge : cap ≤ 0x3fffffffffffffff) : 1 ≤ growCapped value steps cap ∧ growCapped value steps cap ≤ cap := by
  induction steps generalizing value with
  | zero =>
    unfold growCapped
    grind
  | succ steps ih =>
    unfold growCapped
    split
    · grind
    · next hroom => exact ih (by grind) (by grind)

lemma jitter_bounds {plain span cap : Int64} (seed : UInt64) (hcap : 1 ≤ cap) :
    1 ≤ jitter plain span cap seed ∧ jitter plain span cap seed ≤ cap := by
  unfold jitter
  dsimp only
  split <;> split <;> grind

lemma BackoffPolicy.base_pos (policy : BackoffPolicy) : 1 ≤ policy.base := by
  unfold BackoffPolicy.base
  grind

lemma BackoffPolicy.base_le_cap (policy : BackoffPolicy) : policy.base ≤ policy.cap := by
  unfold BackoffPolicy.cap
  grind

lemma backoffDelaySeconds_bounds {policy : BackoffPolicy} (hlarge : policy.cap ≤ 0x3fffffffffffffff)
    {failures : Int32} (hfailures : 0 < failures) (seed : UInt64) :
    1 ≤ backoffDelaySeconds failures policy seed ∧ backoffDelaySeconds failures policy seed ≤ policy.cap := by
  have hsome : ¬failures ≤ 0 := by grind
  have hbase := policy.base_pos
  have hcap := policy.base_le_cap
  rw [backoffDelaySeconds, if_neg hsome]
  dsimp only
  generalize (if 40 < failures then 40 else failures - 1).toInt.toNat = steps
  have hplain := growCapped_bounds steps hbase hcap hlarge
  generalize growCapped policy.base steps policy.cap = plain at hplain ⊢
  split
  · exact hplain
  · exact jitter_bounds seed (Int64.le_trans hbase hcap)

lemma afterFailure_deadline {policy : BackoffPolicy} (hlarge : policy.cap ≤ 0x3fffffffffffffff)
    {state : BackoffState} {now : Int64} (hstate : 0 ≤ state.consecutiveFailures) (hnow : 0 ≤ now)
    (hsane : now < 0x4000000000000000) (seed : UInt64) :
    now < (afterFailure state now policy seed).nextAttemptUnix ∧
      (afterFailure state now policy seed).nextAttemptUnix ≤ now + policy.cap := by
  have hfailures : 0 < (if state.consecutiveFailures < 1000000 then state.consecutiveFailures + 1
      else state.consecutiveFailures) := by
    split <;> grind
  have hdelay := backoffDelaySeconds_bounds hlarge hfailures seed
  unfold afterFailure
  dsimp only
  generalize backoffDelaySeconds _ policy seed = delay at hdelay ⊢
  generalize policy.cap = cap at *
  grind

lemma secondsUntilNextAttempt_pos {policy : BackoffPolicy} {state : BackoffState} {now : Int64} (hnow : 0 ≤ now)
    (hbefore : now < state.nextAttemptUnix) (hsane : state.nextAttemptUnix - now ≤ policy.capSeconds) :
    0 < secondsUntilNextAttempt state now policy := by
  unfold secondsUntilNextAttempt
  generalize state.nextAttemptUnix = next at *
  generalize policy.capSeconds = cap at *
  have hahead : 0 < next - now := by grind
  rw [if_neg (by grind), if_neg (by grind)]
  exact hahead

def BackoffState.document (state : BackoffState) : Members := state.members.map (fun p => (p.1, p.2.reread))

lemma BackoffState.members_keys (state : BackoffState) : (state.members.map Prod.fst).Pairwise (· < ·) := by
  have hkeys : state.members.map Prod.fst = ({} : BackoffState).members.map Prod.fst := rfl
  rw [hkeys]
  decide

lemma backoffInt_reread {doc : Members} {key : Bytes} {n : Int32}
    (h : doc.lookup key = some (Scalar.integer n.toInt64).reread) : backoffInt doc key = .ok n := by
  rw [backoffInt, backoffField, h, Option.filter_some, if_pos (reread_integer _)]
  exact getInt_reread n

lemma backoffInt64_reread {doc : Members} {key : Bytes} {n : Int64}
    (h : doc.lookup key = some (Scalar.integer n).reread) : backoffInt64 doc key = .ok n := by
  rw [backoffInt64, backoffField, h, Option.filter_some, if_pos (reread_integer _)]
  exact getInt64_reread n

lemma parseBackoff_serializeBackoff {J : JsonLibrary} {state : BackoffState} {text : Bytes}
    (hstate : 0 ≤ state.consecutiveFailures) (hs : serializeBackoff J state = some text) :
    parseBackoff J text = .ok state := by
  obtain ⟨body, hbody, rfl⟩ := Option.map_eq_some_iff.mp hs
  have hparse := J.parse_dump state.members body (ascii "\n") state.members_keys hbody (by decide)
  have hread : readBackoff state.document = .ok state := by
    have hfailures : state.document.lookup (ascii "consecutive_failures") =
        some (Scalar.integer state.consecutiveFailures.toInt64).reread := rfl
    have hnext : state.document.lookup (ascii "next_attempt_unix") =
        some (Scalar.integer state.nextAttemptUnix).reread := rfl
    have hfailure : state.document.lookup (ascii "last_failure_unix") =
        some (Scalar.integer state.lastFailureUnix).reread := rfl
    have hsuccess : state.document.lookup (ascii "last_success_unix") =
        some (Scalar.integer state.lastSuccessUnix).reread := rfl
    simp only [readBackoff, backoffInt_reread hfailures, backoffInt64_reread hnext, backoffInt64_reread hfailure,
      backoffInt64_reread hsuccess, Parse.ok_bind, Parse.pure_eq]
    have hkept : ¬state.consecutiveFailures < 0 := by grind
    rw [if_neg hkept]
  rw [parseBackoff, hparse]
  exact hread

lemma parseBackoff_nonneg {J : JsonLibrary} {text : Bytes} {state : BackoffState}
    (h : parseBackoff J text = .ok state) : 0 ≤ state.consecutiveFailures := by
  unfold parseBackoff at h
  split at h
  · simp only [readBackoff, Parse.bind_eq_ok, Parse.pure_eq, Except.ok.injEq] at h
    obtain ⟨failures, _, _, _, _, _, _, _, rfl⟩ := h
    dsimp only
    split
    · decide
    · grind
  · cases h

lemma BackoffState.dump_isSome (J : JsonLibrary) (state : BackoffState) : (J.dump state.members).isSome := by
  rw [J.dump_isSome]
  have hkeys : ∀ key ∈ state.members.map Prod.fst, validUtf8 key = true := by
    have hsame : state.members.map Prod.fst = ({} : BackoffState).members.map Prod.fst := rfl
    rw [hsame]
    decide +kernel
  intro m hm
  refine ⟨hkeys m.1 (List.mem_map_of_mem hm), ?_⟩
  simp only [BackoffState.members, List.mem_cons, List.not_mem_nil, or_false] at hm
  rcases hm with rfl | rfl | rfl | rfl | rfl <;> trivial

lemma serializeBackoff_isSome {J : JsonLibrary} (hJ : J.Concise) (state : BackoffState) :
    ∃ text, serializeBackoff J state = some text ∧ text ≠ [] ∧ text.length ≤ 1024 := by
  obtain ⟨body, hbody⟩ := Option.isSome_iff_exists.mp (state.dump_isSome J)
  refine ⟨body ++ ascii "\n", by rw [serializeBackoff, hbody]; rfl, by simp [ascii], ?_⟩
  have hlength := hJ.length_dump _ _ hbody
  have hsame : state.members.map (fun m => 6 * m.1.length + 8 + m.2.width) =
      ({} : BackoffState).members.map (fun m => 6 * m.1.length + 8 + m.2.width) := rfl
  have hwidth : (({} : BackoffState).members.map (fun m => 6 * m.1.length + 8 + m.2.width)).sum ≤ 1000 := by
    decide +kernel
  rw [hsame] at hlength
  rw [List.length_append, show (ascii "\n").length = 1 from rfl]
  omega

end NsxManager.Core
