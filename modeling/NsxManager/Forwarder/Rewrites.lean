import NsxManager.Core.JsonCodec
import NsxManager.Forwarder.Steps
import NsxManager.Lib.Log

/-! The handoff that a run of the forwarder writes in the place of the one it read. -/

namespace NsxManager.Forwarder

open NsxManager.Core Lib Stdio

def counted (h : Handoff) : Handoff := { h with attempts := h.attempts + 1 }

section Range

variable {h : Handoff}

lemma accepted_counted_iff (ha : h.Accepted) : (counted h).Accepted ↔ h.attempts < 1000 := by
  have h₀ : 0 ≤ h.attempts.toInt := by simpa [Int32.le_iff_toInt_le] using ha.attempts.1
  have h₁ : h.attempts.toInt ≤ 1000 := by simpa [Int32.le_iff_toInt_le] using ha.attempts.2
  have hsucc : (h.attempts + 1).toInt = h.attempts.toInt + 1 := by
    rw [Int32.toInt_add, Int32.toInt_one]
    exact Int.bmod_eq_of_le (by omega) (by omega)
  have hlt : h.attempts < 1000 ↔ h.attempts.toInt < 1000 := by simp [Int32.lt_iff_toInt_lt]
  have hrange : (0 ≤ (counted h).attempts ∧ (counted h).attempts ≤ 1000) ↔ h.attempts.toInt < 1000 := by
    simp only [counted, Int32.le_iff_toInt_le, hsucc]
    constructor
    · intro hle
      have := hle.2
      simp at this
      omega
    · intro hle
      exact ⟨by simpa using (by omega : 0 ≤ h.attempts.toInt + 1), by simpa using (by omega : h.attempts.toInt + 1 ≤ 1000)⟩
  rw [hlt, ← hrange]
  exact ⟨fun hc => hc.attempts, fun hc =>
    ⟨ha.schema, ha.staged, ha.target, ha.backup, ha.forwarder, hc, ha.maxAttempts⟩⟩

lemma parse_counted_iff {J : JsonLibrary} {text : Bytes} (ha : h.Accepted)
    (hs : serializeHandoff J (counted h) = some text) :
    parseHandoff J text = .ok (counted h) ↔ h.attempts < 1000 := by
  rw [← accepted_counted_iff ha]
  constructor
  · intro hp
    exact accepted_of_readHandoff ha.schema ((parseHandoff_of_serializeHandoff hs).symm.trans hp)
  · intro hc
    exact parseHandoff_serializeHandoff hc hs

end Range

section Rewriting

variable {J : JsonLibrary} {h : Handoff} {handoffPath : Bytes}

def Rewrites (J : JsonLibrary) (h : Handoff) (handoffPath : Bytes) (e : FileOp) : Prop :=
  ∀ data, e = .append (handoffPath ++ ascii ".tmp") data → serializeHandoff J (counted h) = some data

lemma permits_rewrites (h' : Handoff) : Permits (Rewrites J h handoffPath) h' :=
  ⟨fun _ => nofun, fun _ => nofun, fun _ => nofun, nofun⟩

lemma incomingNro_ne_tmp (h : Handoff) (handoffPath : Bytes) : incomingNro h ≠ handoffPath ++ ascii ".tmp" := by
  intro heq
  exact absurd (List.append_inj_right' heq (by decide)) (by decide)

lemma asks_bringIn_rewrites (h' : Handoff) : (bringIn h' handoffPath).Asks (Rewrites J h handoffPath) := by
  refine (permits_rewrites h').asks_bringIn nofun nofun ((asks_copyFile (incomingNro_ne_tmp h' handoffPath)).mono ?_)
  rintro e hspares data rfl
  exact absurd rfl hspares

lemma asks_writeFileAtomic_rewrites {text : Bytes} (hs : serializeHandoff J (counted h) = some text) :
    (writeFileAtomic handoffPath text).Asks (Rewrites J h handoffPath) := by
  refine asks_writeFileAtomic_of nofun (fun data heq => ?_) nofun nofun nofun nofun
  obtain ⟨_, rfl⟩ := FileOp.append.inj heq
  exact hs

lemma asks_swap_rewrites : (swap J h handoffPath).Asks (Rewrites J h handoffPath) := by
  unfold swap
  dsimp only
  split
  · exact ⟨nofun, nofun⟩
  · next text hs =>
    refine (asks_writeFileAtomic_rewrites hs).bind (fun recorded => ?_)
    cases recorded with
    | false => trivial
    | true => exact asks_bringIn_rewrites _

lemma asks_act_rewrites (decision : RecoveryDecision) :
    (act J handoffPath (some h) decision).Asks (Rewrites J h handoffPath) := by
  unfold act
  cases decision.action with
  | nothing | unrecoverable => trivial
  | rollBack => exact (permits_rewrites h).asks_rollBack _
  | restoreBackup => exact (permits_rewrites h).asks_restoreBackup _
  | proceedWithSwap | retrySwap | installStaged => exact asks_swap_rewrites

lemma asks_act_none (decision : RecoveryDecision) :
    (act J handoffPath none decision).Asks (Rewrites J h handoffPath) := by
  unfold act
  cases decision.action with
  | nothing | unrecoverable => trivial
  | _ => exact ⟨nofun, nofun⟩

def afterReading (J : JsonLibrary) (handoffPath : Bytes) : Option Bytes → FileProgram SwapOutcome
  | none => act J handoffPath none (decideRecovery none {})
  | some text =>
    match parseHandoff J text with
    | .error (.rejected error) => return fail .unrecoverable error.describe
    | .error .fault => Stdio.abort
    | .ok h => do
      let staged ← Stdio.probe h.stagedNro
      let target ← Stdio.probe h.targetNro
      let backup ← Stdio.probe h.backupNro
      act J handoffPath (some h)
        (decideRecovery (some h) { handoff := true, staged := staged, target := target, backup := backup })

lemma runSwap_eq (J : JsonLibrary) (handoffPath : Bytes) :
    runSwap J handoffPath = Stdio.read handoffPath >>= afterReading J handoffPath := rfl

lemma asks_afterReading {text : Bytes} (hparse : parseHandoff J text = .ok h) :
    (afterReading J handoffPath (some text)).Asks (Rewrites J h handoffPath) := by
  rw [afterReading, hparse]
  exact ⟨nofun, fun _ => ⟨nofun, fun _ => ⟨nofun, fun _ => asks_act_rewrites _⟩⟩⟩

lemma rewrites_of_mem_log {c : Card} {text : Bytes} {fates : List Fate} {ev : Event FileOp FileOp.Reply Fate}
    (hdoc : c.lookup handoffPath = some text) (hparse : parseHandoff J text = .ok h)
    (hev : ev ∈ (world.exec (runSwap J handoffPath) fates c).log) : Rewrites J h handoffPath ev.asked := by
  have hnext : ∀ (fate : Fate) (raw : Option Bytes), raw = none ∨ raw = c.lookup handoffPath →
      world.traced (fun _ => True) (afterReading J handoffPath raw)
        (fun _ _ log => ∀ ev ∈ (⟨.read handoffPath, fate, raw⟩ : Event FileOp FileOp.Reply Fate) :: log,
          Rewrites J h handoffPath ev.asked) c := by
    intro fate raw hraw
    have hasks : (afterReading J handoffPath raw).Asks (Rewrites J h handoffPath) := by
      rcases hraw with rfl | rfl
      · rw [afterReading]
        exact asks_act_none _
      · rw [hdoc]
        exact asks_afterReading hparse
    exact World.traced_mono (World.traced_of_asks hasks) (fun _ _ log hlog => List.forall_mem_cons.mpr ⟨nofun, hlog⟩)
  have hrun : world.traced (fun _ => True) (runSwap J handoffPath)
      (fun _ _ log => ∀ ev ∈ log, Rewrites J h handoffPath ev.asked) c := by
    rw [runSwap_eq]
    refine World.traced_call nofun (fun fate => ?_)
    cases fate with
    | torn n => exact nofun
    | fails n => exact fun _ => hnext _ none (.inl rfl)
    | ok | corrupt bytes => exact fun _ => hnext _ _ (.inr rfl)
  exact hrun fates (fun _ _ => trivial) ev hev

end Rewriting

theorem rewritten_handoff_is_accepted_iff (J : JsonLibrary) (handoffPath text data : Bytes) (h : Handoff) (c : Card)
    (fates : List Fate) (hdoc : c.lookup handoffPath = some text) (hparse : parseHandoff J text = .ok h)
    (hrewritten : ∃ ev ∈ (world.exec (runSwap J handoffPath) fates c).log,
      ev.asked = .append (handoffPath ++ ascii ".tmp") data) :
    parseHandoff J data = .ok { h with attempts := h.attempts + 1 } ↔ h.attempts < 1000 := by
  obtain ⟨ev, hev, hasked⟩ := hrewritten
  exact parse_counted_iff (parseHandoff_accepted hparse).1 (rewrites_of_mem_log hdoc hparse hev data hasked)

namespace Sample

def tried (attempts : Int32) : Handoff :=
  { stagedNro := ascii "/s", targetNro := ascii "/t", backupNro := ascii "/b", forwarderNro := ascii "/f",
    attempts := attempts }

def triedText (attempts : Int32) : Bytes := (serializeHandoff JsonCodec.library (tried attempts)).getD []

def triedCard (attempts : Int32) : Card :=
  AList.insert (ascii "/s") [] (AList.insert (ascii "/h") (triedText attempts) ∅)

def records (attempts : Int32) : List Bytes :=
  (world.exec (runSwap JsonCodec.library (ascii "/h")) (List.replicate 30 .ok) (triedCard attempts)).log.filterMap
    (fun ev => match ev.asked with
      | .append path data => if path = ascii "/h.tmp" then some data else none
      | _ => none)

end Sample

lemma Sample.recorded {attempts : Int32} {data : Bytes} (h : data ∈ records attempts) :
    ∃ ev ∈ (world.exec (runSwap JsonCodec.library (ascii "/h")) (List.replicate 30 .ok) (triedCard attempts)).log,
      ev.asked = .append (ascii "/h" ++ ascii ".tmp") data := by
  obtain ⟨ev, hev, hdata⟩ := List.mem_filterMap.mp h
  refine ⟨ev, hev, ?_⟩
  split at hdata
  · next path bytes hasked =>
    split at hdata
    · next hpath =>
      obtain rfl := Option.some.inj hdata
      rw [hasked, hpath]
      rfl
    · cases hdata
  · cases hdata

theorem a_counted_attempt_is_accepted :
    parseHandoff JsonCodec.library (Sample.triedText 1) = .ok (Sample.tried 1) := by
  have hrun : (Sample.triedCard 0).lookup (ascii "/h") = some (Sample.triedText 0) ∧
      parseHandoff JsonCodec.library (Sample.triedText 0) = .ok (Sample.tried 0) ∧
      Sample.triedText 1 ∈ Sample.records 0 := by
    decide +kernel
  exact (rewritten_handoff_is_accepted_iff JsonCodec.library (ascii "/h") _ _ _ _ _ hrun.1 hrun.2.1
    (Sample.recorded hrun.2.2)).mpr (by decide)

theorem a_counter_runs_out_of_range :
    parseHandoff JsonCodec.library (Sample.triedText 1000) = .ok (Sample.tried 1000) ∧
      (Sample.triedCard 1000).lookup (ascii "/h") = some (Sample.triedText 1000) ∧
      Sample.records 1000 = [Sample.triedText 1001] ∧
      parseHandoff JsonCodec.library (Sample.triedText 1001) = .error (.rejected .invalidAttempts) := by
  decide +kernel

end NsxManager.Forwarder
