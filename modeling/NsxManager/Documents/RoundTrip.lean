import NsxManager.Core.Backoff
import NsxManager.Core.Handoff
import NsxManager.Core.JsonCodec
import NsxManager.Core.MergeMarker

/-! The records a later launch acts on, written and read again. -/

namespace NsxManager.Documents

open NsxManager.Core

def RoundTrips {ε α : Type} (serialize : α → Option Bytes) (parse : Bytes → Parse ε α) (record : α) : Prop :=
  ∃ text, serialize record = some text ∧ parse text = .ok record

section MergeMarker

variable {J : JsonLibrary} {m : MergeMarker}

structure MergeMarkerUtf8 (m : MergeMarker) : Prop where
  itemName : validUtf8 m.itemName = true
  staging : validUtf8 m.stagingDir = true
  destination : validUtf8 m.destinationRoot = true
  backup : validUtf8 m.backupDir = true

lemma isIdCharacter_ascii {c : UInt8} (h : isIdCharacter c = true) : c < 0x80 := by
  simp only [isIdCharacter, Bool.or_eq_true, Bool.and_eq_true, decide_eq_true_eq, beq_iff_eq] at h
  rcases h with (((⟨_, h⟩ | ⟨_, h⟩) | rfl) | rfl) | rfl
  · exact UInt8.lt_of_le_of_lt h (by decide)
  · exact UInt8.lt_of_le_of_lt h (by decide)
  · decide
  · decide
  · decide

lemma isValidId_utf8 {id : Bytes} (h : isValidId id = true) : validUtf8 id = true := by
  simp only [isValidId, Bool.and_eq_true, List.all_eq_true] at h
  exact validUtf8_of_ascii (fun c hc => isIdCharacter_ascii (h.1.2 c hc))

lemma serializeMergeMarker_isSome (ha : m.Accepted) (hu : MergeMarkerUtf8 m) :
    ∃ text, serializeMergeMarker J m = some text := by
  have hdump : (J.dump m.members).isSome := by
    rw [J.dump_isSome]
    intro p hp
    refine ⟨validUtf8_of_ascii (m.members_keys.2 _ (List.mem_map_of_mem hp)), ?_⟩
    revert p
    simp [MergeMarker.members, Scalar.Utf8, isValidId_utf8 ha.itemId, hu.itemName, hu.staging, hu.destination,
      hu.backup]
  obtain ⟨body, hbody⟩ := Option.isSome_iff_exists.mp hdump
  exact ⟨_, by rw [serializeMergeMarker, hbody]; rfl⟩

lemma mergeMarker_roundTrips (ha : m.Accepted) (hu : MergeMarkerUtf8 m) :
    RoundTrips (serializeMergeMarker J) (parseMergeMarker J) m := by
  obtain ⟨text, htext⟩ := serializeMergeMarker_isSome ha hu
  exact ⟨text, htext, (parseMergeMarker_serializeMergeMarker htext).trans (readMergeMarker_document ha)⟩

lemma parseMergeMarker_utf8 {json : Bytes} (hp : parseMergeMarker J json = .ok m) : MergeMarkerUtf8 m := by
  unfold parseMergeMarker at hp
  split at hp
  · cases hp
  · next doc hdoc =>
    have utf8 : ∀ {key s}, doc.lookup key = some (.string s) → validUtf8 s = true :=
      fun hs => J.parse_utf8 json doc _ _ hdoc hs
    simp only [readMergeMarker, Parse.bind_eq_ok, need_eq_ok, Parse.pure_eq, Except.ok.injEq] at hp
    obtain ⟨_, _, _, _, _, _, _, _, _, _, _, _, _, _, _, _, _, _, name, hname, s, hs, d, hd, b, hb, rfl⟩ := hp
    refine ⟨?_, utf8 (pathField_ok _ _ hs).1, utf8 (pathField_ok _ _ hd).1, utf8 (pathField_ok _ _ hb).1⟩
    unfold markerName at hname
    split at hname
    · exact utf8 (stringField_ok _ _ _ hname)
    · cases hname
      rfl
  · cases hp

end MergeMarker

section Handoff

variable {J : JsonLibrary} {h : Handoff}

lemma handoff_roundTrips (ha : h.Accepted) (hu : h.Utf8) : RoundTrips (serializeHandoff J) (parseHandoff J) h := by
  obtain ⟨text, htext⟩ := serializeHandoff_isSome (J := J) hu
  exact ⟨text, htext, parseHandoff_serializeHandoff ha htext⟩

end Handoff

lemma backoff_roundTrips {J : JsonLibrary} {state : BackoffState} (h : 0 ≤ state.consecutiveFailures) :
    RoundTrips (serializeBackoff J) (parseBackoff J) state := by
  obtain ⟨body, hbody⟩ := Option.isSome_iff_exists.mp (state.dump_isSome J)
  have htext : serializeBackoff J state = some (body ++ ascii "\n") := by
    rw [serializeBackoff, hbody]
    rfl
  exact ⟨_, htext, parseBackoff_serializeBackoff h htext⟩

theorem recovery_records_round_trip (J : JsonLibrary) :
    (∀ h : Handoff, h.Accepted → h.Utf8 → RoundTrips (serializeHandoff J) (parseHandoff J) h) ∧
      (∀ m : MergeMarker, m.Accepted → MergeMarkerUtf8 m → RoundTrips (serializeMergeMarker J) (parseMergeMarker J) m) ∧
      (∀ state : BackoffState, 0 ≤ state.consecutiveFailures → RoundTrips (serializeBackoff J) (parseBackoff J) state) ∧
      (∀ json h, parseHandoff J json = .ok h → RoundTrips (serializeHandoff J) (parseHandoff J) h) ∧
      (∀ json m, parseMergeMarker J json = .ok m → RoundTrips (serializeMergeMarker J) (parseMergeMarker J) m) ∧
      (∀ json state, parseBackoff J json = .ok state → RoundTrips (serializeBackoff J) (parseBackoff J) state) := by
  refine ⟨fun _ => handoff_roundTrips, fun _ => mergeMarker_roundTrips, fun _ => backoff_roundTrips, ?_, ?_, ?_⟩
  · intro json h hp
    obtain ⟨ha, hu⟩ := parseHandoff_accepted hp
    exact handoff_roundTrips ha hu
  · intro json m hp
    exact mergeMarker_roundTrips (parseMergeMarker_accepted hp) (parseMergeMarker_utf8 hp)
  · intro json state hp
    exact backoff_roundTrips (parseBackoff_nonneg hp)

theorem a_handoff_between_short_paths_round_trips :
    RoundTrips (serializeHandoff JsonCodec.library) (parseHandoff JsonCodec.library)
      { stagedNro := ascii "/s", targetNro := ascii "/t", backupNro := ascii "/b", forwarderNro := ascii "/f" } :=
  (recovery_records_round_trip JsonCodec.library).1 _
    ⟨rfl, by decide, by decide, by decide, by decide, by decide, by decide⟩
    ⟨rfl, rfl, by decide, by decide, by decide, by decide⟩

end NsxManager.Documents
