import NsxManager.Core.SemVerText
import NsxManager.Documents.Exact
import NsxManager.Release.Published

/-! The tag of a manifest against the version that is read from it. -/

namespace NsxManager.Documents

open NsxManager.Core

lemma stripV_eq_self {text : Bytes} (hne : text ≠ []) :
    SemVer.stripV text = text ↔ text.head? ≠ some (byte 'v') ∧ text.head? ≠ some (byte 'V') := by
  rw [SemVer.stripV]
  split
  · next hv =>
    refine iff_of_false (fun heq => hne ?_) (by tauto)
    have hlength := congrArg List.length heq
    rw [List.length_drop] at hlength
    exact List.length_eq_zero_iff.mp (by omega)
  · next hv => exact iff_of_true rfl (by tauto)

/-- The tag repeats the text of the version, not the version: a letter in front of it is in the tag twice. -/
lemma tag_eq_iff {doc : Members} {m : UpdateManifest} (h : DocumentReads doc m) :
    m.tag = byte 'v' :: m.version.toString ↔ ∀ text, doc.lookup (ascii "version") = some (.string text) →
      text.head? ≠ some (byte 'v') ∧ text.head? ≠ some (byte 'V') := by
  obtain ⟨text, htext, hparse, htag⟩ := h.version
  have hne : text ≠ [] := by
    rintro rfl
    exact absurd hparse (by simp [parseSemVer, SemVer.stripV])
  obtain ⟨_, _, hprinted⟩ := SemVer.parseSemVer_eq_ok.mp hparse
  rw [htag, ← hprinted, List.cons.injEq, and_iff_right rfl, eq_comm, stripV_eq_self hne, htext]
  simp only [Option.some.injEq, Json.string.injEq, forall_eq']

theorem tag_names_version_iff (J : JsonLibrary) (json : Bytes) (doc : Members) (m : UpdateManifest)
    (hdoc : J.parse json = some (.object doc)) (h : parseManifest J json = .ok m) :
    m.tag = byte 'v' :: m.version.toString ↔ ∀ text, doc.lookup (ascii "version") = some (.string text) →
      text.head? ≠ some (byte 'v') ∧ text.head? ≠ some (byte 'V') := by
  simp only [parseManifest, hdoc, readManifest, Parse.bind_eq_ok, need_eq_ok, Parse.pure_eq, Except.ok.injEq,
    manifestFields_eq_ok] at h
  obtain ⟨m', hreads, _, _, rfl⟩ := h
  exact tag_eq_iff hreads

lemma toOption_eq_some {ε α : Type} {x : Parse ε α} {a : α} : x.toOption = some a ↔ x = .ok a := by
  cases x <;> simp [Except.toOption]

theorem a_plain_version_is_named :
    ∃ m, parseManifest JsonCodec.library (Release.Sample.published (ascii "1.0.0")) = .ok m ∧
      m.tag = byte 'v' :: m.version.toString := by
  have hread : (parseManifest JsonCodec.library (Release.Sample.published (ascii "1.0.0"))).isOk = true ∧
      (Sample.members (Release.Sample.published (ascii "1.0.0"))).isEmpty = false ∧
      (stringField () (Sample.members (Release.Sample.published (ascii "1.0.0"))) (ascii "version")).toOption =
        some (ascii "1.0.0") := by
    decide +kernel
  obtain ⟨m, hm⟩ := Release.Sample.isOk_iff.mp hread.1
  have hdoc := Sample.parse_members (List.isEmpty_eq_false_iff.mp hread.2.1)
  refine ⟨m, hm, (tag_names_version_iff JsonCodec.library _ _ m hdoc hm).mpr ?_⟩
  intro text htext
  rw [stringField_eq () _ _ htext] at hread
  obtain rfl : text = ascii "1.0.0" := Option.some.inj hread.2.2
  decide

/-- The parser of versions takes a `v` off the text; the tag is compared with the text that still has it. -/
theorem a_lettered_version_is_misnamed :
    ∃ m, parseManifest JsonCodec.library (Release.Sample.published (ascii "v1.0.0")) = .ok m ∧
      m.tag = ascii "vv1.0.0" ∧ m.version.toString = ascii "1.0.0" := by
  have hread : (parseManifest JsonCodec.library (Release.Sample.published (ascii "v1.0.0"))).toOption.map
      (fun m => (m.tag, m.version.toString)) = some (ascii "vv1.0.0", ascii "1.0.0") := by
    decide +kernel
  obtain ⟨m, hm, hpair⟩ := Option.map_eq_some_iff.mp hread
  obtain ⟨htag, hversion⟩ := Prod.mk.inj hpair
  exact ⟨m, toOption_eq_some.mp hm, htag, hversion⟩

end NsxManager.Documents
