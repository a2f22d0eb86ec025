import NsxManager.Catalog.Equivalence
import NsxManager.Core.Handoff
import NsxManager.Core.MergeMarker
import NsxManager.Core.ManifestCache

/-! The parsers of the core, on documents of any kind. -/

namespace NsxManager.Documents

open NsxManager.Core NsxManager.Core.Parse

section Fields

variable {ε : Type} {doc : Members} {key : Bytes} {v : Json}

lemma checked_getInt64 (h : v.isNumberInteger = true) : (v.getInt64 : Parse ε Int64).Checked (fun _ => True) := by
  cases v <;> trivial

lemma checked_pathField (wrongType relativePath pathTraversal : ε) (h : doc.has key = true) :
    (pathField wrongType relativePath pathTraversal doc key).Checked (fun _ => True) := by
  refine checked_bind (checked_stringField _ h) (fun _ _ => ?_)
  exact checked_bind (checked_need _ _) (fun _ _ => checked_bind (checked_need _ _) (fun _ _ => trivial))

lemma checked_optional (e : ε) : (if doc.has key then stringField e doc key else .ok []).Checked (fun _ => True) := by
  split
  · next h => exact checked_stringField e h
  · trivial

end Fields

lemma checked_readHandoff (doc : Members) : (readHandoff doc).Checked (fun _ => True) := by
  have hdigest : doc.has (ascii "staged_sha256") = true → (handoffDigest doc).Checked (fun _ => True) := by
    refine fun h => checked_bind (checked_stringField _ h) (fun hex _ => ?_)
    cases fromHex hex <;> trivial
  refine checked_bind (checked_need _ _) (fun _ hschema => ?_)
  refine checked_bind (checked_integerField _ hschema) (fun _ hint => checked_bind (checked_getInt hint) (fun _ _ => ?_))
  refine checked_bind (checked_need _ _) (fun _ _ => checked_bind (checked_need _ _) (fun _ hkeys => ?_))
  have hhas : ∀ key ∈ handoffKeys, doc.has key = true := fun _ => has_of_all hkeys
  refine checked_bind (checked_integerField _ (hhas _ (by decide))) (fun _ hint => ?_)
  refine checked_bind (checked_getInt64 hint) (fun _ _ => ?_)
  refine checked_bind (checked_stringField _ (hhas _ (by decide))) (fun _ _ => ?_)
  refine checked_bind (checked_stringField _ (hhas _ (by decide))) (fun _ _ => ?_)
  refine checked_bind (checked_pathField _ _ _ (hhas _ (by decide))) (fun _ _ => ?_)
  refine checked_bind (checked_pathField _ _ _ (hhas _ (by decide))) (fun _ _ => ?_)
  refine checked_bind (checked_pathField _ _ _ (hhas _ (by decide))) (fun _ _ => ?_)
  refine checked_bind (checked_pathField _ _ _ (hhas _ (by decide))) (fun _ _ => ?_)
  refine checked_bind (hdigest (hhas _ (by decide))) (fun _ _ => ?_)
  refine checked_bind (checked_integerField _ (hhas _ (by decide))) (fun _ hattempts => ?_)
  refine checked_bind (checked_integerField _ (hhas _ (by decide))) (fun _ hmax => ?_)
  refine checked_bind (checked_getInt hattempts) (fun _ _ => checked_bind (checked_getInt hmax) (fun _ _ => ?_))
  exact checked_bind (checked_need _ _) (fun _ _ => trivial)

lemma checked_readMergeMarker (doc : Members) : (readMergeMarker doc).Checked (fun _ => True) := by
  refine checked_bind (checked_need _ _) (fun _ hschema => ?_)
  refine checked_bind (checked_integerField _ hschema) (fun _ hint => checked_bind (checked_getInt hint) (fun _ _ => ?_))
  refine checked_bind (checked_need _ _) (fun _ _ => checked_bind (checked_need _ _) (fun _ hkeys => ?_))
  have hhas : ∀ key ∈ mergeMarkerKeys, doc.has key = true := fun _ => has_of_all hkeys
  refine checked_bind (checked_integerField _ (hhas _ (by decide))) (fun _ hint => ?_)
  refine checked_bind (checked_getInt64 hint) (fun _ _ => ?_)
  refine checked_bind (checked_stringField _ (hhas _ (by decide))) (fun _ _ => ?_)
  refine checked_bind (checked_need _ _) (fun _ _ => checked_bind (checked_optional _) (fun _ _ => ?_))
  refine checked_bind (checked_pathField _ _ _ (hhas _ (by decide))) (fun _ _ => ?_)
  refine checked_bind (checked_pathField _ _ _ (hhas _ (by decide))) (fun _ _ => ?_)
  exact checked_bind (checked_pathField _ _ _ (hhas _ (by decide))) (fun _ _ => trivial)

lemma checked_readCacheMetadata (doc : Members) : (readCacheMetadata doc).Checked (fun _ => True) := by
  refine checked_bind (checked_need _ _) (fun _ hschema => ?_)
  refine checked_bind (checked_integerField _ hschema) (fun _ hint => checked_bind (checked_getInt hint) (fun _ _ => ?_))
  refine checked_bind (checked_need _ _) (fun _ _ => checked_bind (checked_need _ _) (fun _ hkeys => ?_))
  have hhas : ∀ key ∈ cacheKeys, doc.has key = true := fun _ => has_of_all hkeys
  refine checked_bind (checked_integerField _ (hhas _ (by decide))) (fun _ hint => ?_)
  refine checked_bind (checked_getInt64 hint) (fun _ _ => checked_bind (checked_need _ _) (fun _ _ => ?_))
  refine checked_bind (checked_stringField _ (hhas _ (by decide))) (fun _ _ => ?_)
  refine checked_bind (checked_need _ _) (fun _ _ => ?_)
  refine checked_bind (checked_index (hhas _ (by decide))) (fun _ _ => checked_bind (checked_need _ _) (fun _ hsize => ?_))
  refine checked_bind (checked_getUInt64 hsize) (fun _ _ => ?_)
  exact checked_bind (checked_optional _) (fun _ _ => checked_bind (checked_optional _) (fun _ _ => trivial))

lemma checked_readBackoff (doc : Members) : (readBackoff doc).Checked (fun _ => True) := by
  have hfield : ∀ key v, backoffField doc key = some v → v.isNumberInteger = true :=
    fun key v h => (Option.filter_eq_some_iff.mp h).2
  have hint : ∀ key, (backoffInt doc key).Checked (fun _ => True) := by
    intro key
    unfold backoffInt
    split
    · next v h => exact checked_getInt (hfield key v h)
    · trivial
  have hint64 : ∀ key, (backoffInt64 doc key).Checked (fun _ => True) := by
    intro key
    unfold backoffInt64
    split
    · next v h => exact checked_getInt64 (hfield key v h)
    · trivial
  refine checked_bind (hint _) (fun _ _ => checked_bind (hint64 _) (fun _ _ => ?_))
  exact checked_bind (hint64 _) (fun _ _ => checked_bind (hint64 _) (fun _ _ => trivial))

section Object

variable {ε α : Type} {read : Members → Parse ε α}

lemma checked_object (hread : ∀ doc, (read doc).Checked (fun _ => True)) (notJson notObject : ε) (value : Option Json) :
    (match value with
      | none => .error (.rejected notJson)
      | some (.object doc) => read doc
      | some _ => .error (.rejected notObject) : Parse ε α).Checked (fun _ => True) := by
  split
  · trivial
  · exact hread _
  · trivial

end Object

theorem parsers_never_fault (J : JsonLibrary) (json : Bytes) :
    parseManifest J json ≠ .error .fault ∧ Catalog.parseCatalog J json ≠ .error .fault ∧
      parseHandoff J json ≠ .error .fault ∧ parseMergeMarker J json ≠ .error .fault ∧
      parseCacheMetadata J json ≠ .error .fault ∧ parseBackoff J json ≠ .error .fault := by
  have hne : ∀ {ε α : Type} {x : Parse ε α}, x.Checked (fun _ => True) → x ≠ .error .fault := by
    rintro ε α x h rfl
    exact h
  refine ⟨hne (checked_parseManifest J json), hne (Catalog.checked_parseCatalog J json), hne ?_, hne ?_, hne ?_, hne ?_⟩
  · exact checked_object checked_readHandoff _ _ _
  · exact checked_object checked_readMergeMarker _ _ _
  · exact checked_object checked_readCacheMetadata _ _ _
  · unfold parseBackoff
    split
    · exact checked_readBackoff _
    · trivial

end NsxManager.Documents
