import NsxManager.Core.Manifest

/-! Parsers that look before they convert. -/

namespace NsxManager.Core

namespace Parse

variable {ε α β : Type}

def Checked (x : Parse ε α) (Q : α → Prop) : Prop :=
  match x with
  | .ok a => Q a
  | .error (.rejected _) => True
  | .error .fault => False

variable {Q : α → Prop} {x : Parse ε α}

lemma checked_bind {k : α → Parse ε β} {Q' : β → Prop} (h : x.Checked Q) (hk : ∀ a, Q a → (k a).Checked Q') :
    (x >>= k).Checked Q' := by
  rcases x with (e | _) | a
  · trivial
  · exact h
  · exact hk a h

lemma checked_need (e : ε) (condition : Bool) : (need e condition).Checked (fun _ => condition = true) := by
  cases condition with
  | true => rfl
  | false => trivial

lemma checked_mapM {f : α → Parse ε β} (h : ∀ a, (f a).Checked (fun _ => True)) (l : List α) :
    (l.mapM f).Checked (fun _ => True) := by
  induction l with
  | nil => trivial
  | cons a l ih =>
    rw [List.mapM_cons]
    exact checked_bind (h a) (fun _ _ => checked_bind ih (fun _ _ => trivial))

lemma checked_foldlM {f : β → α → Parse ε β} (h : ∀ b a, (f b a).Checked (fun _ => True)) (l : List α) (b : β) :
    (l.foldlM f b).Checked (fun _ => True) := by
  induction l generalizing b with
  | nil => trivial
  | cons a l ih =>
    rw [List.foldlM_cons]
    exact checked_bind (h b a) (fun b' _ => ih b')

lemma Checked.cases (h : x.Checked Q) : (∃ a, x = .ok a) ∨ ∃ e, x = .error (.rejected e) := by
  rcases x with (e | _) | a
  · exact .inr ⟨e, rfl⟩
  · exact h.elim
  · exact .inl ⟨a, rfl⟩

section Fields

variable {doc : Members} {key : Bytes} {v : Json}

lemma checked_index (h : doc.has key = true) : (doc.index key : Parse ε Json).Checked (fun _ => True) := by
  obtain ⟨v, hv⟩ := Option.isSome_iff_exists.mp h
  rw [Members.index, hv]
  trivial

lemma checked_stringField (e : ε) (h : doc.has key = true) : (stringField e doc key).Checked (fun _ => True) := by
  refine checked_bind (checked_index h) (fun v _ => checked_bind (checked_need e _) (fun _ hv => ?_))
  cases v <;> trivial

lemma checked_integerField (e : ε) (h : doc.has key = true) :
    (integerField e doc key).Checked (fun v => v.isNumberInteger = true) :=
  checked_bind (checked_index h) (fun _ _ => checked_bind (checked_need e _) (fun _ hv => hv))

lemma checked_getInt (h : v.isNumberInteger = true) : (v.getInt : Parse ε Int32).Checked (fun _ => True) := by
  cases v <;> trivial

lemma checked_getBool (h : v.isBoolean = true) : (v.getBool : Parse ε Bool).Checked (fun _ => True) := by
  cases v <;> trivial

lemma checked_getUInt64 (h : v.isNumberUnsigned = true) : (v.getUInt64 : Parse ε UInt64).Checked (fun _ => True) := by
  cases v <;> trivial

end Fields

end Parse

open Parse

lemma has_of_all {doc : Members} {keys : List Bytes} (h : keys.all doc.has = true) {key : Bytes} (hkey : key ∈ keys) :
    doc.has key = true := List.all_eq_true.mp h key hkey

section Manifest

variable {doc : Members}

lemma checked_manifestVersion (text : Bytes) : (manifestVersion text).Checked (fun _ => True) := by
  unfold manifestVersion
  split <;> trivial

lemma checked_parseChannel (text : Bytes) : (parseChannel text).Checked (fun _ => True) := by
  unfold parseChannel
  split_ifs <;> trivial

lemma checked_manifestText (key : Bytes) : (manifestText doc key).Checked (fun _ => True) := by
  unfold manifestText
  split
  · next h => exact checked_stringField _ h
  · trivial

lemma checked_manifestAtmosphere : (manifestAtmosphere doc).Checked (fun _ => True) := by
  unfold manifestAtmosphere
  split
  · next h =>
    exact checked_bind (checked_stringField _ h) (fun text _ =>
      checked_bind (checked_manifestVersion text) (fun _ _ => trivial))
  · trivial

lemma checked_assetFields (entry : Members) : (assetFields entry).Checked (fun _ => True) := by
  unfold assetFields
  refine checked_bind (checked_need _ _) (fun _ hkeys => ?_)
  have hhas : ∀ key ∈ assetKeys, entry.has key = true := fun _ => has_of_all hkeys
  refine checked_bind (checked_stringField _ (hhas _ (by decide))) (fun _ _ => ?_)
  refine checked_bind (checked_stringField _ (hhas _ (by decide))) (fun _ _ => ?_)
  refine checked_bind (checked_stringField _ (hhas _ (by decide))) (fun _ _ => ?_)
  refine checked_bind (checked_stringField _ (hhas _ (by decide))) (fun hex _ => ?_)
  refine checked_bind (checked_need _ _) (fun _ _ => checked_bind (checked_need _ _) (fun _ _ => ?_))
  have hdigest : (assetDigest hex).Checked (fun _ => True) := by
    unfold assetDigest
    split <;> trivial
  refine checked_bind hdigest (fun _ _ => checked_bind (checked_index (hhas _ (by decide))) (fun _ _ => ?_))
  refine checked_bind (checked_need _ _) (fun _ hsize => checked_bind (checked_getUInt64 hsize) (fun _ _ => ?_))
  exact checked_bind (checked_need _ _) (fun _ _ => trivial)

lemma checked_manifestAssets (v : Json) : (manifestAssets v).Checked (fun _ => True) := by
  have hasset : ∀ v, (parseAsset v).Checked (fun _ => True) := by
    intro v
    cases v with
    | object entry => exact checked_assetFields entry
    | _ => trivial
  unfold manifestAssets
  split
  · trivial
  · exact checked_bind (checked_mapM hasset _) (fun _ _ => trivial)
  · trivial

lemma checked_manifestFields (doc : Members) : (manifestFields doc).Checked (fun _ => True) := by
  unfold manifestFields
  refine checked_bind (checked_need _ _) (fun _ hschema => ?_)
  refine checked_bind (checked_integerField _ hschema) (fun _ hint => checked_bind (checked_getInt hint) (fun _ _ => ?_))
  refine checked_bind (checked_need _ _) (fun _ _ => checked_bind (checked_need _ _) (fun _ hproduct => ?_))
  refine checked_bind (checked_stringField _ hproduct) (fun _ _ => checked_bind (checked_need _ _) (fun _ _ => ?_))
  refine checked_bind (checked_need _ _) (fun _ hkeys => ?_)
  have hhas : ∀ key ∈ manifestKeys, doc.has key = true := fun _ => has_of_all hkeys
  refine checked_bind (checked_stringField _ (hhas _ (by decide))) (fun _ _ => ?_)
  refine checked_bind (checked_stringField _ (hhas _ (by decide))) (fun _ _ => ?_)
  refine checked_bind (checked_manifestVersion _) (fun _ _ => checked_bind (checked_manifestVersion _) (fun _ _ => ?_))
  refine checked_bind (checked_stringField _ (hhas _ (by decide))) (fun _ _ => ?_)
  refine checked_bind (checked_need _ _) (fun _ _ => ?_)
  refine checked_bind (checked_stringField _ (hhas _ (by decide))) (fun _ _ => ?_)
  refine checked_bind (checked_need _ _) (fun _ _ => ?_)
  refine checked_bind (checked_stringField _ (hhas _ (by decide))) (fun _ _ => ?_)
  refine checked_bind (checked_parseChannel _) (fun _ _ => ?_)
  refine checked_bind (checked_index (hhas _ (by decide))) (fun _ _ => ?_)
  refine checked_bind (checked_need _ _) (fun _ hbool => checked_bind (checked_getBool hbool) (fun _ _ => ?_))
  refine checked_bind checked_manifestAtmosphere (fun _ _ => ?_)
  refine checked_bind (checked_manifestText _) (fun _ _ => checked_bind (checked_manifestText _) (fun _ _ => ?_))
  refine checked_bind (checked_index (hhas _ (by decide))) (fun v _ => ?_)
  exact checked_bind (checked_manifestAssets v) (fun _ _ => trivial)

end Manifest

lemma checked_parseManifest (J : JsonLibrary) (json : Bytes) : (parseManifest J json).Checked (fun _ => True) := by
  unfold parseManifest
  split
  · trivial
  · exact checked_bind (checked_manifestFields _) (fun _ _ => checked_bind (checked_need _ _) (fun _ _ => trivial))
  · trivial

end NsxManager.Core
