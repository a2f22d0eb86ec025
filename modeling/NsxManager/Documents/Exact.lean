import NsxManager.Catalog.Document
import NsxManager.Core.Accepted
import NsxManager.Core.Handoff
import NsxManager.Core.JsonCodec
import NsxManager.Core.ManifestCache
import NsxManager.Core.MergeMarker

/-! The integers of a document, and what is left of them once they are read into a C++ type. -/

namespace NsxManager.Documents

open NsxManager.Core

def written : Json → Option ℤ
  | .integer n => some n.toInt
  | .unsigned n => some n.toNat
  | _ => none

def integer (doc : Members) (key : Bytes) : Option ℤ := (doc.lookup key).bind written

inductive Width where
  | int
  | int64
  | uint64

namespace Width

def wrap : Width → ℤ → ℤ
  | .int, z => z.bmod (2 ^ 32)
  | .int64, z => z.bmod (2 ^ 64)
  | .uint64, z => z % 2 ^ 64

def Holds : Width → ℤ → Prop
  | .int, z => -2 ^ 31 ≤ z ∧ z < 2 ^ 31
  | .int64, z => -2 ^ 63 ≤ z ∧ z < 2 ^ 63
  | .uint64, z => 0 ≤ z ∧ z < 2 ^ 64

lemma wrap_eq_self_iff {w : Width} {z : ℤ} : w.wrap z = z ↔ w.Holds z := by
  cases w with
  | int =>
    rw [wrap, Holds, Int.bmod_eq_iff (by decide)]
    norm_num
  | int64 =>
    rw [wrap, Holds, Int.bmod_eq_iff (by decide)]
    norm_num
  | uint64 =>
    rw [wrap, Holds, Int.emod_eq_iff (by decide)]
    norm_num

end Width

/-- A field of a record: where it stands in the document, the type it is read as, and what was read. -/
structure IntegerField where
  key : Bytes
  width : Width
  value : ℤ

def IntegerField.ReadFrom (f : IntegerField) (doc : Members) : Prop :=
  ∃ z, integer doc f.key = some z ∧ f.value = f.width.wrap z

def Exact (doc : Members) (fields : List IntegerField) : Prop := ∀ f ∈ fields, integer doc f.key = some f.value

def Fits (doc : Members) (fields : List IntegerField) : Prop :=
  ∀ f ∈ fields, ∀ z, integer doc f.key = some z → f.width.Holds z

lemma exact_iff_fits {doc : Members} {fields : List IntegerField} (h : ∀ f ∈ fields, f.ReadFrom doc) :
    Exact doc fields ↔ Fits doc fields := by
  refine forall₂_congr (fun f hf => ?_)
  obtain ⟨z, hz, hvalue⟩ := h f hf
  simp only [hz, Option.some.injEq, forall_eq', hvalue]
  rw [eq_comm, Width.wrap_eq_self_iff]

section Conversions

variable {ε : Type} {doc : Members} {key : Bytes} {v : Json}

lemma getInt_eq_ok {n : Int32} (h : (v.getInt : Parse ε Int32) = .ok n) :
    ∃ z, written v = some z ∧ n.toInt = Width.int.wrap z := by
  cases v with
  | integer m =>
    obtain rfl := Except.ok.inj h
    exact ⟨_, rfl, Int64.toInt_toInt32 m⟩
  | unsigned m =>
    obtain rfl := Except.ok.inj h
    refine ⟨_, rfl, ?_⟩
    have hword : m.toUInt32.toInt32.toInt = ((m.toUInt32.toNat : ℕ) : ℤ).bmod (2 ^ 32) := by
      rw [← Int32.toInt_toBitVec]
      exact BitVec.toInt_eq_toNat_bmod _
    rw [hword, UInt64.toNat_toUInt32, Int.natCast_emod]
    exact Int.emod_bmod _ _
  | _ => cases h

lemma getInt64_eq_ok {n : Int64} (h : (v.getInt64 : Parse ε Int64) = .ok n) :
    ∃ z, written v = some z ∧ n.toInt = Width.int64.wrap z := by
  cases v with
  | integer m =>
    obtain rfl := Except.ok.inj h
    exact ⟨_, rfl, (Int.bmod_eq_of_le m.le_toInt m.toInt_lt).symm⟩
  | unsigned m =>
    obtain rfl := Except.ok.inj h
    refine ⟨_, rfl, ?_⟩
    rw [← Int64.toInt_toBitVec]
    exact BitVec.toInt_eq_toNat_bmod _
  | _ => cases h

lemma getUInt64_eq_ok {n : UInt64} (h : (v.getUInt64 : Parse ε UInt64) = .ok n) (hv : v.isNumberUnsigned = true) :
    written v = some (n.toNat : ℤ) := by
  cases v with
  | unsigned m =>
    obtain rfl := Except.ok.inj h
    rfl
  | _ => cases hv

lemma readFrom_int {n : Int32} (hv : doc.lookup key = some v) (hn : (v.getInt : Parse ε Int32) = .ok n) :
    (⟨key, .int, n.toInt⟩ : IntegerField).ReadFrom doc := by
  obtain ⟨z, hz, hvalue⟩ := getInt_eq_ok hn
  exact ⟨z, by rw [integer, hv]; exact hz, hvalue⟩

lemma readFrom_int64 {n : Int64} (hv : doc.lookup key = some v) (hn : (v.getInt64 : Parse ε Int64) = .ok n) :
    (⟨key, .int64, n.toInt⟩ : IntegerField).ReadFrom doc := by
  obtain ⟨z, hz, hvalue⟩ := getInt64_eq_ok hn
  exact ⟨z, by rw [integer, hv]; exact hz, hvalue⟩

end Conversions

def schemaField (supported : Int32) : IntegerField := ⟨ascii "schema_version", .int, supported.toInt⟩

def handoffIntegers (h : Handoff) : List IntegerField :=
  [schemaField kSupportedHandoffSchema, ⟨ascii "created_at_unix", .int64, h.createdAtUnix.toInt⟩,
    ⟨ascii "attempts", .int, h.attempts.toInt⟩, ⟨ascii "max_attempts", .int, h.maxAttempts.toInt⟩]

def mergeMarkerIntegers (m : MergeMarker) : List IntegerField :=
  [schemaField kSupportedMergeMarkerSchema, ⟨ascii "created_at_unix", .int64, m.createdAtUnix.toInt⟩]

def cacheIntegers (m : CacheMetadata) : List IntegerField :=
  [schemaField kSupportedCacheSchema, ⟨ascii "fetched_at_unix", .int64, m.fetchedAtUnix.toInt⟩,
    ⟨ascii "document_size", .uint64, m.documentSize.toNat⟩]

def backoffIntegers (state : BackoffState) : List IntegerField :=
  [⟨ascii "next_attempt_unix", .int64, state.nextAttemptUnix.toInt⟩,
    ⟨ascii "last_failure_unix", .int64, state.lastFailureUnix.toInt⟩,
    ⟨ascii "last_success_unix", .int64, state.lastSuccessUnix.toInt⟩]

variable {doc : Members}

lemma readHandoff_integers {h : Handoff} (hr : readHandoff doc = .ok h) :
    ∀ f ∈ handoffIntegers h, f.ReadFrom doc := by
  simp only [readHandoff, Parse.bind_eq_ok, need_eq_ok, integerField_eq_ok, Parse.pure_eq,
    Except.ok.injEq] at hr
  obtain ⟨_, _, s, ⟨hs, _⟩, version, hversion, _, hsupported, _, _, c, ⟨hc, _⟩, _, hcreated, _, _, _, _, _, _, _, _, _, _, _, _,
    _, _, a, ⟨ha, _⟩, m, ⟨hm, _⟩, _, hattempts, _, hmax, _, _, rfl⟩ := hr
  obtain rfl := beq_iff_eq.mp hsupported
  simp only [handoffIntegers, List.forall_mem_cons, List.not_mem_nil, false_implies, implies_true, and_true]
  exact ⟨readFrom_int hs hversion, readFrom_int64 hc hcreated, readFrom_int ha hattempts, readFrom_int hm hmax⟩

lemma readMergeMarker_integers {m : MergeMarker} (hr : readMergeMarker doc = .ok m) :
    ∀ f ∈ mergeMarkerIntegers m, f.ReadFrom doc := by
  simp only [readMergeMarker, Parse.bind_eq_ok, need_eq_ok, integerField_eq_ok, Parse.pure_eq,
    Except.ok.injEq] at hr
  obtain ⟨_, _, s, ⟨hs, _⟩, version, hversion, _, hsupported, _, _, c, ⟨hc, _⟩, _, hcreated, _, _, _, _, _, _, _, _, _, _, _, _,
    rfl⟩ := hr
  obtain rfl := beq_iff_eq.mp hsupported
  simp only [mergeMarkerIntegers, List.forall_mem_cons, List.not_mem_nil, false_implies, implies_true, and_true]
  exact ⟨readFrom_int hs hversion, readFrom_int64 hc hcreated⟩

lemma readCacheMetadata_integers {m : CacheMetadata} (hr : readCacheMetadata doc = .ok m) :
    ∀ f ∈ cacheIntegers m, f.ReadFrom doc := by
  simp only [readCacheMetadata, Parse.bind_eq_ok, need_eq_ok, integerField_eq_ok, Parse.pure_eq,
    Except.ok.injEq] at hr
  obtain ⟨_, _, s, ⟨hs, _⟩, version, hversion, _, hsupported, _, _, c, ⟨hc, _⟩, _, hfetched, _, _, _, _, _, _, v, hv, _, hunsigned,
    size, hsize, _, _, _, _, rfl⟩ := hr
  obtain rfl := beq_iff_eq.mp hsupported
  simp only [cacheIntegers, List.forall_mem_cons, List.not_mem_nil, false_implies, implies_true, and_true]
  refine ⟨readFrom_int hs hversion, readFrom_int64 hc hfetched, size.toNat, ?_, ?_⟩
  · rw [integer, index_eq_ok.mp hv]
    exact getUInt64_eq_ok hsize hunsigned
  · have hfits : Width.uint64.Holds size.toNat := ⟨by positivity, by exact_mod_cast size.toNat_lt⟩
    exact (Width.wrap_eq_self_iff.mpr hfits).symm

section Backoff

variable {state : BackoffState}

def BackoffExact (doc : Members) (state : BackoffState) : Prop :=
  (∀ z, integer doc (ascii "consecutive_failures") = some z → state.consecutiveFailures.toInt = max 0 z) ∧
    ∀ f ∈ backoffIntegers state, ∀ z, integer doc f.key = some z → f.value = z

/-- A count that is not positive may wrap round, as long as it does not turn positive. -/
def BackoffFits (doc : Members) (state : BackoffState) : Prop :=
  (∀ z, integer doc (ascii "consecutive_failures") = some z →
      if 0 < z then Width.int.Holds z else Width.int.wrap z ≤ 0) ∧
    Fits doc (backoffIntegers state)

lemma backoffField_of_integer {key : Bytes} {z : ℤ} (h : integer doc key = some z) :
    ∃ v, backoffField doc key = some v ∧ written v = some z := by
  obtain ⟨v, hv, hz⟩ := Option.bind_eq_some_iff.mp h
  refine ⟨v, Option.filter_eq_some_iff.mpr ⟨hv, ?_⟩, hz⟩
  cases v with
  | integer n => rfl
  | unsigned n => rfl
  | _ => cases hz

lemma backoffInt_eq {key : Bytes} {z : ℤ} {n : Int32} (h : integer doc key = some z) (hn : backoffInt doc key = .ok n) :
    n.toInt = Width.int.wrap z := by
  obtain ⟨v, hv, hz⟩ := backoffField_of_integer h
  rw [backoffInt, hv] at hn
  obtain ⟨z', hz', hvalue⟩ := getInt_eq_ok hn
  obtain rfl : z = z' := by simpa [hz] using hz'
  exact hvalue

lemma backoffInt64_eq {key : Bytes} {z : ℤ} {n : Int64} (h : integer doc key = some z)
    (hn : backoffInt64 doc key = .ok n) : n.toInt = Width.int64.wrap z := by
  obtain ⟨v, hv, hz⟩ := backoffField_of_integer h
  rw [backoffInt64, hv] at hn
  obtain ⟨z', hz', hvalue⟩ := getInt64_eq_ok hn
  obtain rfl : z = z' := by simpa [hz] using hz'
  exact hvalue

lemma clamped_eq_iff {z : ℤ} : max 0 (Width.int.wrap z) = max 0 z ↔
    if 0 < z then Width.int.Holds z else Width.int.wrap z ≤ 0 := by
  split
  · next hz =>
    rw [← Width.wrap_eq_self_iff]
    omega
  · omega

lemma readBackoff_exact_iff (hr : readBackoff doc = .ok state) : BackoffExact doc state ↔ BackoffFits doc state := by
  simp only [readBackoff, Parse.bind_eq_ok, Parse.pure_eq, Except.ok.injEq] at hr
  obtain ⟨failures, hfailures, next, hnext, failure, hfailure, success, hsuccess, rfl⟩ := hr
  have hclamp : (if failures < 0 then 0 else failures).toInt = max 0 failures.toInt := by
    split
    · next h =>
      have hneg : failures.toInt < 0 := by simpa [Int32.lt_iff_toInt_lt] using h
      rw [max_eq_left hneg.le, Int32.toInt_zero]
    · next h =>
      have hpos : 0 ≤ failures.toInt := by simpa [Int32.lt_iff_toInt_lt] using h
      rw [max_eq_right hpos]
  refine and_congr (forall₂_congr (fun z hz => ?_)) (forall₂_congr (fun f hf => forall₂_congr (fun z hz => ?_)))
  · rw [hclamp, backoffInt_eq hz hfailures]
    exact clamped_eq_iff
  · rw [← Width.wrap_eq_self_iff]
    simp only [backoffIntegers, List.mem_cons, List.not_mem_nil, or_false] at hf
    rcases hf with rfl | rfl | rfl
    · rw [backoffInt64_eq hz hnext]
    · rw [backoffInt64_eq hz hfailure]
    · rw [backoffInt64_eq hz hsuccess]

end Backoff

section Listed

def Sized (nameKey : Bytes) (e : Json) (name : Bytes) (size : UInt64) : Prop :=
  ∃ entry, e = .object entry ∧ entry.lookup nameKey = some (.string name) ∧
    integer entry (ascii "size") = some (size.toNat : ℤ)

def Listed {β : Type} (R : Json → β → Prop) (entries : List Json) (read : List β) : Prop :=
  ∃ kept, kept.Sublist entries ∧ List.Forall₂ R kept read

variable {β : Type} {R : Json → β → Prop} {entries : List Json}

lemma listed_filterMap {f : Json → Parse ManifestError (Option β)} {read : List (Option β)}
    (hf : ∀ e b, f e = .ok (some b) → R e b) (h : List.Forall₂ (fun e b => f e = .ok b) entries read) :
    Listed R entries (read.filterMap id) := by
  induction h with
  | nil => exact ⟨[], List.Sublist.refl _, .nil⟩
  | @cons e b entries read he _ ih =>
    obtain ⟨kept, hkept, hall⟩ := ih
    cases b with
    | none => exact ⟨kept, hkept.cons e, hall⟩
    | some b => exact ⟨e :: kept, hkept.cons_cons e, .cons (hf e b he) hall⟩

def AssetSized (e : Json) (asset : ManifestAsset) : Prop := Sized (ascii "name") e asset.name asset.size

def ItemSized (e : Json) (item : Catalog.Item) : Prop := Sized (ascii "id") e item.id item.size

lemma parseAsset_sized {e : Json} {asset : ManifestAsset} (h : parseAsset e = .ok (some asset)) : AssetSized e asset := by
  obtain ⟨entry, name, kind, url, size, sha256, rfl, hreads, hasset⟩ := parseAsset_eq_ok.mp h
  obtain ⟨kind, _, rfl⟩ := Option.map_eq_some_iff.mp hasset.symm
  exact ⟨entry, rfl, hreads.name, by rw [integer, hreads.size]; rfl⟩

lemma itemFields_sized {out : Catalog.Document} {entry : Members} {kind : Catalog.ContentKind}
    {target : Cfw.InstallTarget} {item : Catalog.Item} (h : Catalog.itemFields out entry kind target = .ok item) :
    ItemSized (.object entry) item := by
  simp only [Catalog.itemFields, Catalog.itemSize, Parse.bind_eq_ok, need_eq_ok, Parse.pure_eq, Except.ok.injEq] at h
  obtain ⟨_, _, id, hid, _, _, _, _, _, _, _, _, _, _, _, _, size, ⟨v, hv, _, hunsigned, n, hn, _, _, rfl⟩, _, _, _, _, _,
    _, _, _, _, _, _, _, _, _, rfl⟩ := h
  refine ⟨entry, rfl, stringField_ok _ _ _ hid, ?_⟩
  rw [integer, index_eq_ok.mp hv]
  exact getUInt64_eq_ok hn hunsigned

lemma parseItem_eq_ok {out out' : Catalog.Document} {e : Json} (h : Catalog.parseItem out e = .ok out') :
    out' = out ∨ ∃ item, out' = { out with items := out.items ++ [item] } ∧ ItemSized e item := by
  cases e with
  | object entry =>
    simp only [Catalog.parseItem, Parse.bind_eq_ok] at h
    obtain ⟨kind, _, h⟩ := h
    cases hkind : Catalog.parseKind kind with
    | none =>
      rw [hkind] at h
      exact .inl (Except.ok.inj h).symm
    | some kind =>
      simp only [hkind, Parse.bind_eq_ok] at h
      obtain ⟨target, _, h⟩ := h
      cases htarget : Catalog.parseTarget target with
      | none =>
        rw [htarget] at h
        exact .inl (Except.ok.inj h).symm
      | some target =>
        simp only [htarget, Parse.bind_eq_ok, Parse.pure_eq, Except.ok.injEq] at h
        obtain ⟨item, hitem, rfl⟩ := h
        exact .inr ⟨item, rfl, itemFields_sized hitem⟩
  | _ => cases h

lemma listed_items {out out' : Catalog.Document} (h : entries.foldlM Catalog.parseItem out = .ok out') :
    ∃ read, out'.items = out.items ++ read ∧ Listed ItemSized entries read := by
  induction entries generalizing out with
  | nil =>
    obtain rfl := Except.ok.inj h
    exact ⟨[], by simp, [], List.Sublist.refl _, .nil⟩
  | cons e entries ih =>
    rw [List.foldlM_cons, Parse.bind_eq_ok] at h
    obtain ⟨middle, hmiddle, hrest⟩ := h
    obtain ⟨read, hread, kept, hkept, hall⟩ := ih hrest
    rcases parseItem_eq_ok hmiddle with rfl | ⟨item, rfl, hitem⟩
    · exact ⟨read, hread, kept, hkept.cons e, hall⟩
    · exact ⟨item :: read, by simp [hread], e :: kept, hkept.cons_cons e, .cons hitem hall⟩

end Listed

section Lists

def ListExact {β : Type} (doc : Members) (supported : Int32) (listKey : Bytes) (R : Json → β → Prop) (read : List β) :
    Prop :=
  Exact doc [schemaField supported] ∧ ∃ entries, doc.lookup listKey = some (.array entries) ∧ Listed R entries read

lemma listExact_iff {β : Type} {supported : Int32} {listKey : Bytes} {R : Json → β → Prop} {read : List β}
    (hschema : (schemaField supported).ReadFrom doc)
    (hlist : ∃ entries, doc.lookup listKey = some (.array entries) ∧ Listed R entries read) :
    ListExact doc supported listKey R read ↔ Fits doc [schemaField supported] := by
  rw [ListExact, and_iff_left hlist]
  exact exact_iff_fits (by simpa using hschema)

lemma readManifest_exact_iff {m : UpdateManifest} (hr : readManifest doc = .ok m) :
    ListExact doc kSupportedManifestSchema (ascii "assets") AssetSized m.assets ↔
      Fits doc [schemaField kSupportedManifestSchema] := by
  simp only [readManifest, Parse.bind_eq_ok, need_eq_ok, manifestFields_eq_ok, Parse.pure_eq, Except.ok.injEq] at hr
  obtain ⟨m, hreads, _, _, rfl⟩ := hr
  obtain ⟨v, hv, _, hget⟩ := hreads.schema
  rw [hreads.supported] at hget
  refine listExact_iff (readFrom_int hv hget) ?_
  obtain ⟨v, hv, hassets⟩ := hreads.assets
  obtain ⟨entries, read, rfl, _, hmap, heq⟩ := manifestAssets_eq_ok.mp hassets
  exact ⟨entries, hv, heq ▸ listed_filterMap (fun _ _ => parseAsset_sized) (mapM_eq_ok.mp hmap)⟩

lemma readCatalog_exact_iff {out : Catalog.Document} (hr : Catalog.readCatalog doc = .ok out) :
    ListExact doc Catalog.kSupportedCatalogSchema (ascii "items") ItemSized out.items ↔
      Fits doc [schemaField Catalog.kSupportedCatalogSchema] := by
  simp only [Catalog.readCatalog, Parse.bind_eq_ok, need_eq_ok, integerField_eq_ok, Parse.pure_eq,
    Except.ok.injEq] at hr
  obtain ⟨_, _, s, ⟨hs, _⟩, version, hversion, _, hsupported, _, _, _, _, v, hv, out, hout, _, _, rfl⟩ := hr
  obtain rfl := beq_iff_eq.mp hsupported
  refine listExact_iff (readFrom_int hs hversion) ?_
  cases v with
  | array entries =>
    obtain ⟨read, hread, hlisted⟩ := listed_items hout
    exact ⟨entries, index_eq_ok.mp hv, by simpa [hread] using hlisted⟩
  | _ => cases hout

end Lists

theorem integers_are_read_exactly_iff (J : JsonLibrary) (json : Bytes) (doc : Members)
    (hdoc : J.parse json = some (.object doc)) :
    (∀ h, parseHandoff J json = .ok h → (Exact doc (handoffIntegers h) ↔ Fits doc (handoffIntegers h))) ∧
      (∀ m, parseManifest J json = .ok m →
        (ListExact doc kSupportedManifestSchema (ascii "assets") AssetSized m.assets ↔
          Fits doc [schemaField kSupportedManifestSchema])) ∧
      (∀ out, Catalog.parseCatalog J json = .ok out →
        (ListExact doc Catalog.kSupportedCatalogSchema (ascii "items") ItemSized out.items ↔
          Fits doc [schemaField Catalog.kSupportedCatalogSchema])) ∧
      (∀ m, parseMergeMarker J json = .ok m → (Exact doc (mergeMarkerIntegers m) ↔ Fits doc (mergeMarkerIntegers m))) ∧
      (∀ m, parseCacheMetadata J json = .ok m → (Exact doc (cacheIntegers m) ↔ Fits doc (cacheIntegers m))) ∧
      (∀ state, parseBackoff J json = .ok state → (BackoffExact doc state ↔ BackoffFits doc state)) := by
  simp only [parseHandoff, parseManifest, Catalog.parseCatalog, parseMergeMarker, parseCacheMetadata, parseBackoff, hdoc]
  exact ⟨fun _ hr => exact_iff_fits (readHandoff_integers hr), fun _ => readManifest_exact_iff,
    fun _ => readCatalog_exact_iff, fun _ hr => exact_iff_fits (readMergeMarker_integers hr),
    fun _ hr => exact_iff_fits (readCacheMetadata_integers hr), fun _ => readBackoff_exact_iff⟩

namespace Sample

def markerText (schema created : Bytes) : Bytes :=
  ascii "\x7b\"schema_version\":" ++ schema ++ ascii ",\"created_at_unix\":" ++ created ++
    ascii ",\"item_id\":\"a\",\"staging_dir\":\"/s\",\"destination_root\":\"/d\",\"backup_dir\":\"/b\"\x7d"

def marker : MergeMarker :=
  { createdAtUnix := 7, itemId := ascii "a", stagingDir := ascii "/s", destinationRoot := ascii "/d",
    backupDir := ascii "/b" }

def members (json : Bytes) : Members :=
  match JsonCodec.parse json with
  | some (.object doc) => doc
  | _ => []

lemma parse_members {json : Bytes} (h : members json ≠ []) :
    JsonCodec.library.parse json = some (.object (members json)) := by
  unfold members at h ⊢
  split
  · next hdoc => exact hdoc
  · next hother => simp at h

end Sample

theorem a_plain_marker_is_read_exactly :
    parseMergeMarker JsonCodec.library (Sample.markerText (ascii "1") (ascii "7")) = .ok Sample.marker ∧
      Exact (Sample.members (Sample.markerText (ascii "1") (ascii "7"))) (mergeMarkerIntegers Sample.marker) := by
  have hread : parseMergeMarker JsonCodec.library (Sample.markerText (ascii "1") (ascii "7")) = .ok Sample.marker := by
    decide +kernel
  have hdoc : (Sample.members (Sample.markerText (ascii "1") (ascii "7"))).isEmpty = false ∧
      integer (Sample.members (Sample.markerText (ascii "1") (ascii "7"))) (ascii "schema_version") = some 1 ∧
      integer (Sample.members (Sample.markerText (ascii "1") (ascii "7"))) (ascii "created_at_unix") = some 7 := by
    decide +kernel
  have hparse := Sample.parse_members (List.isEmpty_eq_false_iff.mp hdoc.1)
  refine ⟨hread, ?_⟩
  refine ((integers_are_read_exactly_iff JsonCodec.library _ _ hparse).2.2.2.1 _ hread).mpr ?_
  simp only [Fits, mergeMarkerIntegers, schemaField, List.forall_mem_cons, hdoc.2.1, hdoc.2.2, Option.some.injEq,
    forall_eq', Width.Holds, List.not_mem_nil, false_implies, implies_true]
  norm_num

/-- `get<int>()` keeps the low 32 bits. -/
theorem a_newer_schema_is_read_as_supported :
    parseMergeMarker JsonCodec.library (Sample.markerText (ascii "4294967297") (ascii "7")) = .ok Sample.marker ∧
      integer (Sample.members (Sample.markerText (ascii "4294967297") (ascii "7"))) (ascii "schema_version") =
        some 4294967297 := by
  decide +kernel

end NsxManager.Documents
