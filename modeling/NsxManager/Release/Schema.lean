import NsxManager.Release.Document
import NsxManager.Release.Patterns

/-! The published schema of the update manifest, and the checks its keywords stand for. -/

namespace NsxManager.Release

open NsxManager.Core

inductive Step where
  | key (name : Bytes)
  | index (i : ℕ)
  deriving DecidableEq, Ord

inductive Keyword where
  | type
  | required
  | const
  | enum
  | pattern
  | minimum
  | exclusiveMinimum
  | minItems
  | minLength
  deriving DecidableEq

structure Violation where
  path : List Step
  keyword : Keyword
  value : Document

/-- A schema is what `iter_errors` makes of a value. -/
abbrev Schema := Document → List Violation

inductive TypeName where
  | object
  | array
  | string
  | integer
  | boolean
  deriving DecidableEq

/-- A float without a fraction is an integer, a boolean is not. -/
def Document.isOfType : TypeName → Document → Bool
  | .object, .dict _ => true
  | .array, .list _ => true
  | .string, .str _ => true
  | .integer, .int _ _ => true
  | .integer, .float q => q.isInt
  | .boolean, .bool _ => true
  | _, _ => false

namespace Schema

def check (keyword : Keyword) (valid : Document → Bool) : Schema := fun d =>
  if valid d then [] else [⟨[], keyword, d⟩]

def type (t : TypeName) : Schema := check .type (·.isOfType t)

def const (text : Bytes) : Schema := check .const (·.isText (· == text))

def enum (texts : List Bytes) : Schema := check .enum (·.isText texts.contains)

def pattern (p : Bytes → Bool) : Schema := check .pattern fun
  | .str s => p s
  | _ => true

def minimum (n : ℤ) : Schema := check .minimum fun
  | .int minus digits => n ≤ Document.intValue minus digits
  | .float q => (n : ℚ) ≤ q
  | .infinite minus => !minus
  | _ => true

def exclusiveMinimum (n : ℤ) : Schema := check .exclusiveMinimum fun
  | .int minus digits => n < Document.intValue minus digits
  | .float q => (n : ℚ) < q
  | .infinite minus => !minus
  | _ => true

def minItems (n : ℕ) : Schema := check .minItems fun
  | .list items => n ≤ items.length
  | _ => true

/-- Code points are counted, each by its one byte that continues no other. -/
def minLength (n : ℕ) : Schema := check .minLength fun
  | .str s => n ≤ s.countP (!isContinuation ·)
  | _ => true

def under (step : Step) (vs : List Violation) : List Violation :=
  vs.map (fun v => { v with path := step :: v.path })

def required (keys : List Bytes) : Schema := fun
  | .dict m => (keys.filter (fun key => (m.lookup key).isNone)).map (fun _ => ⟨[], .required, .dict m⟩)
  | _ => []

def properties (schemas : List (Bytes × Schema)) : Schema := fun
  | .dict m => schemas.flatMap (fun (key, schema) =>
      match m.lookup key with
      | some value => under (.key key) (schema value)
      | none => [])
  | _ => []

def items (schema : Schema) : Schema := fun
  | .list ds => ds.zipIdx.flatMap (fun (d, i) => under (.index i) (schema d))
  | _ => []

def all (schemas : List Schema) : Schema := fun d => schemas.flatMap (· d)

end Schema

open Schema

section Manifest

variable (digits : Digits)

def versionSchema : Schema := all [type .string, pattern (Pattern.line (Pattern.semver digits))]

def httpsSchema : Schema := all [type .string, pattern ((ascii "https://").isPrefixOf ·)]

def assetRequired : List Bytes := [ascii "name", ascii "kind", ascii "url", ascii "size", ascii "sha256"]

/-- `kind` is the schema of that one field, so that what the others ask for can be told apart. -/
def assetProperties (kind : Schema) : List (Bytes × Schema) :=
  [(ascii "name", all [type .string, minLength 1, pattern (Pattern.line Pattern.assetName)]),
   (ascii "kind", kind),
   (ascii "url", all [type .string, pattern ((ascii "https://github.com/").isPrefixOf ·)]),
   (ascii "size", all [type .integer, exclusiveMinimum 0]),
   (ascii "sha256", all [type .string, pattern (Pattern.line Pattern.sha256)])]

def assetSchema (kind : Schema) : Schema :=
  all [type .object, required assetRequired, properties (assetProperties kind)]

def manifestRequired : List Bytes :=
  [ascii "schema_version", ascii "product", ascii "version", ascii "tag", ascii "published_at", ascii "channel",
   ascii "mandatory", ascii "min_supported", ascii "assets"]

def manifestProperties (kind : Schema) : List (Bytes × Schema) :=
  [(ascii "schema_version", all [type .integer, minimum 1]),
   (ascii "product", const (ascii "nsx-manager")),
   (ascii "version", versionSchema digits),
   (ascii "tag", all [type .string, pattern (Pattern.line (Pattern.tag digits))]),
   (ascii "published_at", all [type .string, pattern (Pattern.line (Pattern.isoUtc digits))]),
   (ascii "channel", enum [ascii "stable", ascii "beta"]),
   (ascii "mandatory", type .boolean),
   (ascii "min_supported", versionSchema digits),
   (ascii "min_atmosphere", versionSchema digits),
   (ascii "changelog_url", httpsSchema),
   (ascii "release_notes_url", httpsSchema),
   (ascii "assets", all [type .array, minItems 1, items (assetSchema kind)])]

def manifestSchema (kind : Schema) : Schema :=
  all [type .object, required manifestRequired, properties (manifestProperties digits kind)]

def kindSchema : Schema := enum [ascii "app-nro", ascii "forwarder-nro", ascii "sd-overlay-zip"]

/-- `update.schema.json` -/
def updateSchema : Schema := manifestSchema digits kindSchema

end Manifest

namespace Schema

variable {d : Document} {m : Dict}

@[simp] lemma check_eq_nil {keyword : Keyword} {valid : Document → Bool} :
    check keyword valid d = [] ↔ valid d = true := by
  rw [check]
  split <;> simp [*]

lemma all_eq_nil {schemas : List Schema} : all schemas d = [] ↔ ∀ schema ∈ schemas, schema d = [] :=
  List.flatMap_eq_nil_iff

lemma under_eq_nil {step : Step} {vs : List Violation} : under step vs = [] ↔ vs = [] := List.map_eq_nil_iff

lemma required_eq_nil {keys : List Bytes} :
    required keys (.dict m) = [] ↔ ∀ key ∈ keys, ∃ d, m.lookup key = some d := by
  simp only [required, List.map_eq_nil_iff, List.filter_eq_nil_iff, Option.isNone_iff_eq_none,
    Option.ne_none_iff_exists']

lemma properties_eq_nil {schemas : List (Bytes × Schema)} : properties schemas (.dict m) = [] ↔
    ∀ entry ∈ schemas, ∀ d, m.lookup entry.1 = some d → entry.2 d = [] := by
  rw [properties, List.flatMap_eq_nil_iff]
  refine forall₂_congr (fun entry _ => ?_)
  cases hd : m.lookup entry.1 with
  | none => simp [hd]
  | some d => simp [hd, under_eq_nil]

lemma items_eq_nil {schema : Schema} {ds : List Document} :
    items schema (.list ds) = [] ↔ ∀ d ∈ ds, schema d = [] := by
  rw [items, List.flatMap_eq_nil_iff]
  constructor
  · intro h d hd
    obtain ⟨i, hi, rfl⟩ := List.mem_iff_getElem.mp hd
    exact under_eq_nil.mp (h (ds[i], i) (List.mk_mem_zipIdx_iff_getElem?.mpr (List.getElem?_eq_getElem hi)))
  · rintro h ⟨d, i⟩ hd
    exact under_eq_nil.mpr (h d (List.fst_mem_of_mem_zipIdx hd))

lemma type_string_eq_nil : type .string d = [] ↔ ∃ s, d = .str s := by
  rw [type, check_eq_nil]
  cases d <;> simp [Document.isOfType]

lemma text_eq_nil {p : Bytes → Bool} : all [type .string, pattern p] d = [] ↔ ∃ s, d = .str s ∧ p s = true := by
  rw [all_eq_nil, List.forall_mem_cons, List.forall_mem_singleton, type_string_eq_nil]
  constructor
  · rintro ⟨⟨s, rfl⟩, hp⟩
    exact ⟨s, rfl, check_eq_nil.mp hp⟩
  · rintro ⟨s, rfl, hp⟩
    exact ⟨⟨s, rfl⟩, check_eq_nil.mpr hp⟩

lemma isText_iff {p : Bytes → Bool} : d.isText p = true ↔ ∃ s, d = .str s ∧ p s = true := by
  cases d <;> simp [Document.isText]

end Schema

section Conforms

variable {digits : Digits} {kind : Schema} {m a : Dict} {d : Document}

structure Conforms (digits : Digits) (kind : Schema) (m : Dict) : Prop where
  schemaVersion : ∃ d, m.lookup (ascii "schema_version") = some d ∧ d.isOfType .integer = true ∧ minimum 1 d = []
  product : m.lookup (ascii "product") = some (.str (ascii "nsx-manager"))
  version : ∃ s, m.lookup (ascii "version") = some (.str s) ∧ Pattern.line (Pattern.semver digits) s = true
  tag : ∃ s, m.lookup (ascii "tag") = some (.str s) ∧ Pattern.line (Pattern.tag digits) s = true
  publishedAt : ∃ s, m.lookup (ascii "published_at") = some (.str s) ∧ Pattern.line (Pattern.isoUtc digits) s = true
  channel : ∃ s, m.lookup (ascii "channel") = some (.str s) ∧ [ascii "stable", ascii "beta"].contains s = true
  mandatory : ∃ b, m.lookup (ascii "mandatory") = some (.bool b)
  minSupported : ∃ s, m.lookup (ascii "min_supported") = some (.str s) ∧
    Pattern.line (Pattern.semver digits) s = true
  minAtmosphere : ∀ d, m.lookup (ascii "min_atmosphere") = some d →
    ∃ s, d = .str s ∧ Pattern.line (Pattern.semver digits) s = true
  changelogUrl : ∀ d, m.lookup (ascii "changelog_url") = some d →
    ∃ s, d = .str s ∧ (ascii "https://").isPrefixOf s = true
  releaseNotesUrl : ∀ d, m.lookup (ascii "release_notes_url") = some d →
    ∃ s, d = .str s ∧ (ascii "https://").isPrefixOf s = true
  assets : ∃ items, m.lookup (ascii "assets") = some (.list items) ∧ items ≠ [] ∧ ∀ a ∈ items, assetSchema kind a = []

lemma object_eq_nil {keys : List Bytes} {schemas : List (Bytes × Schema)} :
    all [type .object, required keys, properties schemas] (.dict m) = [] ↔
      (∀ key ∈ keys, ∃ d, m.lookup key = some d) ∧
        ∀ entry ∈ schemas, ∀ d, m.lookup entry.1 = some d → entry.2 d = [] := by
  rw [all_eq_nil]
  simp only [List.forall_mem_cons, required_eq_nil, properties_eq_nil]
  have htype : type .object (.dict m) = [] := check_eq_nil.mpr rfl
  simp [htype]

lemma type_boolean_eq_nil : type .boolean d = [] ↔ ∃ b, d = .bool b := by
  rw [type, check_eq_nil]
  cases d <;> simp [Document.isOfType]

lemma array_eq_nil {schema : Schema} : all [type .array, minItems 1, items schema] d = [] ↔
    ∃ ds, d = .list ds ∧ ds ≠ [] ∧ ∀ d ∈ ds, schema d = [] := by
  rw [all_eq_nil]
  simp only [List.forall_mem_cons, type, minItems, check_eq_nil]
  cases d with
  | list ds => simp [Document.isOfType, items_eq_nil, Nat.one_le_iff_ne_zero]
  | _ => simp [Document.isOfType]

lemma text_of_field {key : Bytes} {p : Bytes → Bool} (hkey : ∃ d, m.lookup key = some d)
    (hp : ∀ d, m.lookup key = some d → ∃ s, d = .str s ∧ p s = true) :
    ∃ s, m.lookup key = some (.str s) ∧ p s = true := by
  obtain ⟨d, hd⟩ := hkey
  obtain ⟨s, rfl, hs⟩ := hp d hd
  exact ⟨s, hd, hs⟩

lemma field_of_text {key : Bytes} {p : Bytes → Bool} (h : ∃ s, m.lookup key = some (.str s) ∧ p s = true) :
    ∀ d, m.lookup key = some d → ∃ s, d = .str s ∧ p s = true := by
  obtain ⟨s, hd, hs⟩ := h
  exact fun d hd' => ⟨s, Option.some.inj (hd'.symm.trans hd), hs⟩

lemma integer_eq_nil {schema : Schema} : all [type .integer, schema] d = [] ↔
    d.isOfType .integer = true ∧ schema d = [] := by
  rw [all_eq_nil, List.forall_mem_cons, List.forall_mem_singleton, type, check_eq_nil]

lemma manifestSchema_eq_nil : manifestSchema digits kind (.dict m) = [] ↔ Conforms digits kind m := by
  rw [manifestSchema, object_eq_nil]
  simp only [manifestRequired, manifestProperties, List.forall_mem_cons, versionSchema, httpsSchema, text_eq_nil,
    integer_eq_nil, array_eq_nil, type_boolean_eq_nil, const, enum, check_eq_nil, isText_iff]
  constructor
  · rintro ⟨⟨⟨d, hd⟩, hproduct, hversion, htag, hpub, hchannel, ⟨b, hb⟩, hmin, ⟨l, hl⟩, _⟩,
      hschema', hproduct', hversion', htag', hpub', hchannel', hmandatory', hmin', hatmosphere', hlog', hnotes', hassets', _⟩
    obtain ⟨product, hproduct, hname⟩ := text_of_field hproduct hproduct'
    obtain ⟨mandatory, rfl⟩ := hmandatory' b hb
    obtain ⟨items, rfl, hitems⟩ := hassets' l hl
    exact
      { schemaVersion := ⟨d, hd, hschema' d hd⟩
        product := beq_iff_eq.mp hname ▸ hproduct
        version := text_of_field hversion hversion'
        tag := text_of_field htag htag'
        publishedAt := text_of_field hpub hpub'
        channel := text_of_field hchannel hchannel'
        mandatory := ⟨mandatory, hb⟩
        minSupported := text_of_field hmin hmin'
        minAtmosphere := hatmosphere'
        changelogUrl := hlog'
        releaseNotesUrl := hnotes'
        assets := ⟨items, hl, hitems⟩ }
  · intro h
    obtain ⟨d, hd, hschema⟩ := h.schemaVersion
    obtain ⟨b, hb⟩ := h.mandatory
    obtain ⟨items, hl, hitems⟩ := h.assets
    have hhas : ∀ {key : Bytes} {p : Bytes → Bool}, (∃ s, m.lookup key = some (.str s) ∧ p s = true) →
        ∃ d, m.lookup key = some d := fun ⟨s, hs, _⟩ => ⟨_, hs⟩
    refine ⟨⟨⟨d, hd⟩, ⟨_, h.product⟩, hhas h.version, hhas h.tag, hhas h.publishedAt, hhas h.channel, ⟨_, hb⟩,
      hhas h.minSupported, ⟨_, hl⟩, by simp⟩, ?_, ?_, field_of_text h.version, field_of_text h.tag,
      field_of_text h.publishedAt, field_of_text h.channel, ?_, field_of_text h.minSupported, h.minAtmosphere,
      h.changelogUrl, h.releaseNotesUrl, ?_, by simp⟩
    · exact fun d' hd' => Option.some.inj (hd.symm.trans hd') ▸ hschema
    · exact field_of_text ⟨_, h.product, beq_self_eq_true _⟩
    · exact fun d' hd' => ⟨b, Option.some.inj (hd'.symm.trans hb)⟩
    · exact fun d' hd' => ⟨items, Option.some.inj (hd'.symm.trans hl), hitems⟩

structure ConformingAsset (kind : Schema) (a : Dict) : Prop where
  name : ∃ s, a.lookup (ascii "name") = some (.str s) ∧
    (decide (1 ≤ s.countP (!isContinuation ·)) && Pattern.line Pattern.assetName s) = true
  kind : ∃ d, a.lookup (ascii "kind") = some d ∧ kind d = []
  url : ∃ s, a.lookup (ascii "url") = some (.str s) ∧ (ascii "https://github.com/").isPrefixOf s = true
  size : ∃ d, a.lookup (ascii "size") = some d ∧ d.isOfType .integer = true ∧ exclusiveMinimum 0 d = []
  sha256 : ∃ s, a.lookup (ascii "sha256") = some (.str s) ∧ Pattern.line Pattern.sha256 s = true

lemma name_eq_nil {n : ℕ} {p : Bytes → Bool} : all [type .string, minLength n, pattern p] d = [] ↔
    ∃ s, d = .str s ∧ (decide (n ≤ s.countP (!isContinuation ·)) && p s) = true := by
  rw [all_eq_nil]
  simp only [List.forall_mem_cons, type, minLength, pattern, check_eq_nil]
  cases d with
  | str s => simp [Document.isOfType]
  | _ => simp [Document.isOfType]

lemma assetSchema_dict_eq_nil : assetSchema kind (.dict a) = [] ↔ ConformingAsset kind a := by
  rw [assetSchema, object_eq_nil]
  simp only [assetRequired, assetProperties, List.forall_mem_cons, text_eq_nil, integer_eq_nil, name_eq_nil]
  constructor
  · rintro ⟨⟨hname, ⟨k, hk⟩, hurl, ⟨n, hn⟩, hsha, _⟩, hname', hkind', hurl', hsize', hsha', _⟩
    exact ⟨text_of_field hname hname', ⟨k, hk, hkind' k hk⟩, text_of_field hurl hurl', ⟨n, hn, hsize' n hn⟩,
      text_of_field hsha hsha'⟩
  · rintro ⟨hname, ⟨k, hk, hkind⟩, hurl, ⟨n, hn, hsize⟩, hsha⟩
    have hhas : ∀ {key : Bytes} {p : Bytes → Bool}, (∃ s, a.lookup key = some (.str s) ∧ p s = true) →
        ∃ d, a.lookup key = some d := fun ⟨s, hs, _⟩ => ⟨_, hs⟩
    refine ⟨⟨hhas hname, ⟨k, hk⟩, hhas hurl, ⟨n, hn⟩, hhas hsha, by simp⟩, field_of_text hname, ?_, field_of_text hurl,
      ?_, field_of_text hsha, by simp⟩
    · exact fun d hd => Option.some.inj (hk.symm.trans hd) ▸ hkind
    · exact fun d hd => Option.some.inj (hn.symm.trans hd) ▸ hsize

lemma assetSchema_eq_nil : assetSchema kind d = [] ↔ ∃ a, d = .dict a ∧ ConformingAsset kind a := by
  constructor
  · intro h
    have htype := all_eq_nil.mp h (type .object) (by simp)
    rw [type, check_eq_nil] at htype
    cases d with
    | dict a => exact ⟨a, rfl, assetSchema_dict_eq_nil.mp h⟩
    | _ => simp [Document.isOfType] at htype
  · rintro ⟨a, rfl, ha⟩
    exact assetSchema_dict_eq_nil.mpr ha

end Conforms

end NsxManager.Release
