import NsxManager.Catalog.Document
import NsxManager.Core.JsonCodec

/-! The catalogue read entry by entry: which entries leave nothing, and that their order decides nothing. -/

namespace NsxManager.Catalog

open NsxManager.Core

def isSkipped : Json → Bool
  | .object entry =>
    match entry.lookup (ascii "kind") with
    | some (.string kind) =>
      match parseKind kind with
      | none => true
      | some _ =>
        match entry.lookup (ascii "target") with
        | some (.string target) => (parseTarget target).isNone
        | _ => false
    | _ => false
  | _ => false

def soleItems (entry : Json) : List Item :=
  match parseItem {} entry with
  | .ok out => out.items
  | .error _ => []

section Skipped

lemma requiredText_eq {entry : Members} {key text : Bytes} (h : entry.lookup key = some (.string text)) :
    requiredText entry key = .ok text := by
  have hhas : entry.has key = true := by
    rw [Members.has, h]
    rfl
  rw [requiredText, hhas, need_true, Parse.ok_bind, stringField_eq _ _ _ h]

lemma parseItem_of_isSkipped {v : Json} (h : isSkipped v = true) (out : Document) : parseItem out v = .ok out := by
  rw [isSkipped.eq_def] at h
  split at h
  · next entry =>
    split at h
    · next kind hkind =>
      rw [parseItem, requiredText_eq hkind, Parse.ok_bind]
      cases hknown : parseKind kind with
      | none => rfl
      | some known =>
        simp only [hknown] at h
        split at h
        · next target htarget =>
          simp only [requiredText_eq htarget, Parse.ok_bind, Option.isNone_iff_eq_none.mp h, Parse.pure_eq]
        · exact absurd h Bool.false_ne_true
    · exact absurd h Bool.false_ne_true
  · exact absurd h Bool.false_ne_true

lemma foldlM_parseItem_filter (entries : List Json) (out : Document) :
    (entries.filter (!isSkipped ·)).foldlM parseItem out = entries.foldlM parseItem out := by
  induction entries generalizing out with
  | nil => rfl
  | cons v entries ih =>
    rw [List.foldlM_cons, List.filter_cons]
    by_cases hskipped : isSkipped v = true
    · rw [if_neg (by simp [hskipped]), ih, parseItem_of_isSkipped hskipped, Parse.ok_bind]
    · rw [if_pos (by simp [hskipped]), List.foldlM_cons]
      exact congrArg (parseItem out v >>= ·) (funext ih)

end Skipped

section Ordered

variable {entry : Members} {kind : ContentKind} {target : Cfw.InstallTarget}

lemma itemFields_eq_ok_iff {out : Document} {item : Item} : itemFields out entry kind target = .ok item ↔
    itemFields {} entry kind target = .ok item ∧ out.find item.id = none := by
  rw [itemFields, itemFields]
  refine Parse.bind_eq_ok_and (fun _ => Parse.bind_eq_ok_and (fun id => ?_))
  refine Parse.bind_eq_ok_and (fun name => Parse.bind_eq_ok_and (fun url => Parse.bind_eq_ok_and (fun hex => ?_)))
  refine Parse.bind_eq_ok_and (fun _ => ?_)
  refine Parse.need_bind_eq_ok_and (P := fun item : Item => out.find item.id = none) ?_
  refine Parse.of_bind_eq_ok (fun _ => Parse.of_bind_eq_ok (fun size => Parse.of_bind_eq_ok (fun sha256 => ?_)))
  refine Parse.of_bind_eq_ok (fun summary => Parse.of_bind_eq_ok (fun version => ?_))
  refine Parse.of_bind_eq_ok (fun minAtmosphere => Parse.of_bind_eq_ok (fun notesUrl => ?_))
  refine Parse.of_bind_eq_ok (fun _ => Parse.of_bind_eq_ok (fun honoured item hitem => ?_))
  rw [← Except.ok.inj hitem]
  exact Option.isNone_iff_eq_none

lemma parseItem_eq_ok_iff {out out' : Document} {v : Json} : parseItem out v = .ok out' ↔
    ∃ sole, parseItem {} v = .ok sole ∧ (∀ item ∈ sole.items, out.find item.id = none) ∧
      out' = { out with items := out.items ++ sole.items } := by
  have hskipped : Except.ok out = (Except.ok out' : Parse CatalogError Document) ↔
      ∃ sole, (Except.ok {} : Parse CatalogError Document) = .ok sole ∧
        (∀ item ∈ sole.items, out.find item.id = none) ∧ out' = { out with items := out.items ++ sole.items } := by
    have hsame : { out with items := out.items ++ [] } = out := by rw [List.append_nil]
    constructor
    · intro h
      exact ⟨{}, rfl, by simp, (Except.ok.inj h).symm.trans hsame.symm⟩
    · rintro ⟨sole, hsole, -, rfl⟩
      rw [← Except.ok.inj hsole]
      exact congrArg Except.ok hsame.symm
  cases v with
  | object entry =>
    rw [parseItem, parseItem]
    cases requiredText entry (ascii "kind") with
    | error e => simp
    | ok kind =>
      simp only [Parse.ok_bind]
      cases parseKind kind with
      | none => exact hskipped
      | some kind =>
        cases requiredText entry (ascii "target") with
        | error e => simp
        | ok target =>
          simp only [Parse.ok_bind]
          cases parseTarget target with
          | none => exact hskipped
          | some target =>
            simp only [Parse.bind_eq_ok, Parse.pure_eq, Except.ok.injEq]
            constructor
            · rintro ⟨item, hitem, rfl⟩
              obtain ⟨hsole, hfresh⟩ := itemFields_eq_ok_iff.mp hitem
              exact ⟨_, ⟨item, hsole, rfl⟩, by simpa using hfresh, rfl⟩
            · rintro ⟨sole, ⟨item, hsole, rfl⟩, hfresh, rfl⟩
              exact ⟨item, itemFields_eq_ok_iff.mpr ⟨hsole, hfresh item (by simp)⟩, rfl⟩
  | _ => simp [parseItem]

lemma soleItems_eq {v : Json} {sole : Document} (h : parseItem {} v = .ok sole) : soleItems v = sole.items := by
  rw [soleItems, h]

lemma soleItems_cases (v : Json) : soleItems v = [] ∨
    ∃ entry kind target item, soleItems v = [item] ∧ itemFields {} entry kind target = .ok item := by
  cases hsole : parseItem {} v with
  | error e =>
    rw [soleItems, hsole]
    exact .inl rfl
  | ok sole =>
    rw [soleItems_eq hsole]
    cases v with
    | object entry =>
      obtain ⟨kind, -, hkind⟩ := Parse.bind_eq_ok.mp hsole
      split at hkind
      · exact .inl (by rw [← Except.ok.inj hkind])
      · obtain ⟨target, -, htarget⟩ := Parse.bind_eq_ok.mp hkind
        split at htarget
        · exact .inl (by rw [← Except.ok.inj htarget])
        · obtain ⟨item, hitem, hout⟩ := Parse.bind_eq_ok.mp htarget
          rw [← Except.ok.inj hout]
          exact .inr ⟨entry, _, _, item, rfl, hitem⟩
    | _ => exact absurd hsole (by simp [parseItem])

lemma nodup_soleItems (v : Json) : ((soleItems v).map (·.id)).Nodup := by
  rcases soleItems_cases v with hnone | ⟨_, _, _, item, hone, -⟩
  · rw [hnone]
    exact List.nodup_nil
  · rw [hone]
    exact List.nodup_singleton _

lemma find_eq_none_iff {out : Document} {id : Bytes} : out.find id = none ↔ id ∉ out.items.map (·.id) := by
  simp [Document.find]

lemma parseItem_eq_ok_iff_fresh {out out' : Document} {v : Json} (hout : (out.items.map (·.id)).Nodup) :
    parseItem out v = .ok out' ↔ (parseItem {} v).isOk = true ∧
      ((out.items ++ soleItems v).map (·.id)).Nodup ∧ out' = { out with items := out.items ++ soleItems v } := by
  have hfresh : ((out.items ++ soleItems v).map (·.id)).Nodup ↔ ∀ item ∈ soleItems v, out.find item.id = none := by
    simp only [find_eq_none_iff]
    rw [List.map_append, List.nodup_append']
    simp only [hout, nodup_soleItems, true_and, List.disjoint_right, List.forall_mem_map]
  rw [hfresh, parseItem_eq_ok_iff]
  cases hsole : parseItem {} v with
  | error e => simp [Except.isOk, Except.toBool]
  | ok sole => simp [Except.isOk, Except.toBool, soleItems_eq hsole]

lemma foldlM_parseItem_eq_ok_iff (entries : List Json) {out out' : Document} (hout : (out.items.map (·.id)).Nodup) :
    entries.foldlM parseItem out = .ok out' ↔ (∀ v ∈ entries, (parseItem {} v).isOk = true) ∧
      ((out.items ++ entries.flatMap soleItems).map (·.id)).Nodup ∧
      out' = { out with items := out.items ++ entries.flatMap soleItems } := by
  induction entries generalizing out with
  | nil =>
    rw [List.foldlM_nil, List.flatMap_nil, List.append_nil]
    exact ⟨fun h => ⟨by simp, hout, (Except.ok.inj h).symm⟩, fun h => congrArg Except.ok h.2.2.symm⟩
  | cons v entries ih =>
    rw [List.foldlM_cons, Parse.bind_eq_ok, List.flatMap_cons, ← List.append_assoc]
    constructor
    · rintro ⟨mid, hmid, hrest⟩
      obtain ⟨hok, hnodup, rfl⟩ := (parseItem_eq_ok_iff_fresh hout).mp hmid
      obtain ⟨hoks, hnodups, rfl⟩ := (ih hnodup).mp hrest
      exact ⟨List.forall_mem_cons.mpr ⟨hok, hoks⟩, hnodups, rfl⟩
    · rintro ⟨hoks, hnodups, rfl⟩
      obtain ⟨hok, hoks⟩ := List.forall_mem_cons.mp hoks
      have hnodup : ((out.items ++ soleItems v).map (·.id)).Nodup := by
        rw [List.map_append] at hnodups
        exact (List.nodup_append'.mp hnodups).1
      exact ⟨_, (parseItem_eq_ok_iff_fresh hout).mpr ⟨hok, hnodup, rfl⟩, (ih hnodup).mpr ⟨hoks, hnodups, rfl⟩⟩

end Ordered

section Documents

variable {doc doc' : Members} {entries entries' : List Json}

def preamble (doc : Members) : Parse CatalogError Bytes := do
  need .missingField (doc.has (ascii "schema_version"))
  let schema ← integerField .wrongType doc (ascii "schema_version")
  let schemaVersion ← schema.getInt
  need .unsupportedSchemaVersion (schemaVersion == kSupportedCatalogSchema)
  let updatedAt ← optionalText doc (ascii "updated_at")
  return updatedAt.getD []

def readItems (entries : List Json) (updatedAt : Bytes) : Parse CatalogError Document := do
  let out ← entries.foldlM parseItem { updatedAt }
  need .noItems (!out.items.isEmpty)
  return out

lemma readCatalog_eq (h : doc.lookup (ascii "items") = some (.array entries)) :
    readCatalog doc = preamble doc >>= readItems entries := by
  have hhas : doc.has (ascii "items") = true := by
    rw [Members.has, h]
    rfl
  have hindex : (doc.index (ascii "items") : Parse CatalogError Json) = .ok (.array entries) := by
    rw [Members.index, h]
  simp only [readCatalog, preamble, hhas, hindex, need_true, Parse.ok_bind, catalogItems, bind_assoc, Parse.pure_eq]
  rfl

lemma preamble_congr (h : ∀ key ≠ ascii "items", doc.lookup key = doc'.lookup key) : preamble doc = preamble doc' := by
  have hread : ∀ key ≠ ascii "items", doc.has key = doc'.has key ∧
      (doc.index key : Parse CatalogError Json) = doc'.index key := by
    intro key hkey
    rw [Members.has, Members.has, Members.index, Members.index, h key hkey]
    exact ⟨rfl, rfl⟩
  obtain ⟨hschema, hschema'⟩ := hread (ascii "schema_version") (by decide)
  obtain ⟨hupdated, hupdated'⟩ := hread (ascii "updated_at") (by decide)
  simp only [preamble, optionalText, integerField, stringField, hschema, hschema', hupdated, hupdated']

lemma readItems_eq_ok_iff {updatedAt : Bytes} {out : Document} : readItems entries updatedAt = .ok out ↔
    (∀ v ∈ entries, (parseItem {} v).isOk = true) ∧ ((entries.flatMap soleItems).map (·.id)).Nodup ∧
      entries.flatMap soleItems ≠ [] ∧ out = { updatedAt, items := entries.flatMap soleItems } := by
  have hfold := fun out' => @foldlM_parseItem_eq_ok_iff entries { updatedAt } out' List.nodup_nil
  simp only [List.nil_append] at hfold
  simp only [readItems, Parse.bind_eq_ok, hfold, need_eq_ok, Parse.pure_eq, Except.ok.injEq]
  constructor
  · rintro ⟨_, ⟨hoks, hnodup, rfl⟩, _, hsome, rfl⟩
    exact ⟨hoks, hnodup, by simpa using hsome, rfl⟩
  · rintro ⟨hoks, hnodup, hsome, rfl⟩
    exact ⟨_, ⟨hoks, hnodup, rfl⟩, (), by simpa using hsome, rfl⟩

lemma readItems_perm (h : entries.Perm entries') {updatedAt : Bytes} {out : Document}
    (hout : readItems entries updatedAt = .ok out) :
    readItems entries' updatedAt = .ok { out with items := entries'.flatMap soleItems } := by
  have hitems : (entries.flatMap soleItems).Perm (entries'.flatMap soleItems) := h.flatMap_right soleItems
  obtain ⟨hoks, hnodup, hsome, rfl⟩ := readItems_eq_ok_iff.mp hout
  refine readItems_eq_ok_iff.mpr ⟨fun v hv => hoks v (h.mem_iff.mpr hv), ?_, ?_, rfl⟩
  · exact (hitems.map _).nodup_iff.mp hnodup
  · exact fun hnil => hsome (hnil ▸ hitems).eq_nil

end Documents

theorem catalogue_is_read_item_by_item (J : JsonLibrary) (json json' : Bytes) (doc doc' : Members)
    (entries entries' : List Json) (hdoc : J.parse json = some (.object doc))
    (hdoc' : J.parse json' = some (.object doc')) (hentries : doc.lookup (ascii "items") = some (.array entries))
    (hentries' : doc'.lookup (ascii "items") = some (.array entries'))
    (hrest : ∀ key ≠ ascii "items", doc.lookup key = doc'.lookup key) :
    (entries.filter (!isSkipped ·) = entries'.filter (!isSkipped ·) → parseCatalog J json' = parseCatalog J json) ∧
      (entries.Perm entries' → ∀ out, parseCatalog J json = .ok out → out.items = entries.flatMap soleItems ∧
        parseCatalog J json' = .ok { out with items := entries'.flatMap soleItems } ∧
        out.items.Perm (entries'.flatMap soleItems)) := by
  have hread : parseCatalog J json = preamble doc >>= readItems entries := by
    rw [parseCatalog, hdoc]
    exact readCatalog_eq hentries
  have hread' : parseCatalog J json' = preamble doc >>= readItems entries' := by
    rw [parseCatalog, hdoc', preamble_congr hrest]
    exact readCatalog_eq hentries'
  constructor
  · intro hfilter
    have hitems : readItems entries' = readItems entries := by
      funext updatedAt
      rw [readItems, readItems, ← foldlM_parseItem_filter entries', ← hfilter, foldlM_parseItem_filter]
    rw [hread, hread', hitems]
  · intro hperm out hout
    obtain ⟨updatedAt, hpreamble, hitems⟩ := Parse.bind_eq_ok.mp (hread ▸ hout)
    have hsole : out.items = entries.flatMap soleItems := by
      obtain ⟨-, -, -, rfl⟩ := readItems_eq_ok_iff.mp hitems
      rfl
    refine ⟨hsole, ?_, hsole ▸ hperm.flatMap_right soleItems⟩
    rw [hread', hpreamble, Parse.ok_bind]
    exact readItems_perm hperm hitems

namespace Sample

def entryText (kind id : Bytes) : Bytes :=
  ascii "\x7b\"id\":\"" ++ id ++ ascii "\",\"kind\":\"" ++ kind ++ ascii "\",\"name\":\"A\",\"sha256\":\"" ++
    List.replicate 64 (byte '0') ++ ascii "\",\"size\":1,\"target\":\"sd-root\",\"url\":\"https://a\"\x7d"

def entry (kind id : Bytes) : Json :=
  .object [(ascii "id", .string id), (ascii "kind", .string kind), (ascii "name", .string (ascii "A")),
    (ascii "sha256", .string (List.replicate 64 (byte '0'))), (ascii "size", .unsigned 1),
    (ascii "target", .string (ascii "sd-root")), (ascii "url", .string (ascii "https://a"))]

def text (first second : Bytes) : Bytes :=
  ascii "\x7b\"items\":[" ++ first ++ ascii "," ++ second ++ ascii "],\"schema_version\":1\x7d"

def doc (entries : List Json) : Members := [(ascii "items", .array entries), (ascii "schema_version", .unsigned 1)]

def tool : Bytes := entryText (ascii "tool") (ascii "a")

def unknown : Bytes := entryText (ascii "plugin") (ascii "b")

end Sample

theorem an_unknown_kind_may_stand_anywhere :
    parseCatalog JsonCodec.library (Sample.text Sample.tool Sample.unknown) =
        parseCatalog JsonCodec.library (Sample.text Sample.unknown Sample.tool) ∧
      ∃ out, parseCatalog JsonCodec.library (Sample.text Sample.tool Sample.unknown) = .ok out := by
  have hsame : (JsonCodec.parse (Sample.text Sample.unknown Sample.tool)).any (·.same (.object (Sample.doc
        [Sample.entry (ascii "plugin") (ascii "b"), Sample.entry (ascii "tool") (ascii "a")]))) = true ∧
      (JsonCodec.parse (Sample.text Sample.tool Sample.unknown)).any (·.same (.object (Sample.doc
        [Sample.entry (ascii "tool") (ascii "a"), Sample.entry (ascii "plugin") (ascii "b")]))) = true ∧
      (parseCatalog JsonCodec.library (Sample.text Sample.unknown Sample.tool)).isOk = true := by
    decide +kernel
  have hrest : ∀ entries entries' : List Json, ∀ key ≠ ascii "items",
      (Sample.doc entries).lookup key = (Sample.doc entries').lookup key := by
    intro entries entries' key hkey
    have hne : (key == ascii "items") = false := beq_eq_false_iff_ne.mpr hkey
    simp only [Sample.doc, List.lookup_cons, hne]
  obtain ⟨hskipped, hordered⟩ := catalogue_is_read_item_by_item JsonCodec.library _ _ _ _ _ _
    (JsonCodec.parse_of_same hsame.1) (JsonCodec.parse_of_same hsame.2.1) rfl rfl (hrest _ _)
  refine ⟨hskipped rfl, ?_⟩
  cases hread : parseCatalog JsonCodec.library (Sample.text Sample.unknown Sample.tool) with
  | ok out => exact ⟨_, (hordered (.swap _ _ _) out hread).2.1⟩
  | error e => exact absurd hsame.2.2 (by rw [hread]; exact Bool.false_ne_true)

end NsxManager.Catalog
