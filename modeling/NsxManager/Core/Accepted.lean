import NsxManager.Core.Manifest

/-! The documents that are manifests to the client. -/

namespace NsxManager.Core

section Fields

variable {ε : Type} {e : ε} {doc : Members} {key : Bytes}

lemma index_eq_ok {v : Json} : (doc.index key : Parse ε Json) = .ok v ↔ doc.lookup key = some v := by
  rw [Members.index]
  cases doc.lookup key with
  | none => simp
  | some w => simp

lemma stringField_eq_ok {s : Bytes} : stringField e doc key = .ok s ↔ doc.lookup key = some (.string s) :=
  ⟨stringField_ok e doc key, stringField_eq e doc key⟩

lemma integerField_eq_ok {v : Json} :
    integerField e doc key = .ok v ↔ doc.lookup key = some v ∧ v.isNumberInteger = true := by
  simp only [integerField, Parse.bind_eq_ok, index_eq_ok, need_eq_ok, Parse.pure_eq, Except.ok.injEq]
  constructor
  · rintro ⟨w, hw, _, hint, rfl⟩
    exact ⟨hw, hint⟩
  · rintro ⟨hv, hint⟩
    exact ⟨v, hv, (), hint, rfl⟩

lemma has_iff : doc.has key = true ↔ ∃ v, doc.lookup key = some v := Option.isSome_iff_exists

end Fields

structure EntryReads (entry : Members) (name kind url : Bytes) (size : UInt64) (sha256 : Digest) : Prop where
  bare : isBareFilename name = true
  release : isReleaseUrl url = true
  nonempty : size ≠ 0
  name : entry.lookup (ascii "name") = some (.string name)
  kind : entry.lookup (ascii "kind") = some (.string kind)
  url : entry.lookup (ascii "url") = some (.string url)
  size : entry.lookup (ascii "size") = some (.unsigned size)
  sha256 : ∃ hex, entry.lookup (ascii "sha256") = some (.string hex) ∧ fromHex hex = some sha256

lemma assetDigest_eq_ok {hex : Bytes} {sha256 : Digest} : assetDigest hex = .ok sha256 ↔ fromHex hex = some sha256 := by
  rw [assetDigest]
  cases fromHex hex with
  | none => simp
  | some d => simp

lemma assetFields_eq_ok {entry : Members} {asset : Option ManifestAsset} : assetFields entry = .ok asset ↔
    ∃ name kind url size sha256, EntryReads entry name kind url size sha256 ∧
      asset = (parseKind kind).map (fun kind => ⟨name, kind, url, size, sha256⟩) := by
  simp only [assetFields, Parse.bind_eq_ok, need_eq_ok, stringField_eq_ok, index_eq_ok, assetDigest_eq_ok,
    Parse.pure_eq, Except.ok.injEq]
  constructor
  · rintro ⟨_, _, name, hname, kind, hkind, url, hurl, hex, hhex, _, hbare, _, hrelease, sha256, hsha, v, hv, _, hint,
      size, hsize, _, hpos, rfl⟩
    have hunsigned : v = .unsigned size := by
      cases v <;> simp_all [Json.isNumberUnsigned, Json.getUInt64]
    exact ⟨name, kind, url, size, sha256,
      ⟨hbare, hrelease, by simpa using hpos, hname, hkind, hurl, hunsigned ▸ hv, hex, hhex, hsha⟩, rfl⟩
  · rintro ⟨name, kind, url, size, sha256, ⟨hbare, hrelease, hpos, hname, hkind, hurl, hsize, hex, hhex, hsha⟩, rfl⟩
    have hkeys : assetKeys.all entry.has = true := by
      simp [assetKeys, Members.has, hname, hkind, hurl, hsize, hhex]
    exact ⟨(), hkeys, name, hname, kind, hkind, url, hurl, hex, hhex, (), hbare, (), hrelease, sha256, hsha, _, hsize, (),
      rfl, size, rfl, (), by simpa using hpos, rfl⟩

structure DocumentReads (doc : Members) (m : UpdateManifest) : Prop where
  schema : ∃ v, doc.lookup (ascii "schema_version") = some v ∧ v.isNumberInteger = true ∧
    (v.getInt : Parse ManifestError Int32) = .ok m.schemaVersion
  supported : m.schemaVersion = kSupportedManifestSchema
  product : doc.lookup (ascii "product") = some (.string kProduct)
  version : ∃ s, doc.lookup (ascii "version") = some (.string s) ∧ parseSemVer s = .ok m.version ∧ m.tag = byte 'v' :: s
  tag : doc.lookup (ascii "tag") = some (.string m.tag)
  minSupported : ∃ s, doc.lookup (ascii "min_supported") = some (.string s) ∧ parseSemVer s = .ok m.minSupported
  publishedAt : doc.lookup (ascii "published_at") = some (.string m.publishedAt)
  timestamp : isIso8601Utc m.publishedAt = true
  channel : ∃ s, doc.lookup (ascii "channel") = some (.string s) ∧ parseChannel s = .ok m.channel
  mandatory : doc.lookup (ascii "mandatory") = some (.boolean m.mandatory)
  minAtmosphere : manifestAtmosphere doc = .ok m.minAtmosphere
  changelogUrl : manifestText doc (ascii "changelog_url") = .ok m.changelogUrl
  releaseNotesUrl : manifestText doc (ascii "release_notes_url") = .ok m.releaseNotesUrl
  assets : ∃ v, doc.lookup (ascii "assets") = some v ∧ manifestAssets v = .ok m.assets

lemma manifestVersion_eq_ok {s : Bytes} {v : SemVer} : manifestVersion s = .ok v ↔ parseSemVer s = .ok v := by
  rw [manifestVersion]
  cases parseSemVer s with
  | error e => simp
  | ok w => simp

lemma manifestFields_eq_ok {doc : Members} {m : UpdateManifest} : manifestFields doc = .ok m ↔ DocumentReads doc m := by
  simp only [manifestFields, Parse.bind_eq_ok, need_eq_ok, stringField_eq_ok, integerField_eq_ok, index_eq_ok,
    manifestVersion_eq_ok, Parse.pure_eq, Except.ok.injEq]
  constructor
  · rintro ⟨_, _, v, ⟨hv, hint⟩, n, hn, _, hsupported, _, _, product, hproduct, _, hname, _, _, s, hs, s', hs', version,
      hversion, minSupported, hmin, tag, htag, _, hcut, at', hat, _, hiso, ch, hch, channel, hchannel, b, hb, _, hbool,
      mandatory, hmandatory, atmosphere, hatmosphere, log, hlog, notes, hnotes, listed, hlisted, assets, hassets, rfl⟩
    have hboolean : b = .boolean mandatory := by
      cases b <;> simp_all [Json.isBoolean, Json.getBool]
    have htext : tag = byte 'v' :: s := by
      simp only [Bool.and_eq_true, decide_eq_true_eq, beq_iff_eq] at hcut
      obtain ⟨rest, rfl⟩ := List.head?_eq_some_iff.mp hcut.1.2
      rw [List.drop_one, List.tail_cons] at hcut
      rw [hcut.2]
    exact
      { schema := ⟨v, hv, hint, hn⟩
        supported := by simpa using hsupported
        product := beq_iff_eq.mp hname ▸ hproduct
        version := ⟨s, hs, hversion, htext⟩
        tag := htag
        minSupported := ⟨s', hs', hmin⟩
        publishedAt := hat
        timestamp := hiso
        channel := ⟨ch, hch, hchannel⟩
        mandatory := hboolean ▸ hb
        minAtmosphere := hatmosphere
        changelogUrl := hlog
        releaseNotesUrl := hnotes
        assets := ⟨listed, hlisted, hassets⟩ }
  · rintro ⟨⟨v, hv, hint, hn⟩, hsupported, hproduct, ⟨s, hs, hversion, htext⟩, htag, ⟨s', hs', hmin⟩, hat, hiso,
      ⟨ch, hch, hchannel⟩, hmandatory, hatmosphere, hlog, hnotes, listed, hlisted, hassets⟩
    have hkeys : manifestKeys.all doc.has = true := by
      simp [manifestKeys, Members.has, hs, hs', htag, hat, hch, hmandatory, hlisted]
    have hne : s ≠ [] := by
      rintro rfl
      exact absurd hversion (by simp [parseSemVer, SemVer.stripV])
    have hcut : (2 ≤ m.tag.length && m.tag.head? == some (byte 'v') && m.tag.drop 1 == s) = true := by
      have hpos : 0 < s.length := List.length_pos_iff.mpr hne
      rw [htext]
      simp
      omega
    exact ⟨(), has_iff.mpr ⟨v, hv⟩, v, ⟨hv, hint⟩, m.schemaVersion, hn, (), by simpa using hsupported, (),
      has_iff.mpr ⟨_, hproduct⟩, kProduct, hproduct, (), by simp, (), hkeys, s, hs, s', hs', _, hversion, _, hmin, m.tag,
      htag, (), hcut, _, hat, (), hiso, ch, hch, _, hchannel, _, hmandatory, (), rfl, m.mandatory, rfl, _, hatmosphere, _,
      hlog, _, hnotes, listed, hlisted, _, hassets, rfl⟩

section Optional

variable {doc : Members} {key : Bytes}

lemma manifestText_isOk : (∃ s, manifestText doc key = .ok s) ↔ ∀ v, doc.lookup key = some v → ∃ s, v = .string s := by
  rw [manifestText, Members.has]
  cases hv : doc.lookup key with
  | none => simp
  | some v =>
    simp only [Option.isSome_some, if_true, stringField_eq_ok, hv, Option.some.injEq, forall_eq']

lemma manifestAtmosphere_isOk : (∃ v, manifestAtmosphere doc = .ok v) ↔
    ∀ v, doc.lookup (ascii "min_atmosphere") = some v → ∃ s, v = .string s ∧ ∃ version, parseSemVer s = .ok version := by
  rw [manifestAtmosphere, Members.has]
  cases hv : doc.lookup (ascii "min_atmosphere") with
  | none => simp
  | some v =>
    simp only [Option.isSome_some, if_true, Parse.bind_eq_ok, stringField_eq_ok, manifestVersion_eq_ok, hv,
      Option.some.injEq, forall_eq', Parse.pure_eq, Except.ok.injEq]
    constructor
    · rintro ⟨_, s, hs, version, hversion, _⟩
      exact ⟨s, hs, version, hversion⟩
    · rintro ⟨s, hs, version, hversion⟩
      exact ⟨some version, s, hs, version, hversion, rfl⟩

end Optional

section Assets

lemma mapM_eq_ok {ε α β : Type} {f : α → Parse ε β} {l : List α} {r : List β} :
    l.mapM f = .ok r ↔ List.Forall₂ (fun a b => f a = .ok b) l r := by
  induction l generalizing r with
  | nil =>
    rw [List.mapM_nil, Parse.pure_eq, Except.ok.injEq, List.forall₂_nil_left_iff, eq_comm]
  | cons a l ih =>
    simp only [List.mapM_cons, Parse.bind_eq_ok, Parse.pure_eq, Except.ok.injEq, List.forall₂_cons_left_iff, ih]
    constructor
    · rintro ⟨b, hb, s, hs, rfl⟩
      exact ⟨b, s, hb, hs, rfl⟩
    · rintro ⟨b, s, hb, hs, rfl⟩
      exact ⟨b, hb, s, hs, rfl⟩

lemma manifestAssets_eq_ok {v : Json} {assets : List ManifestAsset} : manifestAssets v = .ok assets ↔
    ∃ entries read, v = .array entries ∧ entries ≠ [] ∧ entries.mapM parseAsset = .ok read ∧
      assets = read.filterMap id := by
  constructor
  · intro h
    unfold manifestAssets at h
    split at h
    · cases h
    · next entries hne =>
      obtain ⟨read, hread, hassets⟩ := Parse.bind_eq_ok.mp h
      exact ⟨entries, read, rfl, hne, hread, (Except.ok.inj hassets).symm⟩
    · cases h
  · rintro ⟨entries, read, rfl, hne, hread, rfl⟩
    obtain ⟨e, entries, rfl⟩ := List.exists_cons_of_ne_nil hne
    rw [manifestAssets, hread]
    · rfl
    · simp

def AcceptedEntry (v : Json) (kind : Bytes) : Prop :=
  ∃ entry name url size sha256, v = .object entry ∧ EntryReads entry name kind url size sha256

lemma parseAsset_eq_ok {v : Json} {asset : Option ManifestAsset} : parseAsset v = .ok asset ↔
    ∃ entry name kind url size sha256, v = .object entry ∧ EntryReads entry name kind url size sha256 ∧
      asset = (parseKind kind).map (fun kind => ⟨name, kind, url, size, sha256⟩) := by
  cases v with
  | object entry =>
    rw [parseAsset, assetFields_eq_ok]
    constructor
    · rintro ⟨name, kind, url, size, sha256, hreads, hasset⟩
      exact ⟨entry, name, kind, url, size, sha256, rfl, hreads, hasset⟩
    · rintro ⟨_, name, kind, url, size, sha256, hentry, hreads, hasset⟩
      obtain rfl := Json.object.inj hentry
      exact ⟨name, kind, url, size, sha256, hreads, hasset⟩
  | _ => simp [parseAsset]

lemma parseAsset_isOk {v : Json} : (∃ asset, parseAsset v = .ok asset) ↔ ∃ kind, AcceptedEntry v kind := by
  simp only [parseAsset_eq_ok]
  constructor
  · rintro ⟨_, entry, name, kind, url, size, sha256, hv, hreads, _⟩
    exact ⟨kind, entry, name, url, size, sha256, hv, hreads⟩
  · rintro ⟨kind, entry, name, url, size, sha256, hv, hreads⟩
    exact ⟨_, entry, name, kind, url, size, sha256, hv, hreads, rfl⟩

lemma exists_of_forall₂ {α β : Type} {R : α → β → Prop} {l : List α} {r : List β} (h : List.Forall₂ R l r) :
    (∀ a ∈ l, ∃ b ∈ r, R a b) ∧ ∀ b ∈ r, ∃ a ∈ l, R a b := by
  induction h with
  | nil => simp
  | cons hab _ ih =>
    simp only [List.forall_mem_cons, List.exists_mem_cons_iff]
    exact ⟨⟨.inl hab, fun a ha => .inr (ih.1 a ha)⟩, .inl hab, fun b hb => .inr (ih.2 b hb)⟩

lemma mapM_isOk {ε α β : Type} {f : α → Parse ε β} {l : List α} :
    (∃ r, l.mapM f = .ok r) ↔ ∀ a ∈ l, ∃ b, f a = .ok b := by
  simp only [mapM_eq_ok]
  constructor
  · rintro ⟨r, hr⟩ a ha
    obtain ⟨b, _, hb⟩ := (exists_of_forall₂ hr).1 a ha
    exact ⟨b, hb⟩
  · intro h
    induction l with
    | nil => exact ⟨[], .nil⟩
    | cons a l ih =>
      obtain ⟨⟨b, hb⟩, hl⟩ := List.forall_mem_cons.mp h
      obtain ⟨r, hr⟩ := ih hl
      exact ⟨b :: r, .cons hb hr⟩

lemma parseKind_eq_appNro {kind : Bytes} : parseKind kind = some .appNro ↔ kind = ascii "app-nro" := by
  rw [parseKind]
  split_ifs with h₁ h₂ h₃ <;> simp [h₁]

lemma manifestAssets_isOk {v : Json} :
    (∃ assets, manifestAssets v = .ok assets ∧ ∃ asset ∈ assets, asset.kind = .appNro) ↔
      ∃ entries, v = .array entries ∧ (∀ e ∈ entries, ∃ kind, AcceptedEntry e kind) ∧
        ∃ e ∈ entries, AcceptedEntry e (ascii "app-nro") := by
  simp only [manifestAssets_eq_ok]
  constructor
  · rintro ⟨_, ⟨entries, read, rfl, _, hread, rfl⟩, asset, hasset, hkind⟩
    refine ⟨entries, rfl, fun e he => parseAsset_isOk.mp (mapM_isOk.mp ⟨read, hread⟩ e he), ?_⟩
    have hmem : some asset ∈ read := by simpa using hasset
    obtain ⟨e, he, hparse⟩ := (exists_of_forall₂ (mapM_eq_ok.mp hread)).2 _ hmem
    obtain ⟨entry, name, kind, url, size, sha256, hv, hreads, hsome⟩ := parseAsset_eq_ok.mp hparse
    obtain ⟨k, hk, rfl⟩ := Option.map_eq_some_iff.mp hsome.symm
    have happ : kind = ascii "app-nro" := parseKind_eq_appNro.mp (hk.trans (congrArg some hkind))
    exact ⟨e, he, entry, name, url, size, sha256, hv, happ ▸ hreads⟩
  · rintro ⟨entries, rfl, hall, e, he, entry, name, url, size, sha256, rfl, hreads⟩
    obtain ⟨read, hread⟩ := mapM_isOk.mpr (fun e he => parseAsset_isOk.mpr (hall e he))
    refine ⟨_, ⟨entries, read, rfl, List.ne_nil_of_mem he, hread, rfl⟩, ⟨name, .appNro, url, size, sha256⟩, ?_, rfl⟩
    obtain ⟨asset, hmem, hparse⟩ := (exists_of_forall₂ (mapM_eq_ok.mp hread)).1 _ he
    have hparse' := parseAsset_eq_ok.mpr ⟨entry, name, _, url, size, sha256, rfl, hreads, rfl⟩
    obtain rfl := Except.ok.inj (hparse.symm.trans hparse')
    rw [parseKind_eq_appNro.mpr rfl] at hmem
    simpa using hmem

end Assets

lemma readManifest_isOk {doc : Members} : (∃ m, readManifest doc = .ok m) ↔
    ∃ m, DocumentReads doc m ∧ ∃ asset ∈ m.assets, asset.kind = .appNro := by
  have hfind : ∀ m : UpdateManifest, (m.findAsset .appNro).isSome = true ↔ ∃ asset ∈ m.assets, asset.kind = .appNro := by
    intro m
    simp [UpdateManifest.findAsset, List.find?_isSome]
  simp only [readManifest, Parse.bind_eq_ok, need_eq_ok, manifestFields_eq_ok, Parse.pure_eq, Except.ok.injEq, hfind]
  constructor
  · rintro ⟨_, m, hm, _, happ, _⟩
    exact ⟨m, hm, happ⟩
  · rintro ⟨m, hm, happ⟩
    exact ⟨m, m, hm, (), happ, rfl⟩

end NsxManager.Core
