import NsxManager.Release.Validator
import NsxManager.Core.Accepted
import NsxManager.Core.JsonCodec

/-! What the release tool passes and what the client reads. -/

namespace NsxManager.Release

open NsxManager.Core NsxManager.Core.SemVer Schema

section Passed

variable {py : Python} {m a : Dict} {d : Document} {app : Bool}

lemma complain_eq_nil {valid : Bool} {message : Bytes} : complain valid message = [] ↔ valid = true := by
  cases valid <;> simp [complain]

lemma Dict.get_eq {key : Bytes} (h : m.get key ≠ .null) : m.lookup key = some (m.get key) := by
  rw [Dict.get] at h ⊢
  cases hd : m.lookup key with
  | none => simp [hd] at h
  | some d => rfl

lemma Dict.get_of_lookup {key : Bytes} (h : m.lookup key = some d) : m.get key = d := by
  rw [Dict.get, h]
  rfl

structure PassedAsset (a : Dict) (app : Bool) : Prop where
  name : ∃ s, a.lookup (ascii "name") = some (.str s) ∧ isBareName s = true
  size : ∃ n, a.lookup (ascii "size") = some (.int false n) ∧ n ≠ 0
  kind : app = true → a.lookup (ascii "kind") = some (.str (ascii "app-nro"))

lemma name_of_nameCheck {place : Bytes} (h : nameCheck py place a = []) :
    ∃ s, a.lookup (ascii "name") = some (.str s) ∧ isBareName s = true := by
  unfold nameCheck at h
  split at h
  · next c name hname =>
    exact ⟨c :: name, by rw [Dict.get_eq (by simp [hname]), hname], complain_eq_nil.mp h⟩
  · cases h

lemma size_of_sizeCheck {place : Bytes} (h : sizeCheck py place a = []) :
    ∃ n, a.lookup (ascii "size") = some (.int false n) ∧ n ≠ 0 := by
  have hvalid := complain_eq_nil.mp h
  split at hvalid
  · next minus n hsize =>
    rw [decide_eq_true_eq] at hvalid
    cases minus with
    | true => simp [Document.intValue] at hvalid; omega
    | false =>
      refine ⟨n, by rw [Dict.get_eq (by simp [hsize]), hsize], ?_⟩
      simp [Document.intValue] at hvalid
      omega
  · cases hvalid

lemma kind_of_kindCheck {place : Bytes} (h : kindCheck py place a = some ([], true)) :
    a.lookup (ascii "kind") = some (.str (ascii "app-nro")) := by
  unfold kindCheck at h
  split at h
  · cases h
  · cases h
  · split at h
    · simp only [Option.some.injEq, Prod.mk.injEq, true_and] at h
      obtain ⟨s, hs, happ⟩ := isText_iff.mp h
      rw [Dict.get_eq (by simp [hs]), hs, beq_iff_eq.mp happ]
    · simp at h

lemma passedAsset_of_assetCheck {i : ℕ} (h : assetCheck py i (.dict a) = some ([], app)) : PassedAsset a app := by
  simp only [assetCheck, Option.map_eq_some_iff, Prod.exists, Prod.mk.injEq, List.append_eq_nil_iff] at h
  obtain ⟨complaints, app', hkind, ⟨⟨⟨⟨hname, _⟩, _⟩, hsize⟩, rfl⟩, rfl⟩ := h
  refine ⟨name_of_nameCheck hname, size_of_sizeCheck hsize, ?_⟩
  rintro rfl
  exact kind_of_kindCheck hkind

lemma assetLoop_eq_nil {i : ℕ} {items : List Document} {seenApp : Bool}
    (h : assetLoop py i items = some ([], seenApp)) :
    (∀ d ∈ items, ∃ i app, assetCheck py i d = some ([], app)) ∧
      (seenApp = true → ∃ d ∈ items, ∃ i, assetCheck py i d = some ([], true)) := by
  induction items generalizing i seenApp with
  | nil => simp_all [assetLoop]
  | cons d items ih =>
    simp only [assetLoop, Option.bind_eq_bind, Option.bind_eq_some_iff, Prod.exists, Option.pure_def, Option.some.injEq,
      Prod.mk.injEq, List.append_eq_nil_iff] at h
    obtain ⟨_, app, hd, _, seenApp', hrest, ⟨rfl, rfl⟩, rfl⟩ := h
    obtain ⟨hall, happ⟩ := ih hrest
    refine ⟨List.forall_mem_cons.mpr ⟨⟨i, app, hd⟩, hall⟩, fun hor => ?_⟩
    rcases Bool.or_eq_true_iff.mp hor with rfl | hseen
    · exact ⟨d, List.mem_cons_self, i, hd⟩
    · obtain ⟨d', hd', hi⟩ := happ hseen
      exact ⟨d', List.mem_cons_of_mem d hd', hi⟩

structure Passed (py : Python) (m : Dict) : Prop where
  conforms : Conforms py.digits kindSchema m
  schemaVersion : (m.get (ascii "schema_version")).equals 1 = true
  tag : ∃ s, m.lookup (ascii "version") = some (.str s) ∧ m.lookup (ascii "tag") = some (.str (byte 'v' :: s))
  assets : ∀ items, m.lookup (ascii "assets") = some (.list items) →
    (∀ a, .dict a ∈ items → ∃ app, PassedAsset a app) ∧ ∃ a, .dict a ∈ items ∧ PassedAsset a true

lemma tag_of_tagCheck {version tag : Bytes} (hversion : m.lookup (ascii "version") = some (.str version))
    (htag : m.lookup (ascii "tag") = some (.str tag)) (h : tagCheck py m = []) : tag = byte 'v' :: version := by
  simp only [tagCheck, Dict.get_of_lookup hversion, Dict.get_of_lookup htag] at h
  split at h
  · next hv =>
    have hcut : tag.drop 1 = version := beq_iff_eq.mp (complain_eq_nil.mp h)
    obtain ⟨rest, rfl⟩ := List.isPrefixOf_iff_prefix.mp hv
    rw [← hcut]
    rfl
  · cases h

lemma semanticChecks_eq_nil (h : semanticChecks py m = some []) : (m.get (ascii "schema_version")).equals 1 = true ∧
    tagCheck py m = [] ∧ ∃ items, m.get (ascii "assets") = .list items ∧ assetLoop py 0 items = some ([], true) := by
  unfold semanticChecks at h
  split at h
  · cases h
  · next hschema =>
    refine ⟨by simpa using hschema, ?_⟩
    split at h
    · next items hitems =>
      simp only [Option.map_eq_some_iff, Prod.exists, List.append_eq_nil_iff, complain_eq_nil] at h
      obtain ⟨_, _, hloop, ⟨⟨⟨⟨⟨_, htag⟩, _⟩, _⟩, _⟩, rfl⟩, rfl⟩ := h
      exact ⟨htag, items, hitems, hloop⟩
    · simp at h

lemma passed_of_validate {bytes : Bytes} (hm : py.loads bytes = .ok (.dict m)) (h : validate py true bytes = some []) :
    Passed py m := by
  simp only [validate, hm, if_true, Option.map_eq_some_iff, List.append_eq_nil_iff, schemaReport,
    List.map_eq_nil_iff] at h
  obtain ⟨_, hsemantic, hsorted, rfl⟩ := h
  have hschema : updateSchema py.digits (.dict m) = [] := by
    rw [← List.length_eq_zero_iff, List.length_mergeSort] at hsorted
    exact List.length_eq_zero_iff.mp hsorted
  have hconforms := manifestSchema_eq_nil.mp hschema
  obtain ⟨hversion, htag, items, hitems, hloop⟩ := semanticChecks_eq_nil hsemantic
  obtain ⟨version, hv, _⟩ := hconforms.version
  obtain ⟨tag, ht, _⟩ := hconforms.tag
  refine ⟨hconforms, hversion, ⟨version, hv, tag_of_tagCheck hv ht htag ▸ ht⟩, fun items' hitems' => ?_⟩
  obtain rfl : items = items' := Document.list.inj (hitems.symm.trans (Dict.get_of_lookup hitems'))
  obtain ⟨hall, happ⟩ := assetLoop_eq_nil hloop
  constructor
  · intro a ha
    obtain ⟨i, app, hcheck⟩ := hall _ ha
    exact ⟨app, passedAsset_of_assetCheck hcheck⟩
  · obtain ⟨d, hd, i, hcheck⟩ := happ rfl
    cases d with
    | dict a => exact ⟨a, hd, passedAsset_of_assetCheck hcheck⟩
    | _ => simp [assetCheck] at hcheck

end Passed

section Portable

structure PortableAsset (a : Dict) : Prop where
  name : ∀ s, a.lookup (ascii "name") = some (.str s) → s.getLast? ≠ some (byte '\n')
  url : ∀ s, a.lookup (ascii "url") = some (.str s) → s ≠ ascii "https://github.com/"
  sha256 : ∀ s, a.lookup (ascii "sha256") = some (.str s) → s.getLast? ≠ some (byte '\n')
  size : ∀ n, a.lookup (ascii "size") = some (.int false n) → n < 2 ^ 64

/-- What sets a manifest apart that the client reads, of those that pass: its library parses the text, the
schema version is not written as a float, versions are plain ones, and the timestamp is in ASCII and one line. -/
structure Portable (J : JsonLibrary) (bytes : Bytes) (m : Dict) : Prop where
  held : (J.parse bytes).isSome = true
  schemaVersion : ∃ minus n, m.lookup (ascii "schema_version") = some (.int minus n)
  versions : ∀ key ∈ [ascii "version", ascii "min_supported", ascii "min_atmosphere"], ∀ s,
    m.lookup key = some (.str s) → PlainVersion s
  publishedAt : ∀ s, m.lookup (ascii "published_at") = some (.str s) →
    (∀ c ∈ s, c < 0x80) ∧ s.getLast? ≠ some (byte '\n')
  assets : ∀ items, m.lookup (ascii "assets") = some (.list items) → ∀ a, .dict a ∈ items → PortableAsset a

variable {m a : Dict} {doc entry : Members}

lemma lookup_string (h : Document.clientMembers m = some doc) {key s : Bytes} (hs : m.lookup key = some (.str s)) :
    doc.lookup key = some (.string s) := by
  obtain ⟨v, hv, hclient⟩ := Document.lookup_of_clientMembers h hs
  rw [hv, Document.client_str hclient]

lemma client_natural {n : ℕ} {v : Json} (h : Document.client (.int false n) = some v) :
    (n < 2 ^ 64 ∧ v = .unsigned (UInt64.ofNat n)) ∨ v = .float := by
  rw [Document.client, Document.clientInt] at h
  simp only [Bool.false_eq_true, false_and, if_false, not_false_eq_true, true_and] at h
  split_ifs at h with hfits hfinite
  · exact .inl ⟨hfits, (Option.some.inj h).symm⟩
  · exact .inr (Option.some.inj h).symm

lemma isBareFilename_iff {s : Bytes} (hbare : isBareName s = true) (hline : Pattern.line Pattern.assetName s = true) :
    isBareFilename s = true ↔ s.getLast? ≠ some (byte '\n') := by
  constructor
  · intro h hlast
    simp only [isBareFilename, Bool.and_eq_true] at h
    exact plain_of_isFilenameCharacter _ (List.all_eq_true.mp h.2 _ (List.mem_of_getLast? hlast)) rfl
  · intro hlast
    obtain ⟨⟨c, hhead, hfirst⟩, hall⟩ := mem_assetName.mp (Lib.Regex.mem_of_matchesLine hline hlast)
    have hne : s ≠ [] := by
      rintro rfl
      cases hhead
    have hdot : c ≠ byte '.' := by
      rintro rfl
      exact absurd hfirst (by decide)
    have habsent : ∀ x, isFilenameCharacter x = false → x ∉ s := fun x hx hmem => by simp [hall x hmem] at hx
    simp only [isBareName, Bool.not_eq_true', Bool.or_eq_false_iff] at hbare
    simp [isBareFilename, hne, hhead, hdot, hbare.1.2, habsent (byte '/') (by decide),
      habsent (byte '\\') (by decide)]
    exact hall

lemma isReleaseUrl_iff {s : Bytes} (h : (ascii "https://github.com/").isPrefixOf s = true) :
    isReleaseUrl s = true ↔ s ≠ ascii "https://github.com/" := by
  have hbegins := List.isPrefixOf_iff_prefix.mp h
  rw [isReleaseUrl, kUrlPrefix, h, Bool.and_true, decide_eq_true_eq]
  constructor
  · rintro hlt rfl
    exact absurd hlt (lt_irrefl _)
  · exact fun hne => lt_of_le_of_ne hbegins.length_le (fun hlen => hne (hbegins.eq_of_length hlen).symm)

lemma acceptedEntry_iff {app : Bool} (hentry : Document.clientMembers a = some entry)
    (hconforms : ConformingAsset kindSchema a) (hpassed : PassedAsset a app) :
    (∃ kind, AcceptedEntry (.object entry) kind) ↔ PortableAsset a := by
  obtain ⟨name, hname, hbare⟩ := hpassed.name
  obtain ⟨name', hname', hpattern⟩ := hconforms.name
  obtain rfl : name = name' := by simpa [hname] using hname'
  obtain ⟨kind, hkind, _⟩ : ∃ s, a.lookup (ascii "kind") = some (.str s) ∧ knownKinds.contains s = true := by
    obtain ⟨d, hd, hknown⟩ := hconforms.kind
    obtain ⟨s, rfl, hs⟩ := isText_iff.mp (check_eq_nil.mp hknown)
    exact ⟨s, hd, hs⟩
  obtain ⟨url, hurl, hgithub⟩ := hconforms.url
  obtain ⟨hex, hhex, hsha⟩ := hconforms.sha256
  obtain ⟨n, hsize, hpos⟩ := hpassed.size
  obtain ⟨v, hv, hclient⟩ := Document.lookup_of_clientMembers hentry hsize
  have hfile := isBareFilename_iff hbare (Bool.and_eq_true_iff.mp hpattern).2
  constructor
  · rintro ⟨_, _, name', url', size, sha256, heq, hreads⟩
    obtain rfl := Json.object.inj heq
    refine ⟨fun s hs => ?_, fun s hs => ?_, fun s hs => ?_, fun k hk => ?_⟩
    · obtain rfl : name = s := by simpa [hname] using hs
      have hsame : name = name' := by simpa [lookup_string hentry hname] using hreads.name
      exact hfile.mp (hsame ▸ hreads.bare)
    · obtain rfl : url = s := by simpa [hurl] using hs
      have hsame : url = url' := by simpa [lookup_string hentry hurl] using hreads.url
      exact (isReleaseUrl_iff hgithub).mp (hsame ▸ hreads.release)
    · obtain rfl : hex = s := by simpa [hhex] using hs
      obtain ⟨hex', hhex', hdigest⟩ := hreads.sha256
      have hsame : hex = hex' := by simpa [lookup_string hentry hhex] using hhex'
      exact (fromHex_isSome_iff_of_line hsha).mp (by rw [hsame, hdigest]; rfl)
    · obtain rfl : n = k := by simpa [hsize] using hk
      have hsame : v = .unsigned size := by simpa [hv] using hreads.size
      rcases client_natural hclient with ⟨hfits, _⟩ | hfloat
      · exact hfits
      · rw [hsame] at hfloat
        cases hfloat
  · intro h
    have hfits := h.size n hsize
    obtain ⟨sha256, hdigest⟩ := Option.isSome_iff_exists.mp ((fromHex_isSome_iff_of_line hsha).mpr (h.sha256 hex hhex))
    have hunsigned : v = .unsigned (UInt64.ofNat n) := by
      rw [Document.client, Document.clientInt, if_neg (by simp), if_pos ⟨by simp, hfits⟩] at hclient
      exact (Option.some.inj hclient).symm
    refine ⟨kind, entry, name, url, UInt64.ofNat n, sha256, rfl, ?_⟩
    exact
      { bare := hfile.mpr (h.name name hname)
        release := (isReleaseUrl_iff hgithub).mpr (h.url url hurl)
        nonempty := fun hzero => hpos (by
          have hnat := congrArg UInt64.toNat hzero
          rwa [UInt64.toNat_ofNat_of_lt' hfits] at hnat)
        name := lookup_string hentry hname
        kind := lookup_string hentry hkind
        url := lookup_string hentry hurl
        size := hunsigned ▸ hv
        sha256 := ⟨hex, lookup_string hentry hhex, hdigest⟩ }

variable {py : Python}

lemma exists_entry {items : List Document} {entries : List Json} (h : Document.clientItems items = some entries)
    (ha : .dict a ∈ items) : ∃ entry, .object entry ∈ entries ∧ Document.clientMembers a = some entry := by
  obtain ⟨e, he, hclient⟩ := (exists_of_forall₂ (Document.forall₂_clientItems h)).1 _ ha
  obtain ⟨entry, rfl, hentry⟩ := Document.client_dict hclient
  exact ⟨entry, he, hentry⟩

lemma assets_iff (hdoc : Document.clientMembers m = some doc) (hp : Passed py m) :
    (∃ v, doc.lookup (ascii "assets") = some v ∧ ∃ assets, manifestAssets v = .ok assets ∧
      ∃ asset ∈ assets, asset.kind = .appNro) ↔
      ∀ items, m.lookup (ascii "assets") = some (.list items) → ∀ a, .dict a ∈ items → PortableAsset a := by
  obtain ⟨items, hitems, _, hconforms⟩ := hp.conforms.assets
  obtain ⟨hpassed, app, happ, happ'⟩ := hp.assets items hitems
  obtain ⟨v, hv, hclient⟩ := Document.lookup_of_clientMembers hdoc hitems
  obtain ⟨entries, rfl, hentries⟩ := Document.client_list hclient
  have hone : ∀ a entry, .dict a ∈ items → Document.clientMembers a = some entry →
      ((∃ kind, AcceptedEntry (.object entry) kind) ↔ PortableAsset a) := by
    intro a entry ha hentry
    obtain ⟨_, hpass⟩ := hpassed a ha
    exact acceptedEntry_iff hentry (assetSchema_dict_eq_nil.mp (hconforms _ ha)) hpass
  simp only [manifestAssets_isOk]
  constructor
  · rintro ⟨v', hv', entries', rfl, hall, _⟩ items' hitems' a ha
    obtain rfl : items = items' := by simpa [hitems] using hitems'
    obtain rfl : entries = entries' := by simpa [hv] using hv'
    obtain ⟨entry, he, hentry⟩ := exists_entry hentries ha
    exact (hone a entry ha hentry).mp (hall _ he)
  · intro h
    have hall : ∀ e ∈ entries, ∃ kind, AcceptedEntry e kind := by
      intro e he
      obtain ⟨d, hd, hclient⟩ := (exists_of_forall₂ (Document.forall₂_clientItems hentries)).2 e he
      obtain ⟨a, rfl, _⟩ := assetSchema_eq_nil.mp (hconforms d hd)
      obtain ⟨entry, rfl, hentry⟩ := Document.client_dict hclient
      exact (hone a entry hd hentry).mpr (h items hitems a hd)
    refine ⟨_, hv, entries, rfl, hall, ?_⟩
    obtain ⟨entry, he, hentry⟩ := exists_entry hentries happ
    obtain ⟨kind, _, name, url, size, sha256, heq, hreads⟩ := hall _ he
    obtain rfl := Json.object.inj heq
    have hkind : kind = ascii "app-nro" := by
      simpa [lookup_string hentry (happ'.kind rfl)] using hreads.kind.symm
    exact ⟨_, he, entry, name, url, size, sha256, rfl, hkind ▸ hreads⟩

lemma version_iff (hdoc : Document.clientMembers m = some doc) {key s : Bytes} (hs : m.lookup key = some (.str s))
    (hline : Pattern.line (Pattern.semver py.digits) s = true) :
    (∃ s v, doc.lookup key = some (.string s) ∧ parseSemVer s = .ok v) ↔ PlainVersion s := by
  rw [← exists_parseSemVer_iff hline]
  constructor
  · rintro ⟨s', v, hs', hv⟩
    obtain rfl : s = s' := by simpa [lookup_string hdoc hs] using hs'
    exact ⟨v, hv⟩
  · exact fun ⟨v, hv⟩ => ⟨s, v, lookup_string hdoc hs, hv⟩

lemma client_one {d : Document} (hone : d.equals 1 = true) (hint : ∃ minus n, d = .int minus n) {v : Json}
    (h : d.client = some v) : v = .unsigned 1 := by
  obtain ⟨minus, n, rfl⟩ := hint
  have hvalue : Document.intValue minus n = 1 := by simpa [Document.equals] using hone
  cases minus with
  | true => simp [Document.intValue] at hvalue; omega
  | false =>
    obtain rfl : n = 1 := by simpa [Document.intValue] using hvalue
    exact (Option.some.inj h).symm

lemma text_of_optional (hdoc : Document.clientMembers m = some doc) {key : Bytes} {p : Bytes → Prop}
    (h : ∀ d, m.lookup key = some d → ∃ s, d = .str s ∧ p s) :
    ∀ v, doc.lookup key = some v → ∃ s, v = .string s := by
  intro v hv
  obtain ⟨d, hd, hclient⟩ := Document.exists_lookup_of_clientMembers hdoc hv
  obtain ⟨s, rfl, _⟩ := h d hd
  exact ⟨s, Document.client_str hclient⟩

section Readable

variable (hdoc : Document.clientMembers m = some doc) (hp : Passed py m)

include hdoc hp

lemma portable_of_reads {J : JsonLibrary} {bytes : Bytes} {manifest : UpdateManifest}
    (hheld : (J.parse bytes).isSome = true) (hreads : DocumentReads doc manifest)
    (happ : ∃ asset ∈ manifest.assets, asset.kind = .appNro) : Portable J bytes m := by
  refine ⟨hheld, ?_, ?_, ?_, ?_⟩
  · obtain ⟨d, hd, htype, _⟩ := hp.conforms.schemaVersion
    obtain ⟨v, hv, hclient⟩ := Document.lookup_of_clientMembers hdoc hd
    obtain ⟨v', hv', hint, _⟩ := hreads.schema
    obtain rfl : v = v' := by simpa [hv] using hv'
    cases d with
    | int minus n => exact ⟨minus, n, hd⟩
    | float q =>
      obtain rfl := Option.some.inj hclient
      cases hint
    | _ => simp [Document.isOfType] at htype
  · intro key hkey s hs
    simp only [List.mem_cons, List.not_mem_nil, or_false] at hkey
    rcases hkey with rfl | rfl | rfl
    · obtain ⟨s', hs', hline⟩ := hp.conforms.version
      obtain rfl : s = s' := by simpa [hs] using hs'
      obtain ⟨text, htext, hparse, _⟩ := hreads.version
      exact (version_iff hdoc hs hline).mp ⟨text, _, htext, hparse⟩
    · obtain ⟨s', hs', hline⟩ := hp.conforms.minSupported
      obtain rfl : s = s' := by simpa [hs] using hs'
      obtain ⟨text, htext, hparse⟩ := hreads.minSupported
      exact (version_iff hdoc hs hline).mp ⟨text, _, htext, hparse⟩
    · obtain ⟨s', hs', hline⟩ := hp.conforms.minAtmosphere _ hs
      obtain rfl : s = s' := by simpa using hs'
      obtain ⟨text, htext, v, hparse⟩ := manifestAtmosphere_isOk.mp ⟨_, hreads.minAtmosphere⟩ _ (lookup_string hdoc hs)
      exact (version_iff hdoc hs hline).mp ⟨text, v, htext ▸ lookup_string hdoc hs, hparse⟩
  · intro s hs
    obtain ⟨s', hs', hline⟩ := hp.conforms.publishedAt
    obtain rfl : s = s' := by simpa [hs] using hs'
    have hsame : s = manifest.publishedAt := by simpa [lookup_string hdoc hs] using hreads.publishedAt
    exact (isIso8601Utc_iff_of_line hline).mp (hsame ▸ hreads.timestamp)
  · obtain ⟨v, hv, hassets⟩ := hreads.assets
    exact (assets_iff hdoc hp).mp ⟨v, hv, manifest.assets, hassets, happ⟩

lemma reads_of_portable {J : JsonLibrary} {bytes : Bytes} (h : Portable J bytes m) :
    ∃ manifest, DocumentReads doc manifest ∧ ∃ asset ∈ manifest.assets, asset.kind = .appNro := by
  obtain ⟨v, hv, assets, hassets, happ⟩ := (assets_iff hdoc hp).mpr h.assets
  obtain ⟨text, hversion, htag⟩ := hp.tag
  obtain ⟨text', hversion', hline⟩ := hp.conforms.version
  obtain rfl : text = text' := by simpa [hversion] using hversion'
  obtain ⟨s, version, hs, hparse⟩ := (version_iff hdoc hversion hline).mpr (h.versions _ (by simp) _ hversion)
  obtain rfl : text = s := by simpa [lookup_string hdoc hversion] using hs
  obtain ⟨low, hlow, hlowLine⟩ := hp.conforms.minSupported
  obtain ⟨lowText, minSupported, hlowText, hlowParse⟩ :=
    (version_iff hdoc hlow hlowLine).mpr (h.versions _ (by simp) _ hlow)
  obtain ⟨published, hpublished, hiso⟩ := hp.conforms.publishedAt
  obtain ⟨ch, hch, hknown⟩ := hp.conforms.channel
  obtain ⟨channel, hchannel⟩ : ∃ channel, parseChannel ch = .ok channel := by
    rw [parseChannel]
    rcases (by simpa using hknown : ch = ascii "stable" ∨ ch = ascii "beta") with rfl | rfl
    · exact ⟨.stable, rfl⟩
    · exact ⟨.beta, rfl⟩
  obtain ⟨mandatory, hmandatory⟩ := hp.conforms.mandatory
  obtain ⟨b, hb, hbool⟩ := Document.lookup_of_clientMembers hdoc hmandatory
  obtain rfl := Option.some.inj hbool
  have hatmosphere : ∀ w, doc.lookup (ascii "min_atmosphere") = some w →
      ∃ s, w = .string s ∧ ∃ version, parseSemVer s = .ok version := by
    intro w hw
    obtain ⟨d, hd, hclient⟩ := Document.exists_lookup_of_clientMembers hdoc hw
    obtain ⟨s, rfl, hline⟩ := hp.conforms.minAtmosphere d hd
    obtain ⟨v, hv⟩ := (exists_parseSemVer_iff hline).mpr (h.versions _ (by simp) s hd)
    exact ⟨s, Document.client_str hclient, v, hv⟩
  obtain ⟨minAtmosphere, hatmosphere⟩ := manifestAtmosphere_isOk.mpr hatmosphere
  obtain ⟨changelogUrl, hlog⟩ := manifestText_isOk.mpr (text_of_optional hdoc hp.conforms.changelogUrl)
  obtain ⟨releaseNotesUrl, hnotes⟩ := manifestText_isOk.mpr (text_of_optional hdoc hp.conforms.releaseNotesUrl)
  obtain ⟨minus, n, hschema⟩ := h.schemaVersion
  obtain ⟨one, hone, hclient⟩ := Document.lookup_of_clientMembers hdoc hschema
  obtain rfl := client_one (Dict.get_of_lookup hschema ▸ hp.schemaVersion) ⟨minus, n, rfl⟩ hclient
  refine ⟨{ schemaVersion := 1, version, tag := byte 'v' :: text, publishedAt := published, channel, mandatory,
            minSupported, minAtmosphere, changelogUrl, releaseNotesUrl, assets }, ?_, happ⟩
  exact
    { schema := ⟨_, hone, rfl, rfl⟩
      supported := rfl
      product := lookup_string hdoc hp.conforms.product
      version := ⟨text, lookup_string hdoc hversion, hparse, rfl⟩
      tag := lookup_string hdoc htag
      minSupported := ⟨lowText, hlowText, hlowParse⟩
      publishedAt := lookup_string hdoc hpublished
      timestamp := (isIso8601Utc_iff_of_line hiso).mpr (h.publishedAt _ hpublished)
      channel := ⟨ch, lookup_string hdoc hch, hchannel⟩
      mandatory := hb
      minAtmosphere := hatmosphere
      changelogUrl := hlog
      releaseNotesUrl := hnotes
      assets := ⟨v, hv, hassets⟩ }

end Readable

end Portable

/-- What the client's library makes of a text that `json.loads` reads: the same document, unless it refuses the text. It
may refuse one of which the document shows nothing, as with a number out of range under a key that is given again. -/
def SameText (py : Python) (J : JsonLibrary) : Prop :=
  ∀ bytes d, py.loads bytes = .ok d → J.parse bytes = none ∨ J.parse bytes = d.client

section SameText

variable {py : Python} {m : Dict}

lemma parse_isSome {J : JsonLibrary} {bytes : Bytes} {manifest : UpdateManifest}
    (h : parseManifest J bytes = .ok manifest) : (J.parse bytes).isSome = true := by
  rw [parseManifest] at h
  split at h
  · cases h
  · next hparse =>
    rw [hparse]
    rfl
  · cases h

lemma client_of_held {J : JsonLibrary} {bytes : Bytes} (hsame : SameText py J) (hm : py.loads bytes = .ok (.dict m))
    (hheld : (J.parse bytes).isSome = true) :
    ∃ doc, J.parse bytes = some (.object doc) ∧ Document.clientMembers m = some doc := by
  obtain ⟨v, hv⟩ := Option.isSome_iff_exists.mp hheld
  rcases hsame bytes _ hm with hnone | hclient
  · rw [hnone] at hv
    cases hv
  · obtain ⟨doc, rfl, hdoc⟩ := Document.client_dict (hclient.symm.trans hv)
    exact ⟨doc, hv, hdoc⟩

end SameText

theorem published_manifest_is_read_iff (py : Python) (J : JsonLibrary) (hsame : SameText py J) (bytes : Bytes)
    (m : Dict) (hm : py.loads bytes = .ok (.dict m)) (hpass : validate py true bytes = some []) :
    (∃ manifest, parseManifest J bytes = .ok manifest) ↔ Portable J bytes m := by
  have hp := passed_of_validate hm hpass
  constructor
  · rintro ⟨manifest, hread⟩
    have hheld := parse_isSome hread
    obtain ⟨doc, hparse, hdoc⟩ := client_of_held hsame hm hheld
    rw [parseManifest, hparse] at hread
    obtain ⟨_, hreads, happ⟩ := readManifest_isOk.mp ⟨manifest, hread⟩
    exact portable_of_reads hdoc hp hheld hreads happ
  · intro h
    obtain ⟨doc, hparse, hdoc⟩ := client_of_held hsame hm h.held
    rw [parseManifest, hparse]
    exact readManifest_isOk.mpr (reads_of_portable hdoc hp h)

namespace Sample

def manifestText (version url name changelog : Bytes) : Bytes :=
  ascii "\x7b\"schema_version\":1,\"product\":\"nsx-manager\",\"version\":\"" ++ version ++
    ascii "\",\"tag\":\"v" ++ version ++
    ascii "\",\"published_at\":\"2026-01-01T00:00:00Z\",\"channel\":\"stable\",\"mandatory\":false," ++
    ascii "\"min_supported\":\"0.1.0\",\"changelog_url\":\"" ++ changelog ++
    ascii "\",\"assets\":[\x7b\"name\":\"" ++ name ++ ascii "\",\"kind\":\"app-nro\",\"url\":\"" ++ url ++
    ascii "\",\"size\":1,\"sha256\":\"" ++ List.replicate 64 (byte '0') ++ ascii "\"\x7d]\x7d"

def published (version : Bytes) : Bytes :=
  manifestText version (ascii "https://github.com/a") (ascii "a.nro") (ascii "https://a")

def loaded (bytes : Bytes) : Dict :=
  match python.loads bytes with
  | .ok (.dict m) => m
  | _ => []

def passes (bytes : Bytes) : Bool :=
  !(loaded bytes).isEmpty && (updateSchema python.digits (.dict (loaded bytes))).isEmpty &&
    semanticChecks python (loaded bytes) == some []

lemma loads_eq {bytes : Bytes} (h : loaded bytes ≠ []) : python.loads bytes = .ok (.dict (loaded bytes)) := by
  unfold loaded at h ⊢
  split
  · next hm => exact hm
  · next hother => simp at h

lemma loads_of_passes {bytes : Bytes} (h : passes bytes = true) :
    python.loads bytes = .ok (.dict (loaded bytes)) := by
  simp only [passes, Bool.and_eq_true] at h
  exact loads_eq (by simpa using h.1.1)

lemma isOk_iff {ε α : Type} {x : Parse ε α} : x.isOk = true ↔ ∃ a, x = .ok a := by
  cases x with
  | ok a => simp [Except.isOk, Except.toBool]
  | error e => simp [Except.isOk, Except.toBool]

lemma validate_of_passes {bytes : Bytes} (h : passes bytes = true) : validate python true bytes = some [] := by
  have hloads := loads_of_passes h
  simp only [passes, Bool.and_eq_true, beq_iff_eq, List.isEmpty_iff] at h
  simp [validate, hloads, h.2, schemaReport, h.1.2]

def candidate : Bytes := published (ascii "1.0.0-rc.1")

lemma candidate_outcome : passes candidate = true ∧ (parseManifest JsonCodec.library candidate).isOk = true := by
  decide +kernel

lemma candidate_passes : passes candidate = true := candidate_outcome.1

lemma candidate_is_read : ∃ manifest, parseManifest JsonCodec.library candidate = .ok manifest :=
  isOk_iff.mp candidate_outcome.2

end Sample

theorem a_published_candidate_is_portable :
    Portable JsonCodec.library Sample.candidate (Sample.loaded Sample.candidate) :=
  (published_manifest_is_read_iff Sample.python JsonCodec.library (fun _ _ h => .inr (Sample.client_of_loads h)) _ _
    (Sample.loads_of_passes Sample.candidate_passes) (Sample.validate_of_passes Sample.candidate_passes)).mp
    Sample.candidate_is_read

/-- `validate_manifest.py` lets two dots in a row through, `parseSemVer` does not. -/
theorem a_published_manifest_is_refused :
    (∀ bytes d, Sample.python.loads bytes = .ok d → JsonCodec.library.parse bytes = d.client) ∧
      ∃ bytes, validate Sample.python true bytes = some [] ∧
      ¬ ∃ manifest, parseManifest JsonCodec.library bytes = .ok manifest := by
  obtain ⟨hpasses, hrefused⟩ : Sample.passes (Sample.published (ascii "1.0.0-a..b")) = true ∧
      ¬ (parseManifest JsonCodec.library (Sample.published (ascii "1.0.0-a..b"))).isOk = true := by
    decide +kernel
  exact ⟨fun _ _ => Sample.client_of_loads, _, Sample.validate_of_passes hpasses, fun h => hrefused (Sample.isOk_iff.mpr h)⟩

end NsxManager.Release
