import NsxManager.Release.Published

/-! What the client reads and what the schema asks for. -/

namespace NsxManager.Release

open NsxManager.Core NsxManager.Core.SemVer Schema

def openSchema (digits : Digits) : Schema := manifestSchema digits (fun _ => [])

/-- What the schema asks for and the client does not: schema versions are not negative, versions have neither a
leading `v` nor build metadata, links are `https`, and asset names start with a letter or a digit. -/
structure Tidy (m : Dict) : Prop where
  schemaVersion : ∀ digits, m.lookup (ascii "schema_version") ≠ some (.int true digits)
  versions : ∀ key ∈ [ascii "version", ascii "min_supported", ascii "min_atmosphere"], ∀ s,
    m.lookup key = some (.str s) → stripV s = s ∧ byte '+' ∉ s
  links : ∀ key ∈ [ascii "changelog_url", ascii "release_notes_url"], ∀ s,
    m.lookup key = some (.str s) → (ascii "https://").isPrefixOf s = true
  names : ∀ items, m.lookup (ascii "assets") = some (.list items) → ∀ a, .dict a ∈ items → ∀ s,
    a.lookup (ascii "name") = some (.str s) → s.head?.any isAlphanumeric = true

section Read

variable {digits : Digits} {m a : Dict} {doc entry : Members} {manifest : UpdateManifest}

lemma lookup_str (h : Document.clientMembers m = some doc) {key s : Bytes} (hs : doc.lookup key = some (.string s)) :
    m.lookup key = some (.str s) := by
  obtain ⟨d, hd, hclient⟩ := Document.exists_lookup_of_clientMembers h hs
  rw [hd, Document.client_eq_string hclient]

lemma minimum_of_schema (hdoc : Document.clientMembers m = some doc) (h : DocumentReads doc manifest) :
    ∃ minus n, m.lookup (ascii "schema_version") = some (.int minus n) ∧ (minus = false → 1 ≤ n) := by
  obtain ⟨v, hv, hint, hget⟩ := h.schema
  obtain ⟨d, hd, hclient⟩ := Document.exists_lookup_of_clientMembers hdoc hv
  rw [h.supported] at hget
  cases v with
  | integer n =>
    obtain ⟨k, rfl⟩ := Document.client_eq_integer hclient
    exact ⟨true, k, hd, by simp⟩
  | unsigned n =>
    obtain rfl := Document.client_eq_unsigned hclient
    refine ⟨false, n.toNat, hd, fun _ => Nat.one_le_iff_ne_zero.mpr (fun hzero => ?_)⟩
    obtain rfl : n = 0 := UInt64.toNat_inj.mp hzero
    exact absurd (Except.ok.inj hget) (by decide)
  | _ => cases hint

lemma isContinuation_of_isAlphanumeric : ∀ c, isAlphanumeric c = true → isContinuation c = false :=
  forall_byte (by decide +kernel)

lemma line_assetName_iff {s : Bytes} (h : isBareFilename s = true) :
    (decide (1 ≤ s.countP (!isContinuation ·)) && Pattern.line Pattern.assetName s) = true ↔
      s.head?.any isAlphanumeric = true := by
  simp only [isBareFilename, Bool.and_eq_true, List.all_eq_true] at h
  have hlast : s.getLast? ≠ some (byte '\n') := fun hlast =>
    plain_of_isFilenameCharacter _ (h.2 _ (List.mem_of_getLast? hlast)) rfl
  rw [Bool.and_eq_true, decide_eq_true_eq, Option.any_eq_true]
  constructor
  · rintro ⟨_, hline⟩
    exact (mem_assetName.mp (Lib.Regex.mem_of_matchesLine hline hlast)).1
  · rintro ⟨c, hhead, hc⟩
    have hstart : isContinuation c = false := isContinuation_of_isAlphanumeric _ hc
    refine ⟨List.countP_pos_iff.mpr ⟨c, List.mem_of_head? hhead, by rw [hstart]; rfl⟩, ?_⟩
    exact Lib.Regex.matchesLine_iff.mpr (.inl (mem_assetName.mpr ⟨⟨c, hhead, hc⟩, h.2⟩))

lemma conformingAsset_iff {kind : Bytes} (hentry : Document.clientMembers a = some entry)
    (h : AcceptedEntry (.object entry) kind) : ConformingAsset (fun _ => []) a ↔
      ∀ s, a.lookup (ascii "name") = some (.str s) → s.head?.any isAlphanumeric = true := by
  obtain ⟨_, name, url, size, sha256, heq, hreads⟩ := h
  obtain rfl := Json.object.inj heq
  have hname := lookup_str hentry hreads.name
  constructor
  · intro hconforms s hs
    obtain ⟨s', hs', hpattern⟩ := hconforms.name
    obtain rfl : name = s := by simpa [hname] using hs
    obtain rfl : name = s' := by simpa [hname] using hs'
    exact (line_assetName_iff hreads.bare).mp hpattern
  · intro hhead
    obtain ⟨d, hd, hclient⟩ := Document.exists_lookup_of_clientMembers hentry hreads.size
    obtain rfl := Document.client_eq_unsigned hclient
    obtain ⟨hex, hhex, hdigest⟩ := hreads.sha256
    have hpos : size.toNat ≠ 0 := fun hzero => hreads.nonempty (UInt64.toNat_inj.mp hzero)
    have hrelease := hreads.release
    rw [isReleaseUrl, Bool.and_eq_true] at hrelease
    exact
      { name := ⟨name, hname, (line_assetName_iff hreads.bare).mpr (hhead name hname)⟩
        kind := ⟨_, lookup_str hentry hreads.kind, rfl⟩
        url := ⟨url, lookup_str hentry hreads.url, hrelease.2⟩
        size := ⟨_, hd, rfl, check_eq_nil.mpr (by simp [Document.intValue]; omega)⟩
        sha256 := ⟨hex, lookup_str hentry hhex, line_sha256 (by rw [hdigest]; rfl)⟩ }

lemma assets_conform_iff (hdoc : Document.clientMembers m = some doc) (h : DocumentReads doc manifest) :
    (∃ items, m.lookup (ascii "assets") = some (.list items) ∧ items ≠ [] ∧
      ∀ d ∈ items, assetSchema (fun _ => []) d = []) ↔
      ∀ items, m.lookup (ascii "assets") = some (.list items) → ∀ a, .dict a ∈ items → ∀ s,
        a.lookup (ascii "name") = some (.str s) → s.head?.any isAlphanumeric = true := by
  obtain ⟨v, hv, hread⟩ := h.assets
  obtain ⟨entries, read, rfl, hne, hmap, _⟩ := manifestAssets_eq_ok.mp hread
  obtain ⟨d, hd, hclient⟩ := Document.exists_lookup_of_clientMembers hdoc hv
  obtain ⟨items, rfl, hitems⟩ := Document.client_eq_array hclient
  have hpairs := exists_of_forall₂ (Document.forall₂_clientItems hitems)
  -- each listed asset stands against the entry the client took for it
  have hone : ∀ d ∈ items, ∃ a, d = .dict a ∧ (ConformingAsset (fun _ => []) a ↔
      ∀ s, a.lookup (ascii "name") = some (.str s) → s.head?.any isAlphanumeric = true) := by
    intro d hd
    obtain ⟨e, he, hclient⟩ := hpairs.1 d hd
    obtain ⟨kind, entry, name, url, size, sha256, rfl, hreads⟩ :=
      parseAsset_isOk.mp (mapM_isOk.mp ⟨read, hmap⟩ e he)
    obtain ⟨a, rfl, hentry⟩ := Document.client_eq_object hclient
    exact ⟨a, rfl, conformingAsset_iff hentry ⟨entry, name, url, size, sha256, rfl, hreads⟩⟩
  constructor
  · rintro ⟨items', hitems', _, hall⟩ items'' hitems'' a ha
    obtain rfl : items = items' := by simpa [hd] using hitems'
    obtain rfl : items = items'' := by simpa [hd] using hitems''
    obtain ⟨_, heq, hiff⟩ := hone _ ha
    obtain rfl := Document.dict.inj heq
    exact hiff.mp (assetSchema_dict_eq_nil.mp (hall _ ha))
  · intro hnames
    refine ⟨items, hd, ?_, fun d hd' => ?_⟩
    · obtain ⟨e, he⟩ := List.exists_mem_of_ne_nil entries hne
      obtain ⟨d, hd, _⟩ := hpairs.2 e he
      exact List.ne_nil_of_mem hd
    · obtain ⟨a, rfl, hiff⟩ := hone d hd'
      exact assetSchema_dict_eq_nil.mpr (hiff.mpr (hnames items hd a hd'))

lemma optional_text (hdoc : Document.clientMembers m = some doc) {key : Bytes} {p : Bytes → Prop}
    (h : ∀ v, doc.lookup key = some v → ∃ s, v = .string s ∧ p s) :
    ∀ d, m.lookup key = some d → ∃ s, d = .str s ∧ p s := by
  intro d hd
  obtain ⟨v, hv, hclient⟩ := Document.lookup_of_clientMembers hdoc hd
  obtain ⟨s, rfl, hs⟩ := h v hv
  exact ⟨s, Document.client_eq_string hclient, hs⟩

lemma contains_of_parseChannel {s : Bytes} {channel : Channel} (h : parseChannel s = .ok channel) :
    [ascii "stable", ascii "beta"].contains s = true := by
  rw [parseChannel] at h
  split_ifs at h with hstable hbeta
  · simp [hstable]
  · simp [hbeta]

section Conforms

variable (hdoc : Document.clientMembers m = some doc) (h : DocumentReads doc manifest)

include hdoc h

lemma tidy_of_conforms (hc : Conforms digits (fun _ => []) m) : Tidy m := by
  refine ⟨?_, ?_, ?_, (assets_conform_iff hdoc h).mp hc.assets⟩
  · intro n hn
    obtain ⟨d, hd, _, hmin⟩ := hc.schemaVersion
    obtain rfl : Document.int true n = d := by simpa [hn] using hd
    have hone : (1 : ℤ) ≤ -n := by simpa [minimum, Document.intValue] using hmin
    omega
  · intro key hkey s hs
    simp only [List.mem_cons, List.not_mem_nil, or_false] at hkey
    rcases hkey with rfl | rfl | rfl
    · obtain ⟨s', hs', hline⟩ := hc.version
      obtain rfl : s = s' := by simpa [hs] using hs'
      obtain ⟨text, htext, hparse, _⟩ := h.version
      obtain rfl : s = text := by simpa [hs] using lookup_str hdoc htext
      exact (line_semver_iff hparse).mp hline
    · obtain ⟨s', hs', hline⟩ := hc.minSupported
      obtain rfl : s = s' := by simpa [hs] using hs'
      obtain ⟨text, htext, hparse⟩ := h.minSupported
      obtain rfl : s = text := by simpa [hs] using lookup_str hdoc htext
      exact (line_semver_iff hparse).mp hline
    · obtain ⟨s', hs', hline⟩ := hc.minAtmosphere _ hs
      obtain rfl : s = s' := by simpa using hs'
      obtain ⟨text, htext, v, hparse⟩ := optional_text hdoc (manifestAtmosphere_isOk.mp ⟨_, h.minAtmosphere⟩) _ hs
      obtain rfl : s = text := by simpa using htext
      exact (line_semver_iff hparse).mp hline
  · intro key hkey s hs
    simp only [List.mem_cons, List.not_mem_nil, or_false] at hkey
    rcases hkey with rfl | rfl
    · obtain ⟨_, heq, hhttps⟩ := hc.changelogUrl _ hs
      exact Document.str.inj heq ▸ hhttps
    · obtain ⟨_, heq, hhttps⟩ := hc.releaseNotesUrl _ hs
      exact Document.str.inj heq ▸ hhttps

lemma conforms_of_tidy (ht : Tidy m) : Conforms digits (fun _ => []) m := by
  obtain ⟨minus, n, hschema, hpos⟩ := minimum_of_schema hdoc h
  obtain rfl : minus = false := by
    cases minus with
    | true => exact absurd hschema (ht.schemaVersion n)
    | false => rfl
  obtain ⟨text, htext, hparse, htag⟩ := h.version
  obtain ⟨low, hlow, hlowParse⟩ := h.minSupported
  obtain ⟨channel, hchannel, hknown⟩ := h.channel
  obtain ⟨b, hb, hclient⟩ := Document.exists_lookup_of_clientMembers hdoc h.mandatory
  obtain rfl := Document.client_eq_boolean hclient
  have hversion : Pattern.line (Pattern.semver digits) text = true :=
    (line_semver_iff hparse).mpr (ht.versions _ (by simp) _ (lookup_str hdoc htext))
  have hatmosphere : ∀ d, m.lookup (ascii "min_atmosphere") = some d →
      ∃ s, d = .str s ∧ Pattern.line (Pattern.semver digits) s = true := by
    intro d hd
    obtain ⟨s, rfl, v, hv⟩ := optional_text hdoc (manifestAtmosphere_isOk.mp ⟨_, h.minAtmosphere⟩) d hd
    exact ⟨s, rfl, (line_semver_iff hv).mpr (ht.versions _ (by simp) s hd)⟩
  have hlink : ∀ key ∈ [ascii "changelog_url", ascii "release_notes_url"], (∃ s, manifestText doc key = .ok s) →
      ∀ d, m.lookup key = some d → ∃ s, d = .str s ∧ (ascii "https://").isPrefixOf s = true := by
    intro key hkey hread d hd
    obtain ⟨s, rfl, _⟩ := optional_text hdoc (p := fun _ => True) (by simpa using manifestText_isOk.mp hread) d hd
    exact ⟨s, rfl, ht.links key hkey s hd⟩
  exact
    { schemaVersion := ⟨_, hschema, rfl, check_eq_nil.mpr (by simpa [Document.intValue] using hpos rfl)⟩
      product := lookup_str hdoc h.product
      version := ⟨text, lookup_str hdoc htext, hversion⟩
      tag := ⟨_, lookup_str hdoc h.tag, by rw [htag, line_tag_cons, hversion]⟩
      publishedAt := ⟨_, lookup_str hdoc h.publishedAt, line_isoUtc h.timestamp⟩
      channel := ⟨channel, lookup_str hdoc hchannel, contains_of_parseChannel hknown⟩
      mandatory := ⟨_, hb⟩
      minSupported := ⟨low, lookup_str hdoc hlow,
        (line_semver_iff hlowParse).mpr (ht.versions _ (by simp) _ (lookup_str hdoc hlow))⟩
      minAtmosphere := hatmosphere
      changelogUrl := hlink _ (by simp) ⟨_, h.changelogUrl⟩
      releaseNotesUrl := hlink _ (by simp) ⟨_, h.releaseNotesUrl⟩
      assets := (assets_conform_iff hdoc h).mpr ht.names }

end Conforms

lemma openSchema_of_updateSchema (h : updateSchema digits (.dict m) = []) : openSchema digits (.dict m) = [] := by
  have hc := manifestSchema_eq_nil.mp h
  obtain ⟨items, hitems, hne, hall⟩ := hc.assets
  refine manifestSchema_eq_nil.mpr { hc with assets := ⟨items, hitems, hne, fun d hd => ?_⟩ }
  obtain ⟨a, rfl, ha⟩ := assetSchema_eq_nil.mp (hall d hd)
  obtain ⟨kind, hkind, _⟩ := ha.kind
  exact assetSchema_dict_eq_nil.mpr { ha with kind := ⟨kind, hkind, rfl⟩ }

end Read

theorem accepted_manifest_fits_schema_iff (digits : Digits) (J : JsonLibrary) (bytes : Bytes) (d : Document)
    (manifest : UpdateManifest) (hsame : J.parse bytes = d.client) (h : parseManifest J bytes = .ok manifest) :
    ∃ m, d = .dict m ∧ (openSchema digits d = [] ↔ Tidy m) := by
  rw [parseManifest] at h
  split at h
  · cases h
  · next doc hparse =>
    obtain ⟨m, rfl, hdoc⟩ := Document.client_eq_object (hsame.symm.trans hparse)
    obtain ⟨_, hreads, _⟩ := readManifest_isOk.mp ⟨manifest, h⟩
    exact ⟨m, rfl, manifestSchema_eq_nil.trans ⟨tidy_of_conforms hdoc hreads, conforms_of_tidy hdoc hreads⟩⟩
  · cases h

theorem a_published_candidate_is_tidy : Tidy (Sample.loaded Sample.candidate) := by
  obtain ⟨manifest, hread⟩ := Sample.candidate_is_read
  have hsame := Sample.client_of_loads (Sample.loads_of_passes Sample.candidate_passes)
  obtain ⟨m, heq, hiff⟩ :=
    accepted_manifest_fits_schema_iff Sample.python.digits JsonCodec.library _ _ manifest hsame hread
  obtain rfl := Document.dict.inj heq
  have hpasses := Sample.candidate_passes
  simp only [Sample.passes, Bool.and_eq_true, List.isEmpty_iff] at hpasses
  exact hiff.mp (openSchema_of_updateSchema hpasses.1.2)

def Sample.untidy : Bytes :=
  Sample.manifestText (ascii "1.0.0+b") (ascii "https://github.com/a") (ascii "_a.nro") (ascii "http://a")

theorem an_untidy_manifest_is_read :
    (∀ bytes d, Sample.python.loads bytes = .ok d → JsonCodec.library.parse bytes = d.client) ∧
    ∃ bytes m, Sample.python.loads bytes = .ok (.dict m) ∧
      (∃ manifest, parseManifest JsonCodec.library bytes = .ok manifest) ∧
      openSchema Sample.python.digits (.dict m) ≠ [] := by
  have hread : (parseManifest JsonCodec.library Sample.untidy).isOk = true := by decide +kernel
  have hfails : (!(Sample.loaded Sample.untidy).isEmpty &&
      !(openSchema Sample.python.digits (.dict (Sample.loaded Sample.untidy))).isEmpty) = true := by decide +kernel
  rw [Bool.and_eq_true, Bool.not_eq_true', Bool.not_eq_true', List.isEmpty_eq_false_iff,
    List.isEmpty_eq_false_iff] at hfails
  exact ⟨fun _ _ => Sample.client_of_loads, _, _, Sample.loads_eq hfails.1, Sample.isOk_iff.mp hread, hfails.2⟩

end NsxManager.Release
