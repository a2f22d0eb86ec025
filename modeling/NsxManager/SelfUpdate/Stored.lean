import NsxManager.Documents.Faultless
import NsxManager.Infra.CurlClient
import NsxManager.SelfUpdate.Cache
import NsxManager.SelfUpdate.Throttle

/-! Which responses the cache can keep. -/

namespace NsxManager.SelfUpdate

open NsxManager.Core Lib Infra

section Metadata

lemma isLowercaseHexDigest_toHex (d : Digest) : isLowercaseHexDigest (toHex d) = true := by
  have hdigits : ∀ n : Fin 256, (hexOfByte (UInt8.ofNat n)).all
      (fun c => (byte '0' ≤ c && c ≤ byte '9') || (byte 'a' ≤ c && c ≤ byte 'f')) = true := by decide +kernel
  have hlength : (toHex d).length = 64 := by simp [toHex, hexOfByte, List.length_flatMap]
  rw [isLowercaseHexDigest, hlength, beq_self_eq_true, Bool.true_and, toHex, List.all_flatMap, List.all_eq_true]
  intro b _
  have hb := hdigits ⟨b.toNat, b.toNat_lt⟩
  rwa [UInt8.ofNat_toNat] at hb

lemma readCacheMetadata_document {m : CacheMetadata} (hschema : m.schemaVersion = kSupportedCacheSchema)
    (htime : 0 ≤ m.fetchedAtUnix) (hdigest : isLowercaseHexDigest m.documentSha256 = true) :
    readCacheMetadata m.document = .ok m := by
  have htext : ∀ key value, m.document.lookup key = some (.string value) → cacheText m.document key = .ok value := by
    intro key value hlookup
    rw [cacheText, if_pos (by rw [Members.has, hlookup]; rfl), stringField_eq _ _ _ hlookup]
  have hversion : m.document.lookup (ascii "schema_version") =
      some (Scalar.integer kSupportedCacheSchema.toInt64).reread := rfl
  have hfetched : m.document.lookup (ascii "fetched_at_unix") = some (Scalar.integer m.fetchedAtUnix).reread := rfl
  have hhas : m.document.has (ascii "schema_version") = true := rfl
  have hkeys : cacheKeys.all m.document.has = true := rfl
  have hsize : m.document.index (ascii "document_size") = (.ok (.unsigned m.documentSize) : Parse CacheError Json) := rfl
  simp only [readCacheMetadata, hhas, hkeys, need_true, Parse.ok_bind, integerField_eq _ _ _ hversion,
    integerField_eq _ _ _ hfetched, reread_integer, getInt_reread, getInt64_reread, beq_self_eq_true,
    stringField_eq _ m.document (ascii "document_sha256") rfl, hdigest, htime, decide_true, hsize,
    Json.isNumberUnsigned, Json.getUInt64, htext (ascii "etag") m.etag rfl,
    htext (ascii "source_url") m.sourceUrl rfl, Parse.pure_eq]
  rw [← hschema]

lemma serializeCacheMetadata_isSome {J : JsonLibrary} {m : CacheMetadata} :
    (serializeCacheMetadata J m).isSome = true ↔
      validUtf8 m.documentSha256 = true ∧ validUtf8 m.etag = true ∧ validUtf8 m.sourceUrl = true := by
  have hsame : m.members.map Prod.fst = ({} : CacheMetadata).members.map Prod.fst := rfl
  have hkeys : ∀ key ∈ m.members.map Prod.fst, ∀ b ∈ key, b < 0x80 := by
    rw [hsame]
    exact ascii_of_all (by decide)
  rw [serializeCacheMetadata, Option.isSome_map, J.dump_isSome]
  constructor
  · intro h
    exact ⟨(h (_, .string _) (.head _)).2, (h (_, .string _) (.tail _ (.tail _ (.head _)))).2,
      (h (_, .string _) (.tail _ (.tail _ (.tail _ (.tail _ (.tail _ (.head _))))))).2⟩
  · rintro ⟨hdigest, hetag, hurl⟩ p hp
    refine ⟨validUtf8_of_ascii (hkeys _ (List.mem_map_of_mem hp)), ?_⟩
    simp only [CacheMetadata.members, List.mem_cons, List.not_mem_nil, or_false] at hp
    rcases hp with rfl | rfl | rfl | rfl | rfl | rfl <;> first | assumption | trivial

end Metadata

def ServiceOp.Faults : ServiceOp → Prop
  | .absent | .abort | .disk .abort => True
  | _ => False

lemma answered {e : ServiceOp} (h : ¬e.Faults) (s : Console) : (Service.world.step e .ok s).1.isSome = true := by
  cases e with
  | disk request => cases request <;> first | rfl | exact absurd trivial h
  | absent => exact absurd trivial h
  | abort => exact absurd trivial h
  | _ => rfl

lemma run_of_faultless {α : Type} {p : ServiceProgram α} (h : p.Asks (fun e => ¬e.Faults)) (s : Console) :
    ∃ a s', Service.world.run .ok p s = (some a, s') := by
  have hwp : Service.world.wp (fun _ => True) (fun _ => True) p (fun _ _ => True) s :=
    World.wp_of_asks p.asks_true trivial (fun _ _ _ _ _ => trivial)
  obtain ⟨a, s', hrun, _⟩ := World.run_of_wp hwp h (fun _ s he => answered he s) (fun _ _ => trivial)
  exact ⟨a, s', hrun⟩

section WriteAtomic

variable (s : Console) (path data : Bytes)

lemma faultless_writeAtomic : (Service.writeAtomic path data).Asks (fun e => ¬e.Faults) := by
  refine Service.asks_onDisk ((SdFileStore.asks_writeAtomic path data).mono (fun e he => ?_))
  cases e with
  | abort => exact absurd rfl he.1
  | _ => exact id

lemma run_onDisk {α : Type} (p : FileProgram α) : Service.world.run .ok (Service.onDisk p) s =
    ((Stdio.world.run .ok p s.card).1, { s with card := (Stdio.world.run .ok p s.card).2 }) := by
  induction p generalizing s with
  | done a => rfl
  | call e next ih =>
    rw [Service.onDisk, World.run_call, World.run_call, Service.step_disk]
    rcases hstep : Stdio.world.step e .ok s.card with ⟨r | r, c⟩
    · simp only [ServiceFate.onDisk, hstep]
    · simp only [ServiceFate.onDisk, hstep, ih]

lemma SdFileStore.run_writeAtomic (c : Card) : ∃ c', Stdio.world.run .ok (SdFileStore.writeAtomic path data) c =
    (some true, c') ∧ Card.Agree [path, path ++ ascii ".tmp"] c c' ∧ c'.lookup path = some data := by
  cases data with
  | nil =>
    have hne := ne_tmp path
    unfold SdFileStore.writeAtomic
    generalize path ++ ascii ".tmp" = tmp at *
    have hsource : ((c.insert tmp []).erase path).lookup tmp = some [] := by simp [hne.symm]
    have hfree : ((c.insert tmp []).erase path).lookup path = none := AList.lookup_erase _ _
    refine ⟨Card.move ((c.insert tmp []).erase path) tmp path, by simp [Card.has, hsource, hfree], ?_, ?_⟩
    · exact (((Card.Agree.refl _ c).insert (by simp) _).erase (by simp)).move (by simp) (by simp)
    · rw [Card.lookup_move _ _ hsource hfree, if_pos rfl]
  | cons b bytes =>
    rw [SdFileStore.writeAtomic_eq path (List.cons_ne_nil b bytes)]
    exact Forwarder.run_writeFileAtomic c path (b :: bytes)

lemma Service.run_writeAtomic : ∃ c, Service.world.run .ok (Service.writeAtomic path data) s =
    (some true, { s with card := c }) ∧ Card.Agree [path, path ++ ascii ".tmp"] s.card c ∧ c.lookup path = some data := by
  obtain ⟨c, hrun, hagree, hlookup⟩ := SdFileStore.run_writeAtomic path data s.card
  exact ⟨c, by rw [Service.writeAtomic, run_onDisk, hrun], hagree, hlookup⟩

end WriteAtomic

section Store

variable {J : JsonLibrary} {config : SelfUpdateConfig} {record : CacheRecord} {now : Int64}

def Kept (J : JsonLibrary) (config : SelfUpdateConfig) (record : CacheRecord) (now : Int64) (card : Card) : Prop :=
  card.lookup config.cachedManifestPath = some record.document ∧
    ∃ text, serializeCacheMetadata J (metadataOf record now) = some text ∧
      card.lookup config.cacheMetadataPath = some text

lemma kept_of_written {text : Bytes} {c c' : Card} (hdocument : c.lookup config.cachedManifestPath = some record.document)
    (htext : serializeCacheMetadata J (metadataOf record now) = some text)
    (hagree : Card.Agree [config.cacheMetadataPath, config.cacheMetadataPath ++ ascii ".tmp"] c c')
    (hmetadata : c'.lookup config.cacheMetadataPath = some text) : Kept J config record now c' :=
  ⟨(hagree _ (notMem_written config.cacheDir (by decide))).trans hdocument, text, htext, hmetadata⟩

lemma wp_storeCache_kept {A : Event ServiceOp ServiceOp.Reply ServiceFate → Prop} (s : Console) :
    Service.world.wp A (fun _ => True) (storeCache J config record now)
      (fun stored t => stored = true → Kept J config record now t.card) s := by
  unfold storeCache
  refine Service.wp_storing trivial (Service.wp_makeDirectories trivial (fun made => ?_))
  cases made with
  | false => exact nofun
  | true =>
    refine Service.wp_writeAtomic (fun c _ _ => ⟨trivial, nofun⟩) (fun c _ hdocument => ?_)
    rw [if_neg (by decide)]
    split
    · exact Service.wp_abort trivial
    · next text htext =>
      rw [← Program.bind_done (Service.writeAtomic _ _)]
      exact Service.wp_writeAtomic (fun c' _ _ => ⟨trivial, nofun⟩)
        (fun c' hagree hmetadata _ => kept_of_written hdocument htext hagree hmetadata)

lemma faultless_storeCache {text : Bytes} (htext : serializeCacheMetadata J (metadataOf record now) = some text) :
    (storeCache J config record now).Asks (fun e => ¬e.Faults) := by
  unfold storeCache
  refine ⟨id, fun _ => ⟨id, fun (made : Bool) => ?_⟩⟩
  cases made with
  | false => trivial
  | true =>
    refine (faultless_writeAtomic _ _).bind (fun written => ?_)
    cases written with
    | false => trivial
    | true =>
      rw [htext]
      exact faultless_writeAtomic _ _

lemma run_storeCache (J : JsonLibrary) (config : SelfUpdateConfig) (record : CacheRecord) (now : Int64) (s : Console) :
    ∃ t : Console, t.card.lookup config.cachedManifestPath = some record.document ∧
    Service.world.run .ok (storeCache J config record now) s =
      Service.world.run .ok (match serializeCacheMetadata J (metadataOf record now) with
        | none => Service.abort
        | some text => Service.writeAtomic config.cacheMetadataPath text) t := by
  obtain ⟨c, hrun, _, hdocument⟩ := Service.run_writeAtomic { s with stored := record :: s.stored }
    config.cachedManifestPath record.document
  exact ⟨_, hdocument, World.run_bind_of_some _ hrun _⟩

lemma serialized_of_faultless (h : (storeCache J config record now).Asks (fun e => ¬e.Faults)) :
    (serializeCacheMetadata J (metadataOf record now)).isSome = true := by
  obtain ⟨stored, s', hrun⟩ := run_of_faultless h { card := ∅ }
  obtain ⟨t, _, hsame⟩ := run_storeCache J config record now { card := ∅ }
  cases hserialized : serializeCacheMetadata J (metadataOf record now) with
  | none =>
    rw [hserialized] at hsame
    cases hrun.symm.trans hsame
  | some text => rfl

lemma exists_stored (config : SelfUpdateConfig) {text : Bytes}
    (htext : serializeCacheMetadata J (metadataOf record now) = some text) (s : Console) :
    ∃ fates, (Service.world.exec (storeCache J config record now) fates s).outcome = some true ∧
      Kept J config record now (Service.world.exec (storeCache J config record now) fates s).state.card := by
  obtain ⟨t, hdocument, hrun⟩ := run_storeCache J config record now s
  obtain ⟨c, hwritten, hagree, hmetadata⟩ := Service.run_writeAtomic t config.cacheMetadataPath text
  rw [htext] at hrun
  obtain ⟨n, hout, hstate⟩ := World.exec_of_run _ (hrun.trans hwritten)
  exact ⟨List.replicate n .ok, hout, by rw [hstate]; exact kept_of_written hdocument htext hagree hmetadata⟩

lemma faultless_loadCache : (loadCache J config).Asks (fun e => ¬e.Faults) := by
  unfold loadCache
  refine ⟨id, fun raw => ?_⟩
  dsimp only [bind, Program.bind]
  split
  · trivial
  · next raw =>
    split
    · trivial
    · next hfault =>
      have hchecked : (parseCacheMetadata J raw).Checked (fun _ => True) :=
        Documents.checked_object Documents.checked_readCacheMetadata _ _ _
      rw [hfault] at hchecked
      exact hchecked.elim
    · refine ⟨id, fun document => ?_⟩
      dsimp only [bind, Program.bind]
      split
      · trivial
      · split <;> trivial

lemma run_loadCache (J : JsonLibrary) (config : SelfUpdateConfig) (s : Console) :
    ∃ s', Service.world.run .ok (loadCache J config) s =
    (some (cacheOn J config s.card), s') := by
  have hwp : Service.world.wp (fun _ => True) (fun _ => True) (loadCache J config)
      (fun found _ => found = cacheOn J config s.card) s := by
    rw [← Program.bind_done (loadCache J config)]
    exact wp_loadCache trivial rfl
  obtain ⟨found, s', hrun, rfl⟩ :=
    World.run_of_wp hwp faultless_loadCache (fun _ s he => answered he s) (fun _ _ => trivial)
  exact ⟨s', hrun⟩

end Store

structure Cacheable (J : JsonLibrary) (config : SelfUpdateConfig) (record : CacheRecord) (now : Int64) : Prop where
  faultless : (storeCache J config record now).Asks (fun e => ¬e.Faults)
  readBack : ∀ fates s, (Service.world.exec (storeCache J config record now) fates s).outcome = some true →
    ∃ text, (Service.world.exec (storeCache J config record now) fates s).state.card.lookup config.cacheMetadataPath =
      some text ∧ parseCacheMetadata J text = .ok (metadataOf record now)
  loaded : ∀ fates s, (Service.world.exec (storeCache J config record now) fates s).outcome = some true →
    (Service.world.run .ok (loadCache J config)
      (Service.world.exec (storeCache J config record now) fates s).state).1 =
        some (some ⟨metadataOf record now, record.document⟩)

structure Storable (J : JsonLibrary) (record : CacheRecord) (now : Int64) : Prop where
  etag : validUtf8 record.etag = true
  sourceUrl : validUtf8 record.sourceUrl = true
  document : record.document.length ≤ kMaxDocumentBytes
  metadata : ∀ text, serializeCacheMetadata J (metadataOf record now) = some text → text.length ≤ kMaxSidecarBytes

section Cacheable

variable {J : JsonLibrary} {config : SelfUpdateConfig} {record : CacheRecord} {now : Int64}

lemma metadataOf_isSome : (serializeCacheMetadata J (metadataOf record now)).isSome = true ↔
    validUtf8 record.etag = true ∧ validUtf8 record.sourceUrl = true :=
  serializeCacheMetadata_isSome.trans (and_iff_right (validUtf8_of_ascii (toHex_ascii _)))

lemma parse_metadataOf (hnow : 0 ≤ now) {text : Bytes}
    (htext : serializeCacheMetadata J (metadataOf record now) = some text) :
    parseCacheMetadata J text = .ok (metadataOf record now) :=
  (parseCacheMetadata_serializeCacheMetadata htext).trans
    (readCacheMetadata_document rfl hnow (isLowercaseHexDigest_toHex _))

lemma cacheOn_of_kept (hnow : 0 ≤ now) (h : Storable J record now) {card : Card} (hkept : Kept J config record now card) :
    cacheOn J config card = some ⟨metadataOf record now, record.document⟩ := by
  obtain ⟨hdocument, text, htext, hmetadata⟩ := hkept
  have hsize : (metadataOf record now).documentSize.toNat = record.document.length := by
    have hfits := h.document
    rw [metadataOf, Nat.toUInt64_eq, UInt64.toNat_ofNat']
    rw [kMaxDocumentBytes] at hfits
    omega
  have hmatch : cacheMatchesDocument (metadataOf record now) record.document = true := by
    rw [cacheMatchesDocument, hsize, beq_self_eq_true, Bool.true_and, metadataOf, beq_self_eq_true]
  have hdocumentRead : (card.lookup config.cachedManifestPath).filter (fun b => b.length ≤ kMaxDocumentBytes) =
      some record.document := Option.filter_eq_some_iff.mpr ⟨hdocument, decide_eq_true h.document⟩
  have hmetadataRead : (card.lookup config.cacheMetadataPath).filter (fun b => b.length ≤ kMaxSidecarBytes) =
      some text := Option.filter_eq_some_iff.mpr ⟨hmetadata, decide_eq_true (h.metadata text htext)⟩
  simp only [cacheOn, hmetadataRead, hdocumentRead, parse_metadataOf hnow htext, Except.toOption, hmatch,
    Option.bind_eq_bind, Option.bind_some, if_true]

lemma fits_of_cacheOn {card : Card} (hkept : Kept J config record now card) {pair : CachedDocument}
    (h : cacheOn J config card = some pair) : record.document.length ≤ kMaxDocumentBytes ∧
      ∀ text, serializeCacheMetadata J (metadataOf record now) = some text → text.length ≤ kMaxSidecarBytes := by
  obtain ⟨hdocument, text, htext, hmetadata⟩ := hkept
  simp only [cacheOn, Option.bind_eq_bind, Option.bind_eq_some_iff, Option.filter_eq_some_iff] at h
  obtain ⟨raw, ⟨hraw, hsidecar⟩, _, _, document, ⟨hread, hlength⟩, _⟩ := h
  obtain rfl : record.document = document := Option.some.inj (hdocument.symm.trans hread)
  obtain rfl : text = raw := Option.some.inj (hmetadata.symm.trans hraw)
  refine ⟨of_decide_eq_true hlength, fun text' htext' => ?_⟩
  obtain rfl : text = text' := Option.some.inj (htext.symm.trans htext')
  exact of_decide_eq_true hsidecar

lemma cacheable_of_storable (hnow : 0 ≤ now) (h : Storable J record now) : Cacheable J config record now := by
  have hkept : ∀ fates s, (Service.world.exec (storeCache J config record now) fates s).outcome = some true →
      Kept J config record now (Service.world.exec (storeCache J config record now) fates s).state.card :=
    fun fates s hout => World.exec_post hout (wp_storeCache_kept s) rfl
  refine ⟨?_, fun fates s hout => ?_, fun fates s hout => ?_⟩
  · obtain ⟨text, htext⟩ := Option.isSome_iff_exists.mp (metadataOf_isSome.mpr ⟨h.etag, h.sourceUrl⟩)
    exact faultless_storeCache htext
  · obtain ⟨_, text, htext, hmetadata⟩ := hkept fates s hout
    exact ⟨text, hmetadata, parse_metadataOf hnow htext⟩
  · obtain ⟨s', hrun⟩ := run_loadCache J config
      (Service.world.exec (storeCache J config record now) fates s).state
    rw [hrun, cacheOn_of_kept hnow h (hkept fates s hout)]

lemma storable_of_cacheable (h : Cacheable J config record now) : Storable J record now := by
  obtain ⟨hetag, hurl⟩ := metadataOf_isSome.mp (serialized_of_faultless h.faultless)
  obtain ⟨text, htext⟩ := Option.isSome_iff_exists.mp (serialized_of_faultless h.faultless)
  obtain ⟨fates, hout, hkept⟩ := exists_stored config htext { card := ∅ }
  have hloaded := h.loaded fates _ hout
  obtain ⟨s', hrun⟩ := run_loadCache J config
    (Service.world.exec (storeCache J config record now) fates { card := ∅ }).state
  rw [hrun] at hloaded
  obtain ⟨hdocument, hmetadata⟩ := fits_of_cacheOn hkept (Option.some.inj hloaded)
  exact ⟨hetag, hurl, hdocument, hmetadata⟩

lemma length_metadata (hJ : J.Concise) {text : Bytes}
    (htext : serializeCacheMetadata J (metadataOf record now) = some text) :
    text.length ≤ 928 + 6 * (record.etag.length + record.sourceUrl.length) := by
  obtain ⟨body, hbody, rfl⟩ := Option.map_eq_some_iff.mp htext
  have hdigest : (Sha256.hexOf record.document).length = 64 := by simp [Sha256.hexOf, toHex, hexOfByte, List.length_flatMap]
  have hlength := hJ.length_dump _ _ hbody
  simp only [CacheMetadata.members, metadataOf, List.map_cons, List.map_nil, List.sum_cons, List.sum_nil, Scalar.width,
    hdigest] at hlength
  rw [List.length_append]
  simp [ascii] at hlength ⊢
  omega

lemma storable_of_short (hJ : J.Concise) (hetag : validUtf8 record.etag = true)
    (hurl : validUtf8 record.sourceUrl = true) (hdocument : record.document.length ≤ kMaxDocumentBytes)
    (hshort : record.etag.length + record.sourceUrl.length ≤ 10000) : Storable J record now := by
  refine ⟨hetag, hurl, hdocument, fun text htext => ?_⟩
  have hlength := length_metadata hJ htext
  rw [kMaxSidecarBytes]
  omega

end Cacheable

theorem fetched_response_is_cacheable_iff (J : JsonLibrary) (config : SelfUpdateConfig) (usedMirror : Bool)
    (now : Int64) (hnow : 0 ≤ now) {ifNoneMatch : Bytes} {initialised : Bool}
    {perform : Bytes → List Bytes → CurlClient.Transfer} {response : Response}
    (hfetch : CurlClient.fetch (config.sourceUrl usedMirror) ifNoneMatch initialised perform = .ok response) :
    Cacheable J config ⟨response.body, response.etag, config.sourceUrl usedMirror⟩ now ↔
      validUtf8 response.etag = true ∧ validUtf8 (config.sourceUrl usedMirror) = true ∧
        ∀ text, serializeCacheMetadata J (metadataOf ⟨response.body, response.etag, config.sourceUrl usedMirror⟩ now) =
          some text → text.length ≤ kMaxSidecarBytes := by
  constructor
  · intro h
    have hstorable := storable_of_cacheable h
    exact ⟨hstorable.etag, hstorable.sourceUrl, hstorable.metadata⟩
  · rintro ⟨hetag, hurl, hmetadata⟩
    exact cacheable_of_storable hnow ⟨hetag, hurl, CurlClient.length_body_of_get hfetch, hmetadata⟩

theorem response_is_cacheable_iff (J : JsonLibrary) (config : SelfUpdateConfig) (response : Response)
    (usedMirror : Bool) (now : Int64) (hnow : 0 ≤ now) :
    Cacheable J config ⟨response.body, response.etag, config.sourceUrl usedMirror⟩ now ↔
      Storable J ⟨response.body, response.etag, config.sourceUrl usedMirror⟩ now :=
  ⟨storable_of_cacheable, cacheable_of_storable hnow⟩

lemma Sample.length_published : Sample.published.length = 335 := by decide +kernel

theorem a_tagged_response_is_cacheable : Cacheable JsonCodec.library Sample.service
    ⟨Sample.response.body, Sample.response.etag, Sample.service.sourceUrl false⟩ 100 := by
  have hetag : validUtf8 Sample.response.etag = true := validUtf8_of_ascii (by decide +kernel)
  have hurl : validUtf8 (Sample.service.sourceUrl false) = true := validUtf8_of_ascii (by decide +kernel)
  have hdocument : Sample.response.body.length ≤ kMaxDocumentBytes := Sample.length_published.trans_le (by decide)
  have hshort : Sample.response.etag.length + (Sample.service.sourceUrl false).length ≤ 10000 := by decide +kernel
  exact (response_is_cacheable_iff JsonCodec.library Sample.service Sample.response false 100 (by decide)).mpr
    (storable_of_short JsonCodec.concise_library hetag hurl hdocument hshort)

namespace Sample

def mistagged : CurlClient.Transfer where
  headers := [ascii "HTTP/1.1 200 OK\r\n", ascii "ETag: " ++ [0xff] ++ ascii "\r\n"]
  chunks := [published]
  counted := by simp [length_published]
  code := .ok
  verifyResult := none
  status := 200

end Sample

theorem a_mistagged_response_faults_the_cache : ∃ response,
    (CurlClient.fetch Sample.service.manifestUrl [] true (fun _ _ => Sample.mistagged)).toOption = some response ∧
    (parseManifest JsonCodec.library response.body).isOk = true ∧
    ¬(storeCache JsonCodec.library Sample.service
        ⟨response.body, response.etag, Sample.service.sourceUrl false⟩ 0).Asks (fun e => ¬e.Faults) ∧
    ¬Cacheable JsonCodec.library Sample.service
        ⟨response.body, response.etag, Sample.service.sourceUrl false⟩ 0 := by
  have hfaults : ¬(storeCache JsonCodec.library Sample.service
      ⟨Sample.published, [0xff], Sample.service.sourceUrl false⟩ 0).Asks (fun e => ¬e.Faults) := by
    intro h
    have hutf8 := (metadataOf_isSome.mp (serialized_of_faultless h)).1
    exact absurd hutf8 (by decide)
  have hfetched : (CurlClient.fetch Sample.service.manifestUrl [] true (fun _ _ => Sample.mistagged)).toOption =
        some ⟨200, Sample.published, [0xff]⟩ ∧ (parseManifest JsonCodec.library Sample.published).isOk = true := by
    decide +kernel
  exact ⟨⟨200, Sample.published, [0xff]⟩, hfetched.1, hfetched.2, hfaults, fun h => hfaults h.faultless⟩

end NsxManager.SelfUpdate
