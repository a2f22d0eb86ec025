import NsxManager.SelfUpdate.Informed

/-! The cached pair over any number of launches, each cut off anywhere. -/

namespace NsxManager.SelfUpdate

open NsxManager.Core Lib Infra

structure Launch where
  config : SelfUpdateConfig
  fates : List ServiceFate

def afterLaunch (J : JsonLibrary) (s : Console) (launch : Launch) : Console :=
  (Service.world.exec (check J launch.config) launch.fates s).state

def afterLaunches (J : JsonLibrary) (s : Console) (launches : List Launch) : Console :=
  launches.foldl (afterLaunch J) s

def Received (J : JsonLibrary) (s : Console) (document : Bytes) : Prop :=
  ∃ response manifest, .ok response ∈ s.answers ∧ response.body = document ∧
    parseManifest J document = .ok manifest

structure Trusted (J : JsonLibrary) (dir : Bytes) (s : Console) : Prop where
  document : ∀ document, s.card.lookup (dir ++ ascii "/update.json") = some document → Received J s document
  records : ∀ record ∈ s.stored, Received J s record.document
  metadata : ∀ text m, s.card.lookup (dir ++ ascii "/update.meta.json") = some text →
    parseCacheMetadata J text = .ok m → ∃ record ∈ s.stored, m.etag = record.etag ∧
      m.sourceUrl = record.sourceUrl ∧ m.documentSha256 = Sha256.hexOf record.document

section Trusted

variable {J : JsonLibrary} {config : SelfUpdateConfig} {s : Console} {c : Card} {b : Beginning}
  {A : Event ServiceOp ServiceOp.Reply ServiceFate → Prop}

lemma Received.of_answers {document : Bytes} (h : Received J s document) {t : Console}
    (hanswers : ∀ answer ∈ s.answers, answer ∈ t.answers) : Received J t document := by
  obtain ⟨response, manifest, hmem, hbody, hparse⟩ := h
  exact ⟨response, manifest, hanswers _ hmem, hbody, hparse⟩

lemma Trusted.of_answers {dir : Bytes} (h : Trusted J dir s) {answers : List (Except HttpError Response)}
    (hanswers : ∀ answer ∈ s.answers, answer ∈ answers) : Trusted J dir { s with answers := answers } where
  document d hd := (h.document d hd).of_answers hanswers
  records r hr := (h.records r hr).of_answers hanswers
  metadata := h.metadata

lemma Trusted.storing {dir : Bytes} (h : Trusted J dir s) {record : CacheRecord}
    (hrecord : Received J s record.document) : Trusted J dir { s with stored := record :: s.stored } where
  document d hd := h.document d hd
  records r hr := by
    rcases List.mem_cons.mp hr with rfl | hr
    · exact hrecord
    · exact h.records r hr
  metadata text m htext hm := by
    obtain ⟨r, hr, hsame⟩ := h.metadata text m htext hm
    exact ⟨r, List.mem_cons_of_mem _ hr, hsame⟩

lemma file_ne (dir : Bytes) {a b : Bytes} (h : a ≠ b) : dir ++ a ≠ dir ++ b :=
  fun heq => h (List.append_cancel_left heq)

lemma notMem_written (dir : Bytes) {a b : Bytes} (h : a ∉ [b, b ++ ascii ".tmp"]) :
    dir ++ a ∉ [dir ++ b, dir ++ b ++ ascii ".tmp"] := by
  simp only [List.mem_cons, List.not_mem_nil, or_false, not_or] at h ⊢
  rw [List.append_assoc]
  exact ⟨file_ne dir h.1, file_ne dir h.2⟩

lemma Trusted.of_card {dir : Bytes} (h : Trusted J dir s)
    (hdocument : c.lookup (dir ++ ascii "/update.json") = s.card.lookup (dir ++ ascii "/update.json"))
    (hmetadata : c.lookup (dir ++ ascii "/update.meta.json") = s.card.lookup (dir ++ ascii "/update.meta.json")) :
    Trusted J dir { s with card := c } where
  document d hd := h.document d (hdocument.symm.trans hd)
  records := h.records
  metadata text m htext := h.metadata text m (hmetadata.symm.trans htext)

lemma Trusted.of_document {dir document : Bytes} (h : Trusted J dir s) (hreceived : Received J s document)
    (hagree : Card.Agree [dir ++ ascii "/update.json", dir ++ ascii "/update.json" ++ ascii ".tmp"] s.card c)
    (hdocument : c.lookup (dir ++ ascii "/update.json") = s.card.lookup (dir ++ ascii "/update.json") ∨
      c.lookup (dir ++ ascii "/update.json") = none ∨ c.lookup (dir ++ ascii "/update.json") = some document) :
    Trusted J dir { s with card := c } where
  document d hd := by
    rcases hdocument with hsame | hnone | hnew
    · exact h.document d (hsame.symm.trans hd)
    · exact absurd (hnone.symm.trans hd) (by simp)
    · obtain rfl : document = d := Option.some.inj (hnew.symm.trans hd)
      exact hreceived
  records := h.records
  metadata text m htext := h.metadata text m ((hagree _ (notMem_written dir (by decide))).symm.trans htext)

lemma Trusted.of_metadata {dir text : Bytes} {record : CacheRecord} {now : Int64} (h : Trusted J dir s)
    (hrecord : record ∈ s.stored) (htext : serializeCacheMetadata J (metadataOf record now) = some text)
    (hagree : Card.Agree [dir ++ ascii "/update.meta.json", dir ++ ascii "/update.meta.json" ++ ascii ".tmp"]
      s.card c)
    (hmetadata : c.lookup (dir ++ ascii "/update.meta.json") = s.card.lookup (dir ++ ascii "/update.meta.json") ∨
      c.lookup (dir ++ ascii "/update.meta.json") = none ∨
      c.lookup (dir ++ ascii "/update.meta.json") = some text) :
    Trusted J dir { s with card := c } where
  document d hd := h.document d ((hagree _ (notMem_written dir (by decide))).symm.trans hd)
  records := h.records
  metadata text' m ht hm := by
    rcases hmetadata with hsame | hnone | hnew
    · exact h.metadata text' m (hsame.symm.trans ht) hm
    · exact absurd (hnone.symm.trans ht) (by simp)
    · obtain rfl : text = text' := Option.some.inj (hnew.symm.trans ht)
      exact ⟨record, hrecord, parseCacheMetadata_readBack htext hm⟩

abbrev keeps {α : Type} (J : JsonLibrary) (config : SelfUpdateConfig)
    (A : Event ServiceOp ServiceOp.Reply ServiceFate → Prop) (p : ServiceProgram α) (s : Console) : Prop :=
  Service.world.wp A (Trusted J config.cacheDir) p (fun _ => Trusted J config.cacheDir) s

lemma wp_saveBackoff_trusted {α : Type} {state : BackoffState} {k : Unit → ServiceProgram α}
    (h : Trusted J config.cacheDir s) (hk : ∀ t, Trusted J config.cacheDir t → keeps J config A (k ()) t) :
    keeps J config A (saveBackoff J config state >>= k) s := by
  have hsaved : ∀ c, Card.Agree [config.backoffPath, config.backoffPath ++ ascii ".tmp"] s.card c →
      Trusted J config.cacheDir { s with card := c } := fun c hagree =>
    h.of_card (hagree _ (notMem_written config.cacheDir (by decide)))
      (hagree _ (notMem_written config.cacheDir (by decide)))
  unfold saveBackoff
  rw [Program.bind_assoc]
  refine Service.wp_makeDirectories h (fun _ => ?_)
  split
  · exact (World.wp_bind _ _ _).mpr (Service.wp_abort h)
  · rw [Program.bind_assoc]
    exact Service.wp_writeAtomic (fun c hagree _ => ⟨hsaved c hagree, hk _ (hsaved c hagree)⟩)
      (fun c hagree _ => hk _ (hsaved c hagree))

lemma wp_storeCache_trusted {α : Type} {record : CacheRecord} {now : Int64} {k : Bool → ServiceProgram α}
    (h : Trusted J config.cacheDir s) (hrecord : Received J s record.document)
    (hk : ∀ stored t, Trusted J config.cacheDir t → t.answers = s.answers → keeps J config A (k stored) t) :
    keeps J config A (storeCache J config record now >>= k) s := by
  have hstored := h.storing hrecord
  unfold storeCache
  rw [Program.bind_assoc]
  refine Service.wp_storing h ?_
  rw [Program.bind_assoc]
  refine Service.wp_makeDirectories hstored (fun made => ?_)
  cases made with
  | false => exact hk _ _ hstored rfl
  | true =>
    rw [if_neg (by decide), Program.bind_assoc]
    refine Service.wp_writeAtomic (fun c hagree hpath => ?_) (fun c hagree hpath => ?_)
    · have hkept := hstored.of_document hrecord hagree (hpath.imp_right .inl)
      exact ⟨hkept, hk _ _ hkept rfl⟩
    · have hkept := hstored.of_document hrecord hagree (.inr (.inr hpath))
      rw [if_neg (by decide)]
      split
      · exact (World.wp_bind _ _ _).mpr (Service.wp_abort hkept)
      · next text htext =>
        refine Service.wp_writeAtomic (fun c' hagree' hpath' => ?_) (fun c' hagree' hpath' => ?_)
        · have hkept' := hkept.of_metadata List.mem_cons_self htext hagree' (hpath'.imp_right .inl)
          exact ⟨hkept', hk _ _ hkept' rfl⟩
        · exact hk _ _ (hkept.of_metadata List.mem_cons_self htext hagree' (.inr (.inr hpath'))) rfl

lemma afterRefusal_trusted (h : Trusted J config.cacheDir s) (usedMirror : Bool) (error : HttpError) :
    keeps J config A (afterRefusal J config b usedMirror error) s := by
  unfold afterRefusal
  refine wp_saveBackoff_trusted h (fun t ht => ?_)
  split
  · exact wp_fromDocument ht (fun _ _ => ht)
  · exact ht

lemma afterNotModified_trusted (h : Trusted J config.cacheDir s) (usedMirror : Bool) {pair : CachedDocument}
    (hpair : Received J s pair.document) : keeps J config A (afterNotModified J config b usedMirror pair) s := by
  unfold afterNotModified
  refine wp_storeCache_trusted h hpair (fun _ t ht _ => wp_saveBackoff_trusted ht (fun t' ht' => ?_))
  exact wp_fromDocument ht' (fun _ _ => ht')

lemma received_of_speaks {document : Bytes} {out : CheckOutcome} (hout : Speaks J config document out)
    (hreadable : out.decision.action ≠ .manifestUnreadable) {response : Response}
    (hresponse : .ok response ∈ s.answers) (hbody : response.body = document) : Received J s document := by
  unfold Speaks at hout
  split at hout
  · next manifest hparse => exact ⟨response, manifest, hresponse, hbody, hparse⟩
  · exact absurd hout hreadable

lemma afterResponse_trusted (h : Trusted J config.cacheDir s) (usedMirror : Bool) {response : Response}
    (hresponse : .ok response ∈ s.answers) : keeps J config A (afterResponse J config b usedMirror response) s := by
  unfold afterResponse
  refine wp_fromDocument h (fun out hout => ?_)
  split
  · refine wp_saveBackoff_trusted h (fun t ht => ?_)
    split
    · exact wp_fromDocument ht (fun _ _ => ht)
    · exact ht
  · next hreadable =>
    refine wp_storeCache_trusted h (received_of_speaks hout hreadable hresponse rfl) (fun _ t ht _ => ?_)
    exact wp_saveBackoff_trusted ht (fun t' ht' => ht')

lemma cacheOn_some {card : Card} {pair : CachedDocument} (h : cacheOn J config card = some pair) :
    card.lookup config.cachedManifestPath = some pair.document ∧
      ∃ text, card.lookup config.cacheMetadataPath = some text ∧ parseCacheMetadata J text = .ok pair.metadata := by
  simp only [cacheOn, Option.bind_eq_bind, Option.bind_eq_some_iff, Option.filter_eq_some_iff] at h
  obtain ⟨text, ⟨htext, _⟩, metadata, hparse, document, ⟨hdocument, _⟩, h⟩ := h
  split at h
  · cases h
    refine ⟨hdocument, text, htext, ?_⟩
    cases hp : parseCacheMetadata J text with
    | error e => simp [hp, Except.toOption] at hparse
    | ok m => simpa [hp, Except.toOption] using hparse
  · cases h

lemma check_trusted (h : Trusted J config.cacheDir s) : keeps J config A (check J config) s := by
  refine wp_check h (fun now => wp_proceed h (fun _ _ _ _ => h) (fun _ _ => h) ?_)
  refine wp_askNetwork h (fun _ => h.of_answers (fun _ => List.mem_cons_of_mem _)) ?_ ?_ ?_
  · intro usedMirror error older hreached
    exact afterRefusal_trusted (h.of_answers hreached.kept) usedMirror error
  · intro usedMirror response older pair hreached _ hpair
    exact afterNotModified_trusted (h.of_answers hreached.kept) usedMirror
      ((h.document _ (cacheOn_some hpair).1).of_answers hreached.kept)
  · intro usedMirror response older hreached
    exact afterResponse_trusted (h.of_answers hreached.kept) usedMirror List.mem_cons_self

lemma afterLaunches_trusted {dir : Bytes} {launches : List Launch}
    (hdir : ∀ launch ∈ launches, launch.config.cacheDir = dir) (h : Trusted J dir s) :
    Trusted J dir (afterLaunches J s launches) := by
  induction launches generalizing s with
  | nil => exact h
  | cons launch launches ih =>
    obtain rfl := hdir launch List.mem_cons_self
    exact ih (fun l hl => hdir l (List.mem_cons_of_mem _ hl)) (World.exec_invariant (check_trusted h))

lemma trusted_of_empty {dir : Bytes} {card : Card}
    (hdocument : card.lookup (dir ++ ascii "/update.json") = none)
    (hmetadata : card.lookup (dir ++ ascii "/update.meta.json") = none) : Trusted J dir { card } where
  document d hd := by simp [hdocument] at hd
  records r hr := by simp at hr
  metadata text m htext := by simp [hmetadata] at htext

end Trusted

lemma hexOf_inj {a b : Bytes} (h : Sha256.hexOf a = Sha256.hexOf b) : Sha256.of a = Sha256.of b := by
  have hread := congrArg fromHex h
  rw [Sha256.hexOf, Sha256.hexOf, fromHex_toHex, fromHex_toHex] at hread
  exact Option.some.inj hread

def Distinct (s : Console) : Prop :=
  ∀ r r' : Response, .ok r ∈ s.answers → .ok r' ∈ s.answers → Sha256.of r.body = Sha256.of r'.body → r.body = r'.body

lemma Trusted.cached {J : JsonLibrary} {config : SelfUpdateConfig} {s : Console} {pair : CachedDocument}
    (h : Trusted J config.cacheDir s) (hdistinct : Distinct s) (hfound : cacheOn J config s.card = some pair) :
    Received J s pair.document ∧ ⟨pair.document, pair.metadata.etag, pair.metadata.sourceUrl⟩ ∈ s.stored := by
  obtain ⟨hdoc, text, htext, hparse⟩ := cacheOn_some hfound
  have hreceived := h.document _ hdoc
  obtain ⟨record, hrecord, hetag, hurl, hdigest⟩ := h.metadata text _ htext hparse
  have hmatch := cacheOn_matches hfound
  simp only [cacheMatchesDocument, Bool.and_eq_true, beq_iff_eq] at hmatch
  have hsame : pair.document = record.document := by
    obtain ⟨r, _, hr, hbody, _⟩ := hreceived
    obtain ⟨r', _, hr', hbody', _⟩ := h.records record hrecord
    rw [← hbody, ← hbody']
    refine hdistinct r r' hr hr' (hexOf_inj ?_)
    rw [hbody, hbody', hmatch.2, hdigest]
  refine ⟨hreceived, ?_⟩
  rw [hsame, hetag, hurl]
  exact hrecord

theorem cached_pair_was_received (J : JsonLibrary) (config : SelfUpdateConfig) (launches : List Launch)
    (card : Card) (fates : List ServiceFate) (pair : CachedDocument)
    (hdir : ∀ launch ∈ launches, launch.config.cacheDir = config.cacheDir)
    (hdocument : card.lookup config.cachedManifestPath = none)
    (hmetadata : card.lookup config.cacheMetadataPath = none)
    (hcollision : ∀ r r' : Response, .ok r ∈ (afterLaunches J { card } launches).answers →
      .ok r' ∈ (afterLaunches J { card } launches).answers →
      Sha256.of r.body = Sha256.of r'.body → r.body = r'.body)
    (hload : (Service.world.exec (loadCache J config) fates (afterLaunches J { card } launches)).outcome =
      some (some pair)) :
    Received J (afterLaunches J { card } launches) pair.document ∧
      ⟨pair.document, pair.metadata.etag, pair.metadata.sourceUrl⟩ ∈
        (afterLaunches J { card } launches).stored := by
  have htrusted := afterLaunches_trusted (J := J) hdir (trusted_of_empty hdocument hmetadata)
  generalize afterLaunches J { card } launches = s at *
  rw [← Program.bind_done (loadCache J config)] at hload
  have hfound : cacheOn J config s.card = some pair :=
    World.exec_post (C := fun _ => True) (Q := fun found _ => cacheOn J config s.card = found) hload
      (wp_loadCache trivial rfl)
  exact htrusted.cached hcollision hfound

namespace Sample

def response : Response := { status := 200, body := published, etag := ascii "x" }

def firstLaunch : Launch := ⟨service, [.time 100, .ok, .ok, .responded response] ++ List.replicate 20 .ok⟩

end Sample

theorem cached_pair_after_the_first_launch :
    let s := afterLaunches JsonCodec.library { card := ∅ } [Sample.firstLaunch]
    ∃ pair, (Service.world.exec (loadCache JsonCodec.library Sample.service) [.ok, .ok] s).outcome =
        some (some pair) ∧
      Received JsonCodec.library s pair.document ∧
      ⟨pair.document, pair.metadata.etag, pair.metadata.sourceUrl⟩ ∈ s.stored := by
  have hrun : let s := afterLaunches JsonCodec.library { card := ∅ } [Sample.firstLaunch]
      (Service.world.exec (loadCache JsonCodec.library Sample.service) [.ok, .ok] s).outcome.join.isSome ∧
        s.answers = [.ok Sample.response] := by
    decide +kernel
  obtain ⟨hloaded, hanswers⟩ := hrun
  obtain ⟨pair, hpair⟩ := Option.isSome_iff_exists.mp hloaded
  rw [Option.join_eq_some_iff] at hpair
  refine ⟨pair, hpair, cached_pair_was_received JsonCodec.library Sample.service [Sample.firstLaunch] ∅ [.ok, .ok]
    pair (by simp [Sample.firstLaunch]) rfl rfl (fun r r' hr hr' _ => ?_) hpair⟩
  rw [hanswers, List.mem_singleton] at hr hr'
  rw [Except.ok.inj hr, Except.ok.inj hr']

end NsxManager.SelfUpdate
