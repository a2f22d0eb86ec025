import NsxManager.Catalog.Lockstep
import NsxManager.Core.Checked
import NsxManager.SelfUpdate.Informed

/-! The catalogue service does what the update check does. -/

namespace NsxManager.Catalog

open NsxManager.Core Lib Infra SelfUpdate Parse

section Checked

variable {entry : Members}

lemma checked_requiredText (key : Bytes) : (requiredText entry key).Checked (fun _ => True) :=
  checked_bind (checked_need _ _) (fun _ h => checked_stringField _ h)

lemma checked_optionalText (key : Bytes) : (optionalText entry key).Checked (fun _ => True) := by
  unfold optionalText
  split
  · next h => exact checked_bind (checked_stringField _ h) (fun _ _ => trivial)
  · trivial

lemma checked_honoursPreserveRules (kind : ContentKind) :
    (honoursPreserveRules entry kind).Checked (fun _ => True) := by
  unfold honoursPreserveRules
  split
  · next h =>
    exact checked_bind (checked_index h) (fun _ _ => checked_bind (checked_need _ _) (fun _ hv => checked_getBool hv))
  · trivial

lemma checked_itemFields (out : Document) (kind : ContentKind) (target : Cfw.InstallTarget) :
    (itemFields out entry kind target).Checked (fun _ => True) := by
  have hdigest : ∀ hex, (itemDigest hex).Checked (fun _ => True) := by
    intro hex
    unfold itemDigest
    split <;> trivial
  unfold itemFields
  refine checked_bind (checked_need _ _) (fun _ hkeys => ?_)
  have hhas : ∀ key ∈ itemKeys, entry.has key = true := fun _ => has_of_all hkeys
  refine checked_bind (checked_stringField _ (hhas _ (by decide))) (fun _ _ => ?_)
  refine checked_bind (checked_stringField _ (hhas _ (by decide))) (fun _ _ => ?_)
  refine checked_bind (checked_stringField _ (hhas _ (by decide))) (fun _ _ => ?_)
  refine checked_bind (checked_stringField _ (hhas _ (by decide))) (fun hex _ => ?_)
  refine checked_bind (checked_need _ _) (fun _ _ => checked_bind (checked_need _ _) (fun _ _ => ?_))
  refine checked_bind (checked_need _ _) (fun _ _ => ?_)
  refine checked_bind (Q := fun _ => True) ?_ (fun _ _ => checked_bind (hdigest hex) (fun _ _ => ?_))
  · refine checked_bind (checked_index (hhas _ (by decide))) (fun _ _ => checked_bind (checked_need _ _) ?_)
    exact fun _ hsize => checked_bind (checked_getUInt64 hsize) (fun _ _ =>
      checked_bind (checked_need _ _) (fun _ _ => trivial))
  refine checked_bind (checked_optionalText _) (fun _ _ => checked_bind (checked_optionalText _) (fun _ _ => ?_))
  refine checked_bind (checked_optionalText _) (fun _ _ => checked_bind (checked_optionalText _) (fun _ _ => ?_))
  refine checked_bind (checked_need _ _) (fun _ _ => ?_)
  exact checked_bind (checked_honoursPreserveRules kind) (fun _ _ => trivial)

lemma checked_parseItem (out : Document) (v : Json) : (parseItem out v).Checked (fun _ => True) := by
  cases v with
  | object entry =>
    refine checked_bind (checked_requiredText _) (fun kind _ => ?_)
    cases parseKind kind with
    | none => trivial
    | some kind =>
      refine checked_bind (checked_requiredText _) (fun target _ => ?_)
      cases parseTarget target with
      | none => trivial
      | some target => exact checked_bind (checked_itemFields out kind target) (fun _ _ => trivial)
  | _ => trivial

lemma checked_parseCatalog (J : JsonLibrary) (json : Bytes) : (parseCatalog J json).Checked (fun _ => True) := by
  have hitems : ∀ out v, (catalogItems out v).Checked (fun _ => True) := by
    intro out v
    cases v with
    | array entries => exact checked_foldlM checked_parseItem entries out
    | _ => trivial
  unfold parseCatalog
  split
  · trivial
  · refine checked_bind (checked_need _ _) (fun _ hschema => ?_)
    refine checked_bind (checked_integerField _ hschema) (fun _ hint => ?_)
    refine checked_bind (checked_getInt hint) (fun _ _ => checked_bind (checked_need _ _) (fun _ _ => ?_))
    refine checked_bind (checked_optionalText _) (fun _ _ => checked_bind (checked_need _ _) (fun _ hlisted => ?_))
    refine checked_bind (checked_index hlisted) (fun v _ => checked_bind (hitems _ v) (fun _ _ => ?_))
    exact checked_bind (checked_need _ _) (fun _ _ => trivial)
  · trivial

end Checked

structure SameReport (out : CheckOutcome) (out' : CatalogOutcome) : Prop where
  plan : out.plan = out'.plan
  servedFromCache : out.servedFromCache = out'.servedFromCache
  usedMirror : out.usedMirror = out'.usedMirror
  age : out.manifestAgeSeconds = out'.ageSeconds
  transport : out.transport = out'.transport

structure Corresponds (out : CheckOutcome) (out' : CatalogOutcome) : Prop extends SameReport out out' where
  unreadable : out.decision.action = .manifestUnreadable ↔ (!out'.available) = true

def SameVerdict (J : JsonLibrary) (document : Bytes) : Prop :=
  (parseManifest J document).isOk = (parseCatalog J document).isOk

lemma decideUpdate_readable (installed : SemVer) (m : UpdateManifest) (channel : Channel) :
    (decideUpdate installed m channel).action ≠ .manifestUnreadable := by
  unfold decideUpdate
  split_ifs <;> simp

section Services

variable (J : JsonLibrary) {config : SelfUpdateConfig} {config' : CatalogConfig}

lemma alike_fromDocument {urls : List Bytes} {l l' : Layout} (document : Bytes) (served : Bool) (age : Int64)
    (plan : FetchPlan) (detail detail' : Bytes) (h : SameVerdict J document) :
    Alike (SameVerdict J) urls l l' Corresponds
      (SelfUpdate.fromDocument J config document served age plan detail)
      (fromDocument J document served age plan detail') := by
  unfold SameVerdict at h
  unfold SelfUpdate.fromDocument fromDocument
  rcases (checked_parseManifest J document).cases with ⟨m, hm⟩ | ⟨e, hm⟩ <;>
    rcases (checked_parseCatalog J document).cases with ⟨doc, hdoc⟩ | ⟨e', hdoc⟩ <;>
    rw [hm, hdoc] at h <;> rw [hm, hdoc]
  · refine .done ⟨⟨rfl, rfl, rfl, rfl, rfl⟩, ?_⟩
    simp [CatalogOutcome.available, decideUpdate_readable]
  · cases h
  · cases h
  · exact .done ⟨⟨rfl, rfl, rfl, rfl, rfl⟩, iff_of_true rfl rfl⟩

lemma like_clients (hprimary : config'.catalogUrl = config.manifestUrl) (hmirror : config'.mirrorUrl = config.mirrorUrl)
    (httl : config'.cacheTtlSeconds = config.cacheTtlSeconds) (hpolicy : config'.backoff = config.backoff) :
    Client.Like (SameVerdict J) (fun _ _ => True) Corresponds (updateClient J config) (catalogClient J config') where
  primary := hprimary
  mirror := hmirror
  ttl := httl
  policy := hpolicy
  present document served age plan detail detail' h _ := alike_fromDocument J document served age plan detail detail' h
  same _ := trivial
  failed _ := trivial
  unread _ _ _ := trivial
  fresh := trivial
  unreadable _ _ h := h.unreadable
  via _ _ _ h := { h with usedMirror := rfl }
  cutOff _ _ _ _ h := { h with usedMirror := rfl, transport := rfl }
  deferred _ := ⟨⟨rfl, rfl, rfl, rfl, rfl⟩, iff_of_true rfl rfl⟩
  unreachable _ _ _ := ⟨⟨rfl, rfl, rfl, rfl, rfl⟩, iff_of_true rfl rfl⟩

end Services

def serviceHost : Host Service.world where
  console := id
  put _ d := d
  put_console _ := rfl
  step_eq _ _ _ _ := rfl

def renamed (l l' : Layout) (D : Bytes → Prop) : Coupling Service.world Service.world Exchange where
  related s s' := Corr l l' s.card s'.card
  admits f := ∀ response, f = .responded response → D response.body
  observe := exchangeOf
  observe' := exchangeOf

lemma fits_renamed (l l' : Layout) (D : Bytes → Prop) (urls : List Bytes) :
    Fits serviceHost (renamed l l' D) D urls l l' where
  observe := rfl
  observe' := rfl
  cells h := h
  put _ h := h
  fetch ifNoneMatch f _ hf h := by
    refine ⟨f.answer, _, _, rfl, rfl, h, fun response hresponse => hf response ?_⟩
    cases f <;> simp_all [ServiceFate.answer]

def Involved (config : SelfUpdateConfig) (card : Card) (fates : List ServiceFate) (document : Bytes) : Prop :=
  card.lookup config.cachedManifestPath = some document ∨
    ∃ response, .responded response ∈ fates ∧ response.body = document

theorem fetch_follows_check (J : JsonLibrary) (config : SelfUpdateConfig) (config' : CatalogConfig)
    (card card' : Card) (fates : List ServiceFate) (hprimary : config'.catalogUrl = config.manifestUrl)
    (hmirror : config'.mirrorUrl = config.mirrorUrl) (httl : config'.cacheTtlSeconds = config.cacheTtlSeconds)
    (hpolicy : config'.backoff = config.backoff)
    (hcard : Corr (updateLayout config.cacheDir) (catalogLayout config'.cacheDir) card card')
    (hverdict : ∀ document, Involved config card fates document → SameVerdict J document) :
    let t := Service.world.exec (check J config) fates { card }
    let t' := Service.world.exec (fetch J config') fates { card := card' }
    exchanges t.log = exchanges t'.log ∧
      Corr (updateLayout config.cacheDir) (catalogLayout config'.cacheDir) t.state.card t'.state.card ∧
      Option.Rel SameReport t.outcome t'.outcome := by
  rw [check_eq_get, fetch_eq_get]
  have hpaired : (renamed (updateLayout config.cacheDir) (catalogLayout config'.cacheDir) (SameVerdict J)).paired
      ((updateClient J config).get J) ((catalogClient J config').get J)
      (fun out out' s s' => SameReport out out' ∧
        Corr (updateLayout config.cacheDir) (catalogLayout config'.cacheDir) s.card s'.card)
      { card } { card := card' } := by
    refine Coupling.paired_mono (Fits.paired_get (H := serviceHost) (fits_renamed _ _ _ _) ?_
      (like_clients J hprimary hmirror httl hpolicy) ?_) (fun _ _ _ _ h => ⟨h.1.toSameReport, h.2⟩)
    · exact hcard
    · exact fun document h => hverdict document (.inl h)
  have hagree := hpaired fates
    (fun f hf response hresponse => hverdict _ (.inr ⟨response, hresponse ▸ hf, rfl⟩))
  exact ⟨hagree.seen, hagree.outcome.2, hagree.outcome.1⟩

namespace Sample

def shared : Bytes :=
  SelfUpdate.Sample.published.dropLast ++
    ascii ",\"items\":[\x7b\"id\":\"a\",\"name\":\"A\",\"kind\":\"tool\",\"target\":\"sd-root\"," ++
    ascii "\"url\":\"https://a\",\"size\":1,\"sha256\":\"" ++ List.replicate 64 (byte '0') ++ ascii "\"\x7d]\x7d"

def catalogue : CatalogConfig :=
  { catalogUrl := SelfUpdate.Sample.service.manifestUrl, mirrorUrl := SelfUpdate.Sample.service.mirrorUrl,
    cacheTtlSeconds := SelfUpdate.Sample.service.cacheTtlSeconds }

def fates : List ServiceFate :=
  [.time 100, .ok, .ok, .responded { status := 200, body := shared }] ++ List.replicate 20 .ok

end Sample

theorem fetch_follows_check_on_a_shared_document :
    (parseManifest JsonCodec.library Sample.shared).isOk = true ∧
      (parseCatalog JsonCodec.library Sample.shared).isOk = true ∧
      let t := Service.world.exec (check JsonCodec.library SelfUpdate.Sample.service) Sample.fates { card := ∅ }
      let t' := Service.world.exec (fetch JsonCodec.library Sample.catalogue) Sample.fates { card := ∅ }
      exchanges t.log = exchanges t'.log ∧
        Corr (updateLayout SelfUpdate.Sample.service.cacheDir) (catalogLayout Sample.catalogue.cacheDir)
          t.state.card t'.state.card ∧
        Option.Rel SameReport t.outcome t'.outcome := by
  have hboth : (parseManifest JsonCodec.library Sample.shared).isOk = true ∧
      (parseCatalog JsonCodec.library Sample.shared).isOk = true := by
    decide +kernel
  refine ⟨hboth.1, hboth.2, fetch_follows_check JsonCodec.library SelfUpdate.Sample.service Sample.catalogue ∅ ∅
    Sample.fates rfl rfl rfl rfl (fun _ => rfl) ?_⟩
  rintro document (hcached | ⟨response, hresponse, rfl⟩)
  · cases hcached
  · simp only [Sample.fates, List.mem_append, List.mem_cons, List.mem_replicate, reduceCtorEq, and_false, or_false,
      false_or, List.not_mem_nil, ServiceFate.responded.injEq] at hresponse
    rw [hresponse]
    exact hboth.1.trans hboth.2.symm

end NsxManager.Catalog
