import NsxManager.SelfUpdate.Cache

/-! Which host a cached tag is sent back to. -/

namespace NsxManager.SelfUpdate

open NsxManager.Core Lib Infra

/-- A call with `true` swaps the hosts each time it is made. -/
def SelfUpdateConfig.setPreferMirror (config : SelfUpdateConfig) (prefer : Bool) : SelfUpdateConfig :=
  if prefer && !config.mirrorUrl.isEmpty && config.manifestUrl != config.mirrorUrl then
    { config with manifestUrl := config.mirrorUrl, mirrorUrl := config.manifestUrl }
  else config

structure Session where
  config : SelfUpdateConfig
  console : Console
  heard : List Exchange := []

def Session.fresh (config : SelfUpdateConfig) (card : Card) : Session := { config, console := { card } }

inductive SessionCall where
  | check (fates : List ServiceFate)
  | setPreferMirror (prefer : Bool)

def Session.trace (J : JsonLibrary) (S : Session) (fates : List ServiceFate) :
    Trace ServiceOp ServiceOp.Reply ServiceFate Console CheckOutcome :=
  Service.world.exec (check J S.config) fates S.console

def Session.after (J : JsonLibrary) (S : Session) : SessionCall → Session
  | .check fates =>
    { S with console := (S.trace J fates).state, heard := S.heard ++ exchanges (S.trace J fates).log }
  | .setPreferMirror prefer => { S with config := S.config.setPreferMirror prefer }

def Session.afterAll (J : JsonLibrary) (S : Session) (calls : List SessionCall) : Session :=
  calls.foldl (Session.after J) S

def Issued (heard : List Exchange) (url etag document : Bytes) : Prop :=
  ∃ x ∈ heard, x.url = url ∧ ∃ response, x.answer = .ok response ∧ response.etag = etag ∧ response.body = document

def Session.SendsOwnTags (J : JsonLibrary) (S : Session) (fates : List ServiceFate) : Prop :=
  ∀ x ∈ exchanges (S.trace J fates).log, x.ifNoneMatch ≠ [] →
    ∃ pair, cacheOn J S.config S.console.card = some pair ∧ Issued S.heard x.url x.ifNoneMatch pair.document

def CacheRecord.Fair (heard : List Exchange) (record : CacheRecord) : Prop :=
  record.etag ≠ [] → record.sourceUrl ≠ [] ∧ Issued heard record.sourceUrl record.etag record.document

def Honest (heard : List Exchange) (s : Console) : Prop := ∀ record ∈ s.stored, record.Fair heard

lemma CacheRecord.Fair.mono {heard heard' : List Exchange} {record : CacheRecord} (h : record.Fair heard)
    (hsub : heard ⊆ heard') : record.Fair heard' := by
  intro htag
  obtain ⟨hurl, x, hx, hissued⟩ := h htag
  exact ⟨hurl, x, hsub hx, hissued⟩

lemma mem_exchanges {log : List (Event ServiceOp ServiceOp.Reply ServiceFate)} {x : Exchange} :
    x ∈ exchanges log ↔ ∃ f, ⟨.fetch x.url x.ifNoneMatch, f, x.answer⟩ ∈ log := by
  rw [exchanges, List.mem_filterMap]
  constructor
  · rintro ⟨⟨e, f, r⟩, hev, hx⟩
    cases e with
    | fetch url ifNoneMatch =>
      obtain rfl : _ = x := Option.some.inj hx
      exact ⟨f, hev⟩
    | _ => cases hx
  · rintro ⟨f, hev⟩
    exact ⟨_, hev, rfl⟩

section Honest

variable {J : JsonLibrary} {config : SelfUpdateConfig} {s : Console} {b : Beginning} {heard : List Exchange}
  {A : Event ServiceOp ServiceOp.Reply ServiceFate → Prop}

lemma Honest.step {e : ServiceOp} (h : Honest heard s) (he : ∀ record, e = .storing record → record.Fair heard)
    (f : ServiceFate) : Honest heard (Service.world.step e f s).2 := by
  cases e with
  | storing record =>
    intro r hr
    rcases List.mem_cons.mp hr with rfl | hr
    · exact he r rfl
    · exact h r hr
  | _ => exact h

lemma wp_honest {α : Type} {p : ServiceProgram α} (record : CacheRecord)
    (hp : p.Asks (fun e => e = .storing record ∨ e.Local config.files)) (hrecord : record.Fair heard)
    (h : Honest heard s) : Service.world.wp A (Honest heard) p (fun _ => Honest heard) s := by
  refine World.wp_of_asks hp h (fun e f t he ht => ht.step (fun r hr => ?_) f)
  subst hr
  rcases he with he | he
  · obtain rfl := ServiceOp.storing.inj he
    exact hrecord
  · exact he.elim

lemma plan_ifNoneMatch (h : (b.plan config).ifNoneMatch ≠ []) :
    ∃ pair, b.cached = some pair ∧ (b.plan config).ifNoneMatch = pair.metadata.etag := by
  unfold Beginning.plan planManifestFetch at h ⊢
  cases hcached : b.cached with
  | none =>
    rw [hcached] at h
    dsimp only [Option.map_none] at h
    split at h <;> exact absurd rfl h
  | some pair =>
    refine ⟨pair, rfl, ?_⟩
    rw [hcached] at h
    dsimp only [Option.map_some] at h ⊢
    split_ifs at h ⊢
    · exact absurd rfl h
    · exact absurd rfl h
    · rfl
    · exact absurd rfl h

lemma fair_restamped {pair : CachedDocument} {usedMirror : Bool} (hcached : b.cached = some pair)
    (h : CacheRecord.Fair heard ⟨pair.document, pair.metadata.etag, pair.metadata.sourceUrl⟩) :
    (b.restamped config usedMirror pair).Fair heard := by
  intro htag
  have hetag : pair.metadata.etag ≠ [] := by
    intro hnone
    apply htag
    by_contra hplan
    simp only [Beginning.restamped, hnone, List.isEmpty_nil, if_true] at hplan
    obtain ⟨pair', hpair', hsame⟩ := plan_ifNoneMatch hplan
    obtain rfl := Option.some.inj (hcached.symm.trans hpair')
    exact hplan (hsame.trans hnone)
  have hsame : b.restamped config usedMirror pair =
      ⟨pair.document, pair.metadata.etag, pair.metadata.sourceUrl⟩ := by
    simp [Beginning.restamped, hetag, (h hetag).1]
  rw [hsame]
  exact h hetag

lemma check_honest (h : Honest heard s) (hprimary : config.manifestUrl ≠ [])
    (hA : ∀ url ifNoneMatch f answer, A ⟨.fetch url ifNoneMatch, f, answer⟩ → ⟨url, ifNoneMatch, answer⟩ ∈ heard)
    (hcached : ∀ pair, cacheOn J config s.card = some pair →
      CacheRecord.Fair heard ⟨pair.document, pair.metadata.etag, pair.metadata.sourceUrl⟩) :
    Service.world.wp A (Honest heard) (check J config) (fun _ => Honest heard) s := by
  refine wp_check h (fun now => wp_proceed h (fun _ _ _ _ => h) (fun _ _ => h) ?_)
  refine wp_askNetwork h (fun _ => h) (fun usedMirror error _ _ => ?_) (fun usedMirror _ _ pair _ _ hpair => ?_)
    (fun usedMirror response _ hreached => ?_)
  · exact wp_honest ⟨[], [], []⟩ ((asks_afterRefusal usedMirror error).mono (fun _ => .inr))
      (fun hne => absurd rfl hne) h
  · exact wp_honest _ (asks_afterNotModified usedMirror pair) (fair_restamped hpair (hcached pair hpair)) h
  · refine wp_honest _ (asks_afterResponse usedMirror response) (fun _ => ⟨?_, ?_⟩) h
    · unfold SelfUpdateConfig.sourceUrl
      split
      · next hmirror => exact hreached.mirror hmirror
      · exact hprimary
    · obtain ⟨ifNoneMatch, f, hev⟩ := hreached.asked
      exact ⟨_, hA _ _ _ _ hev, rfl, response, rfl, rfl, rfl⟩

end Honest

structure Session.Sound (J : JsonLibrary) (S : Session) : Prop where
  trusted : Trusted J S.config.cacheDir S.console
  honest : Honest S.heard S.console
  primary : S.config.manifestUrl ≠ []

namespace Session

variable {J : JsonLibrary} {S : Session}

lemma answers_subset (fates : List ServiceFate) : S.console.answers ⊆ (S.trace J fates).state.answers := by
  refine World.exec_invariant (I := fun t : Console => S.console.answers ⊆ t.answers)
    (World.wp_of_asks (Program.asks_true _) (fun _ ha => ha) (fun e f t _ ht => ?_))
  cases e with
  | fetch url ifNoneMatch => exact fun _ ha => List.mem_cons_of_mem _ (ht ha)
  | _ => exact ht

lemma afterAll_answers (calls : List SessionCall) : S.console.answers ⊆ (S.afterAll J calls).console.answers := by
  induction calls generalizing S with
  | nil => exact fun _ ha => ha
  | cons call calls ih =>
    refine List.Subset.trans ?_ ih
    cases call with
    | check fates => exact answers_subset fates
    | setPreferMirror prefer => exact fun _ ha => ha

lemma Sound.cached (h : S.Sound J) (hdistinct : Distinct S.console) {pair : CachedDocument}
    (hpair : cacheOn J S.config S.console.card = some pair) :
    CacheRecord.Fair S.heard ⟨pair.document, pair.metadata.etag, pair.metadata.sourceUrl⟩ :=
  h.honest _ (h.trusted.cached hdistinct hpair).2

lemma Sound.check (h : S.Sound J) (hdistinct : Distinct S.console) (fates : List ServiceFate) :
    (S.after J (.check fates)).Sound J where
  trusted := World.exec_invariant (check_trusted h.trusted)
  honest := by
    have hsub : S.heard ⊆ S.heard ++ exchanges (S.trace J fates).log := List.subset_append_left _ _
    refine World.exec_invariant (check_honest (fun r hr => (h.honest r hr).mono hsub) h.primary ?_ ?_)
    · exact fun url ifNoneMatch f answer hev =>
        List.mem_append_right _ (mem_exchanges.mpr ⟨f, hev⟩)
    · exact fun pair hpair => (h.cached hdistinct hpair).mono hsub
  primary := h.primary

lemma Sound.setPreferMirror (h : S.Sound J) (prefer : Bool) : (S.after J (.setPreferMirror prefer)).Sound J := by
  unfold Session.after SelfUpdateConfig.setPreferMirror
  dsimp only
  split
  · next hswap =>
    simp only [Bool.and_eq_true, Bool.not_eq_true', List.isEmpty_eq_false_iff] at hswap
    exact ⟨h.trusted, h.honest, hswap.1.2⟩
  · exact h

lemma Sound.afterAll {calls : List SessionCall} (h : S.Sound J)
    (hdistinct : Distinct (S.afterAll J calls).console) : (S.afterAll J calls).Sound J := by
  induction calls generalizing S with
  | nil => exact h
  | cons call calls ih =>
    refine ih ?_ hdistinct
    cases call with
    | check fates =>
      refine h.check (fun r r' hr hr' => hdistinct r r' ?_ ?_) fates
      · exact afterAll_answers (.check fates :: calls) hr
      · exact afterAll_answers (.check fates :: calls) hr'
    | setPreferMirror prefer => exact h.setPreferMirror prefer

lemma sends_cached {fates : List ServiceFate} {x : Exchange} (hx : x ∈ exchanges (S.trace J fates).log)
    (htag : x.ifNoneMatch ≠ []) : x.url = S.config.manifestUrl ∧
      ∃ pair, cacheOn J S.config S.console.card = some pair ∧ x.ifNoneMatch = pair.metadata.etag := by
  obtain ⟨f, hev⟩ := mem_exchanges.mp hx
  obtain ⟨n, hn⟩ := List.mem_iff_getElem?.mp hev
  have hasks : Service.world.asksIn (fun _ => True) (fun e _ => ∀ url ifNoneMatch, e = .fetch url ifNoneMatch →
      ifNoneMatch ≠ [] → url = S.config.manifestUrl ∧
        ∃ pair, cacheOn J S.config S.console.card = some pair ∧ ifNoneMatch = pair.metadata.etag)
      (SelfUpdate.check J S.config) S.console := by
    refine (World.asksIn_call _ _).mpr ⟨fun _ _ he => ServiceOp.noConfusion he, fun _ _ => ?_⟩
    refine asksIn_resume (fun e he url tag hfetch _ => ?_) (asks_proceed (fun e he url tag hfetch _ => ?_)
      (fun url tag hfetch hne => ?_) (fun url tag hfetch hne => ?_))
    · subst hfetch
      exact he.elim
    · subst hfetch
      exact he.quiet.elim
    · obtain ⟨rfl, rfl⟩ := ServiceOp.fetch.inj hfetch
      exact ⟨rfl, plan_ifNoneMatch hne⟩
    · obtain ⟨rfl, rfl⟩ := ServiceOp.fetch.inj hfetch
      exact absurd rfl hne
  exact World.exec_asksIn hasks (fun _ _ => trivial) hn _ _ rfl htag

end Session

theorem tag_is_sent_to_its_issuer (J : JsonLibrary) (config : SelfUpdateConfig) (card : Card)
    (calls : List SessionCall) (fates : List ServiceFate)
    (hdocument : card.lookup config.cachedManifestPath = none)
    (hmetadata : card.lookup config.cacheMetadataPath = none) (hprimary : config.manifestUrl ≠ [])
    (hdistinct : Distinct ((Session.fresh config card).afterAll J calls).console)
    (hsource : ∀ pair, cacheOn J ((Session.fresh config card).afterAll J calls).config
        ((Session.fresh config card).afterAll J calls).console.card = some pair →
      pair.metadata.etag ≠ [] →
      pair.metadata.sourceUrl = ((Session.fresh config card).afterAll J calls).config.manifestUrl) :
    ((Session.fresh config card).afterAll J calls).SendsOwnTags J fates := by
  have hstart : (Session.fresh config card).Sound J :=
    ⟨trusted_of_empty hdocument hmetadata, fun r hr => absurd hr (List.not_mem_nil), hprimary⟩
  have hsound := hstart.afterAll hdistinct
  generalize (Session.fresh config card).afterAll J calls = S at *
  intro x hx htag
  obtain ⟨hurl, pair, hpair, hetag⟩ := Session.sends_cached hx htag
  refine ⟨pair, hpair, ?_⟩
  rw [hetag] at htag ⊢
  rw [hurl, ← hsource pair hpair htag]
  exact (hsound.cached hdistinct hpair htag).2

namespace Sample

def later : List ServiceFate := [.time 25300, .ok, .ok, .ok, .responded { status := 304 }]

def mirrored : List ServiceFate :=
  [.time 100, .ok, .ok, .refused .dnsFailure, .responded response] ++ List.replicate 20 .ok

end Sample

theorem tag_goes_back_to_the_primary :
    let S := (Session.fresh Sample.service ∅).afterAll JsonCodec.library [.check Sample.firstLaunch.fates]
    (exchanges (S.trace JsonCodec.library Sample.later).log).map Exchange.ifNoneMatch = [ascii "x"] ∧
      S.SendsOwnTags JsonCodec.library Sample.later := by
  have hrun : let S := (Session.fresh Sample.service ∅).afterAll JsonCodec.library [.check Sample.firstLaunch.fates]
      (exchanges (S.trace JsonCodec.library Sample.later).log).map Exchange.ifNoneMatch = [ascii "x"] ∧
        S.console.answers = [.ok Sample.response] ∧
        (cacheOn JsonCodec.library S.config S.console.card).map (fun pair => pair.metadata.sourceUrl) =
          some S.config.manifestUrl := by
    decide +kernel
  obtain ⟨hsent, hanswers, hcached⟩ := hrun
  refine ⟨hsent, tag_is_sent_to_its_issuer JsonCodec.library Sample.service ∅ [.check Sample.firstLaunch.fates]
    Sample.later rfl rfl (by decide) (fun r r' hr hr' _ => ?_) (fun pair hpair _ => ?_)⟩
  · rw [hanswers, List.mem_singleton] at hr hr'
    rw [Except.ok.inj hr, Except.ok.inj hr']
  · rw [hpair] at hcached
    exact Option.some.inj hcached

theorem mirror_tag_is_sent_to_the_primary :
    ¬((Session.fresh Sample.service ∅).afterAll JsonCodec.library [.check Sample.mirrored]).SendsOwnTags JsonCodec.library
      Sample.later := by
  have hrun : let S := (Session.fresh Sample.service ∅).afterAll JsonCodec.library [.check Sample.mirrored]
      (∃ x ∈ exchanges (S.trace JsonCodec.library Sample.later).log,
        x.url = Sample.service.manifestUrl ∧ x.ifNoneMatch = ascii "x") ∧
      ∀ x ∈ S.heard, x.url = Sample.service.manifestUrl → x.answer = .error .dnsFailure := by
    decide +kernel
  obtain ⟨⟨x, hx, hurl, htag⟩, hheard⟩ := hrun
  intro h
  obtain ⟨_, _, y, hy, hfrom, response, hanswer, _⟩ := h x hx (by rw [htag]; decide)
  rw [hheard y hy (hfrom.trans hurl)] at hanswer
  cases hanswer

end NsxManager.SelfUpdate
