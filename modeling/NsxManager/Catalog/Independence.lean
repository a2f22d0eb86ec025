import NsxManager.Catalog.Lockstep
import NsxManager.Core.JsonCodec
import NsxManager.Lib.Unwinding

/-! The update check and the catalogue share a directory and nothing else. -/

namespace NsxManager.Catalog

open NsxManager.Core Lib Infra SelfUpdate

/-- What each host answers, given the tags of all requests it has had, newest first, and what else happens. -/
abbrev Servers := Bytes → List Bytes → ServiceFate → Except HttpError Response

structure Site where
  console : Console
  asked : Bytes → List Bytes

namespace Site

variable (servers : Servers)

def step : (e : ServiceOp) → ServiceFate → Site → Option e.Reply × Site
  | .fetch url ifNoneMatch, f, s =>
    let answer := servers url (ifNoneMatch :: s.asked url) f
    (some answer,
      { console := { s.console with answers := answer :: s.console.answers }
        asked := Function.update s.asked url (ifNoneMatch :: s.asked url) })
  | e, f, s => ((Service.step e f s.console).1, { s with console := (Service.step e f s.console).2 })

def world : World ServiceOp ServiceOp.Reply ServiceFate Site := ⟨step servers⟩

def host : Host (world servers) where
  console := Site.console
  put s d := { s with console := d }
  put_console _ := rfl
  step_eq e _ _ he := by cases e <;> first | rfl | cases he

def footprint (l : Layout) (urls : List Bytes) : Coupling (world servers) (world servers) Exchange where
  related s s' := Corr l l s.console.card s'.console.card ∧ ∀ url ∈ urls, s.asked url = s'.asked url
  admits _ := True
  observe := exchangeOf
  observe' := exchangeOf

lemma fits_footprint (l : Layout) (urls : List Bytes) :
    Fits (host servers) (footprint servers l urls) (fun _ => True) urls l l where
  observe := rfl
  observe' := rfl
  cells h := h.1
  put h hcells := ⟨hcells, h.2⟩
  fetch {s s' url} ifNoneMatch f hurl _ h := by
    have hasked := h.2 url hurl
    refine ⟨servers url (ifNoneMatch :: s.asked url) f, _, (step servers (.fetch url ifNoneMatch) f s').2, rfl, ?_,
      ⟨h.1, fun url' hurl' => ?_⟩, fun _ _ => trivial⟩
    · rw [hasked]
      rfl
    · change Function.update s.asked url _ url' = Function.update s'.asked url _ url'
      rw [hasked]
      by_cases heq : url' = url
      · rw [heq, Function.update_self, Function.update_self]
      · rw [Function.update_of_ne heq, Function.update_of_ne heq, h.2 url' hurl']

end Site

def Touches (l : Layout) (urls : List Bytes) : ServiceOp → Prop
  | .disk request => ∀ p ∈ request.paths, ∃ x, l.cell x = p
  | .fetch url _ => url ∈ urls
  | _ => True

section Touches

variable {α α' : Type} {urls : List Bytes} {l l' : Layout}

lemma touches_cell (x : Cell) {request : FileOp} (h : request.paths = [l.cell x]) :
    Touches l urls (.disk request) := by
  intro p hp
  rw [h, List.mem_singleton] at hp
  exact ⟨x, hp.symm⟩

lemma touches_rename (x y : Cell) : Touches l urls (.disk (.rename (l.cell x) (l.cell y))) := by
  intro p hp
  rcases List.mem_cons.mp hp with rfl | hp
  · exact ⟨x, rfl⟩
  · exact ⟨y, (List.mem_singleton.mp hp).symm⟩

lemma Alike.asks {Q : α → α' → Prop} {p : ServiceProgram α} {p' : ServiceProgram α'}
    (h : Alike (fun _ => True) urls l l' Q p p') : p.Asks (Touches l urls) := by
  induction h with
  | done _ => trivial
  | makeDirectories _ ih => exact ⟨trivial, ih⟩
  | probe x _ ih => exact ⟨touches_cell x rfl, ih⟩
  | create x _ ih => exact ⟨touches_cell x rfl, ih⟩
  | append x data _ ih => exact ⟨touches_cell x rfl, ih⟩
  | flush x _ ih => exact ⟨touches_cell x rfl, ih⟩
  | remove x _ ih => exact ⟨touches_cell x rfl, ih⟩
  | rename x y _ ih => exact ⟨touches_rename x y, ih⟩
  | fetch _ hurl _ ih => exact ⟨hurl, fun r => ih r (fun _ _ => trivial)⟩
  | storing _ _ ih => exact ⟨trivial, ih⟩
  | absent => exact ⟨trivial, fun impossible => nomatch impossible⟩
  | abort => exact ⟨trivial, fun impossible => nomatch impossible⟩

variable {c : Client α} {J : JsonLibrary}

lemma asks_loadCache : (c.loadCache J).Asks (Touches l urls) := by
  refine ⟨trivial, fun raw => ?_⟩
  dsimp only [bind, Program.bind]
  split
  · trivial
  · split
    · trivial
    · exact ⟨trivial, fun impossible => nomatch impossible⟩
    · refine ⟨trivial, fun document => ?_⟩
      dsimp only [bind, Program.bind]
      split
      · trivial
      · split <;> trivial

lemma asks_loadBackoff : (c.loadBackoff J).Asks (Touches l urls) := by
  refine ⟨trivial, fun raw => ?_⟩
  dsimp only [bind, Program.bind]
  split
  · trivial
  · split
    · trivial
    · exact ⟨trivial, fun impossible => nomatch impossible⟩
    · trivial

lemma asks_get {T : Bytes → Bytes → Prop} {Q : α → α → Prop} (h : Client.Like (fun _ => True) T Q c c) :
    (c.get J).Asks (Touches c.layout c.urls) := by
  refine ⟨trivial, fun now => asks_loadCache.bind (fun cached => asks_loadBackoff.bind (fun backoff => ?_))⟩
  exact (h.proceed (fun _ _ => trivial)).asks

lemma step_untouched (servers : Servers) {e : ServiceOp} (he : Touches l urls e) (f : ServiceFate) (s : Site) :
    (∀ p, (∀ x, l.cell x ≠ p) →
      (Site.step servers e f s).2.console.card.lookup p = s.console.card.lookup p) ∧
    ∀ url ∉ urls, (Site.step servers e f s).2.asked url = s.asked url := by
  cases e with
  | disk request =>
    refine ⟨fun p hp => Stdio.lookup_step (FileOp.spares_of_notMem (fun hmem => ?_)), fun _ _ => rfl⟩
    obtain ⟨x, hx⟩ := he p hmem
    exact hp x hx
  | fetch url ifNoneMatch =>
    refine ⟨fun _ _ => rfl, fun url' hurl' => Function.update_of_ne ?_ _ _⟩
    rintro rfl
    exact hurl' he
  | _ => exact ⟨fun _ _ => rfl, fun _ _ => rfl⟩

end Touches

section Clients

variable {α : Type} {c : Client α} {J : JsonLibrary} {config : SelfUpdateConfig} {config' : CatalogConfig}

lemma like_self (h : ∀ document served age plan detail, Alike (fun _ => True) c.urls c.layout c.layout (· = ·)
      (c.present document served age plan detail) (c.present document served age plan detail)) :
    Client.Like (fun _ => True) (· = ·) (· = ·) c c where
  primary := rfl
  mirror := rfl
  ttl := rfl
  policy := rfl
  present document served age plan detail _ _ hsame := hsame ▸ h document served age plan detail
  same _ := rfl
  failed _ := rfl
  unread _ _ h := h ▸ rfl
  fresh := rfl
  unreadable _ _ h := h ▸ Iff.rfl
  via _ _ _ h := h ▸ rfl
  cutOff _ _ _ _ h := h ▸ rfl
  deferred _ := rfl
  unreachable _ _ _ := rfl

lemma like_updateClient (J : JsonLibrary) (config : SelfUpdateConfig) :
    Client.Like (fun _ => True) (· = ·) (· = ·) (updateClient J config) (updateClient J config) := by
  refine like_self (fun document _ _ _ _ => ?_)
  change Alike _ _ _ _ _ (SelfUpdate.fromDocument _ _ _ _ _ _ _) (SelfUpdate.fromDocument _ _ _ _ _ _ _)
  unfold SelfUpdate.fromDocument
  rcases parseManifest J document with (error | _) | manifest
  · exact .done rfl
  · exact .abort
  · exact .done rfl

lemma like_catalogClient (J : JsonLibrary) (config : CatalogConfig) :
    Client.Like (fun _ => True) (· = ·) (· = ·) (catalogClient J config) (catalogClient J config) := by
  refine like_self (fun document _ _ _ _ => ?_)
  change Alike _ _ _ _ _ (fromDocument _ _ _ _ _ _) (fromDocument _ _ _ _ _ _)
  unfold fromDocument
  rcases parseCatalog J document with (error | _) | catalog
  · exact .done rfl
  · exact .abort
  · exact .done rfl

lemma alike_invalidateCache (config : CatalogConfig) (urls : List Bytes) :
    Alike (fun _ => True) urls (catalogLayout config.cacheDir) (catalogLayout config.cacheDir) (· = ·)
      (invalidateCache config) (invalidateCache config) :=
  .remove (.document, false) (fun _ => .probe (.document, false) (fun _ =>
    .remove (.metadata, false) (fun _ => .probe (.metadata, false) (fun _ => .done rfl))))

lemma cell_ne (dir : Bytes) (x y : Cell) : (updateLayout dir).cell x ≠ (catalogLayout dir).cell y := by
  have hsuffix : ∀ x y, cellName updateSuffix x ≠ cellName catalogSuffix y := by
    rintro ⟨_ | _ | _, _ | _⟩ ⟨_ | _ | _, _ | _⟩ <;> decide
  intro h
  rw [Layout.cell, Layout.cell, updateLayout, catalogLayout, cellName_append, cellName_append] at h
  exact hsuffix x y (List.append_cancel_left h)

def cells (layout : Layout) : List Bytes :=
  [layout.cell (.document, false), layout.cell (.document, true), layout.cell (.metadata, false),
    layout.cell (.metadata, true), layout.cell (.backoff, false), layout.cell (.backoff, true)]

lemma exists_cell {layout : Layout} {p : Bytes} (h : p ∈ cells layout) : ∃ x, layout.cell x = p := by
  simp only [cells, List.mem_cons, List.not_mem_nil, or_false] at h
  rcases h with rfl | rfl | rfl | rfl | rfl | rfl <;> exact ⟨_, rfl⟩

lemma mem_update_files {p : Bytes} (h : p ∈ config.files) : ∃ x, (updateLayout config.cacheDir).cell x = p :=
  @exists_cell (updateLayout config.cacheDir) p h

lemma mem_catalog_files {p : Bytes} (h : p ∈ config'.files) : ∃ x, (catalogLayout config'.cacheDir).cell x = p :=
  @exists_cell (catalogLayout config'.cacheDir) p h

end Clients

inductive Turn where
  | check (fates : List ServiceFate)
  | fetch (fates : List ServiceFate)
  | invalidateCache (fates : List ServiceFate)

def Turn.isCheck : Turn → Bool
  | .check _ => true
  | _ => false

def Turn.isCatalog (turn : Turn) : Bool := !turn.isCheck

structure Call (α : Type) where
  outcome : Option α
  requests : List Exchange
  files : List (Option Bytes)

inductive Result where
  | check (call : Call CheckOutcome)
  | fetch (call : Call CatalogOutcome)
  | invalidateCache (call : Call Unit)

def Call.of {α : Type} (files : List Bytes) (t : Trace ServiceOp ServiceOp.Reply ServiceFate Site α) : Call α :=
  ⟨t.outcome, exchanges t.log, files.map t.state.console.card.lookup⟩

section Runs

variable (J : JsonLibrary) (servers : Servers) (config : SelfUpdateConfig) (config' : CatalogConfig)

def Turn.take (turn : Turn) (s : Site) : Result × Site :=
  match turn with
  | .check fates =>
    let t := (Site.world servers).exec (SelfUpdate.check J config) fates s
    (.check (.of config.files t), t.state)
  | .fetch fates =>
    let t := (Site.world servers).exec (Catalog.fetch J config') fates s
    (.fetch (.of config'.files t), t.state)
  | .invalidateCache fates =>
    let t := (Site.world servers).exec (Catalog.invalidateCache config') fates s
    (.invalidateCache (.of config'.files t), t.state)

abbrev updateFootprint : Coupling (Site.world servers) (Site.world servers) Exchange :=
  Site.footprint servers (updateLayout config.cacheDir) (updateClient J config).urls

abbrev catalogFootprint : Coupling (Site.world servers) (Site.world servers) Exchange :=
  Site.footprint servers (catalogLayout config'.cacheDir) (catalogClient J config').urls

variable {J servers config config'}

lemma Call.of_eq {α : Type} {p : ServiceProgram α} {l : Layout} {urls files : List Bytes} {s s' : Site}
    (hp : (Site.footprint servers l urls).paired p p
      (fun a a' t t' => a = a' ∧ (Site.footprint servers l urls).related t t') s s')
    (hfiles : ∀ file ∈ files, ∃ x, l.cell x = file) (fates : List ServiceFate) :
    Call.of files ((Site.world servers).exec p fates s) = Call.of files ((Site.world servers).exec p fates s') ∧
      (Site.footprint servers l urls).related ((Site.world servers).exec p fates s).state
        ((Site.world servers).exec p fates s').state := by
  have hagree := hp fates (fun _ _ => trivial)
  obtain ⟨houtcome, hrelated⟩ := hagree.outcome
  refine ⟨?_, hrelated⟩
  have hlookup : ∀ file ∈ files, ((Site.world servers).exec p fates s).state.console.card.lookup file =
      ((Site.world servers).exec p fates s').state.console.card.lookup file := by
    intro file hfile
    obtain ⟨x, rfl⟩ := hfiles file hfile
    exact hrelated.1 x
  rw [Call.of, Call.of, Coupling.eq_of_rel houtcome, List.map_congr_left hlookup]
  congr 1
  exact hagree.seen

lemma related_of_touches {α : Type} {p : ServiceProgram α} {l l' : Layout} {urls urls' : List Bytes} {s s' : Site}
    (hp : p.Asks (Touches l' urls')) (hcells : ∀ x y, l.cell x ≠ l'.cell y) (hurls : ∀ url ∈ urls, url ∉ urls')
    (h : (Site.footprint servers l urls).related s s') (fates : List ServiceFate) :
    (Site.footprint servers l urls).related ((Site.world servers).exec p fates s).state s' := by
  refine World.exec_invariant (I := fun t => (Site.footprint servers l urls).related t s')
    (World.wp_of_asks hp h (fun e f t he ht => ?_))
  obtain ⟨hcard, hasked⟩ := step_untouched servers he f t
  refine ⟨fun x => (hcard _ (fun y => (hcells x y).symm)).trans (ht.1 x), fun url hurl => ?_⟩
  exact (hasked url (hurls url hurl)).trans (ht.2 url hurl)

lemma take_check {turn : Turn} (hturn : turn.isCheck = true) {s s' : Site}
    (h : (updateFootprint J servers config).related s s') :
    (turn.take J servers config config' s).1 = (turn.take J servers config config' s').1 ∧
      (updateFootprint J servers config).related (turn.take J servers config config' s).2
        (turn.take J servers config config' s').2 := by
  cases turn with
  | check fates =>
    obtain ⟨hcall, hnext⟩ := Call.of_eq (Fits.paired_get (J := J) (Site.fits_footprint servers _ _) h
      (like_updateClient J config) (fun _ _ => trivial)) (fun _ => mem_update_files) fates
    exact ⟨congrArg Result.check hcall, hnext⟩
  | fetch fates => cases hturn
  | invalidateCache fates => cases hturn

lemma take_catalog {turn : Turn} (hturn : turn.isCatalog = true) {s s' : Site}
    (h : (catalogFootprint J servers config').related s s') :
    (turn.take J servers config config' s).1 = (turn.take J servers config config' s').1 ∧
      (catalogFootprint J servers config').related (turn.take J servers config config' s).2
        (turn.take J servers config config' s').2 := by
  cases turn with
  | check fates => cases hturn
  | fetch fates =>
    obtain ⟨hcall, hnext⟩ := Call.of_eq (Fits.paired_get (J := J) (Site.fits_footprint servers _ _) h
      (like_catalogClient J config') (fun _ _ => trivial)) (fun _ => mem_catalog_files) fates
    exact ⟨congrArg Result.fetch hcall, hnext⟩
  | invalidateCache fates =>
    obtain ⟨hcall, hnext⟩ := Call.of_eq ((Site.fits_footprint servers _ _).paired_of_alike
      (alike_invalidateCache config' _) h) (fun _ => mem_catalog_files) fates
    exact ⟨congrArg Result.invalidateCache hcall, hnext⟩

section Others

variable (hdir : config'.cacheDir = config.cacheDir)
  (hurls : ∀ url ∈ (updateClient J config).urls, url ∉ (catalogClient J config').urls)

include hdir hurls

lemma take_catalog_spares {turn : Turn} (hturn : turn.isCheck = false) {s s' : Site}
    (h : (updateFootprint J servers config).related s s') :
    (updateFootprint J servers config).related (turn.take J servers config config' s).2 s' := by
  have hcells : ∀ x y, (updateLayout config.cacheDir).cell x ≠ (catalogLayout config'.cacheDir).cell y := by
    rw [hdir]
    exact cell_ne config.cacheDir
  cases turn with
  | check fates => cases hturn
  | fetch fates => exact related_of_touches (asks_get (J := J) (like_catalogClient J config')) hcells hurls h fates
  | invalidateCache fates => exact related_of_touches (alike_invalidateCache config' _).asks hcells hurls h fates

lemma take_check_spares {turn : Turn} (hturn : turn.isCatalog = false) {s s' : Site}
    (h : (catalogFootprint J servers config').related s s') :
    (catalogFootprint J servers config').related (turn.take J servers config config' s).2 s' := by
  cases turn with
  | check fates =>
    refine related_of_touches (asks_get (J := J) (like_updateClient J config)) (fun x y => ?_)
      (fun url hurl hmine => hurls url hmine hurl) h fates
    change (catalogLayout config'.cacheDir).cell x ≠ (updateLayout config.cacheDir).cell y
    rw [hdir]
    exact (cell_ne config.cacheDir y x).symm
  | fetch fates => cases hturn
  | invalidateCache fates => cases hturn

end Others

end Runs

def Undisturbed (J : JsonLibrary) (servers : Servers) (config : SelfUpdateConfig) (config' : CatalogConfig)
    (mine : Turn → Bool) (files : List Bytes) (turns : List Turn) (s : Site) : Prop :=
  seen (Turn.take J servers config config') mine turns s =
      seen (Turn.take J servers config config') mine (turns.filter mine) s ∧
    ∀ file ∈ files, (afterTurns (Turn.take J servers config config') turns s).console.card.lookup file =
      (afterTurns (Turn.take J servers config config') (turns.filter mine) s).console.card.lookup file

theorem services_do_not_interfere (J : JsonLibrary) (servers : Servers) (config : SelfUpdateConfig)
    (config' : CatalogConfig) (turns : List Turn) (s : Site) (hdir : config'.cacheDir = config.cacheDir)
    (hurls : ∀ url ∈ (updateClient J config).urls, url ∉ (catalogClient J config').urls) :
    Undisturbed J servers config config' Turn.isCheck config.files turns s ∧
      Undisturbed J servers config config' Turn.isCatalog config'.files turns s := by
  have hupdate := @seen_filter _ _ _ (Turn.take J servers config config') Turn.isCheck
    (updateFootprint J servers config).related (fun _ _ _ hturn h => take_check hturn h)
    (fun _ _ _ hturn h => take_catalog_spares hdir hurls hturn h) turns s s ⟨fun _ => rfl, fun _ _ => rfl⟩
  have hcatalog := @seen_filter _ _ _ (Turn.take J servers config config') Turn.isCatalog
    (catalogFootprint J servers config').related (fun _ _ _ hturn h => take_catalog hturn h)
    (fun _ _ _ hturn h => take_check_spares hdir hurls hturn h) turns s s ⟨fun _ => rfl, fun _ _ => rfl⟩
  refine ⟨⟨hupdate.1, fun file hfile => ?_⟩, hcatalog.1, fun file hfile => ?_⟩
  · obtain ⟨x, rfl⟩ := mem_update_files hfile
    exact hupdate.2.1 x
  · obtain ⟨x, rfl⟩ := mem_catalog_files hfile
    exact hcatalog.2.1 x

namespace Sample

def servers : Servers := fun _ asked f => if asked.length = 2 then .error .timeout else f.answer

def turns : List Turn :=
  [.check [.time 0, .ok, .ok, .responded {}], .fetch [.time 1, .ok, .ok, .refused .timeout],
    .invalidateCache [.ok, .ok, .ok, .ok], .check [.time 2, .ok, .ok, .ok, .ok]]

def site : Site := ⟨{ card := ∅ }, fun _ => []⟩

end Sample

theorem default_services_do_not_interfere :
    Undisturbed JsonCodec.library Sample.servers {} {} Turn.isCheck ({} : SelfUpdateConfig).files Sample.turns
        Sample.site ∧
      Undisturbed JsonCodec.library Sample.servers {} {} Turn.isCatalog ({} : CatalogConfig).files Sample.turns
        Sample.site :=
  services_do_not_interfere JsonCodec.library Sample.servers {} {} Sample.turns Sample.site rfl (by decide)

end NsxManager.Catalog
