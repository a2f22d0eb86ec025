import NsxManager.Core.JsonCodec
import NsxManager.Lib.Log
import NsxManager.SelfUpdate.Check

/-! What a check reports, it knows. -/

namespace NsxManager

open NsxManager.Core Lib Infra

namespace SelfUpdate

section SdFileStore

variable {A : Event FileOp FileOp.Reply Fate → Prop} {C : Card → Prop} {Q : Bool → Card → Prop} {c : Card}
  {path data : Bytes}

lemma ne_tmp (path : Bytes) : path ≠ path ++ ascii ".tmp" := by
  intro h
  simpa [ascii] using congrArg List.length h

lemma SdFileStore.wp_writeAtomic (hA : Stdio.Faithful A (path ++ ascii ".tmp"))
    (hstop : ∀ c', Card.Agree [path, path ++ ascii ".tmp"] c c' →
      (c'.lookup path = c.lookup path ∨ c'.lookup path = none) → C c' ∧ Q false c')
    (hdone : ∀ c', Card.Agree [path, path ++ ascii ".tmp"] c c' → c'.lookup path = some data → Q true c') :
    Stdio.world.wp A C (SdFileStore.writeAtomic path data) Q c := by
  have hne := ne_tmp path
  unfold SdFileStore.writeAtomic
  generalize path ++ ascii ".tmp" = tmp at *
  have hstart := hstop c (.refl _ _) (.inl rfl)
  have hopened : Card.Agree [path, tmp] c (c.insert tmp []) := (Card.Agree.refl _ c).insert (by simp) _
  have hopen : AList.lookup path (c.insert tmp []) = c.lookup path := by rw [Card.lookup_insert_eq, if_neg hne]
  refine Stdio.wp_create hstart.1 hstart.2 ?_
  cases data with
  | nil => exact Stdio.wp_promote hne hopened hopen (fun _ => AList.lookup_insert _) hstop hdone
  | cons b bytes =>
    have hwritten : ∀ bytes, Card.Agree [path, tmp] c (Stdio.extend (c.insert tmp []) tmp bytes) ∧
        (Stdio.extend (c.insert tmp []) tmp bytes).lookup path = c.lookup path := fun bytes =>
      ⟨hopened.insert (by simp) _, by rw [Stdio.lookup_extend, if_neg hne, hopen]⟩
    refine Stdio.wp_append (hstop _ hopened (.inl hopen)).1
      (fun part _ => (hstop _ (hwritten part).1 (.inl (hwritten part).2)).1) (fun part _ => ?_) (fun part hpart => ?_)
    · exact Stdio.wp_promote hne (hwritten part).1 (hwritten part).2 (by simp) hstop hdone
    · obtain rfl := hpart hA
      refine Stdio.wp_promote hne (hwritten _).1 (hwritten _).2 (fun _ => ?_) hstop hdone
      rw [Stdio.lookup_extend, if_pos rfl, AList.lookup_insert, Option.getD_some, List.nil_append]

lemma Stdio.asks_promote {P : FileOp → Prop} (path tmp : Bytes) (written : Bool) (hflush : P (.flush tmp))
    (hremove : P (.remove tmp)) (hold : P (.remove path)) (hrename : P (.rename tmp path)) :
    (Stdio.promote written path tmp).Asks P := by
  refine ⟨hflush, fun (flushed : Bool) => ?_⟩
  dsimp only [bind, Program.bind]
  split
  · exact ⟨hremove, fun _ => trivial⟩
  · refine ⟨hold, fun _ => ⟨hrename, fun (renamed : Bool) => ?_⟩⟩
    dsimp only [bind, Program.bind]
    split
    · exact ⟨hremove, fun _ => trivial⟩
    · trivial

lemma SdFileStore.asks_writeAtomic (path data : Bytes) : (SdFileStore.writeAtomic path data).Asks
    (fun e => e.paths ≠ [] ∧ ∀ p ∈ e.paths, p = path ∨ p = path ++ ascii ".tmp") := by
  have hpromote := fun written => Stdio.asks_promote
    (P := fun e => e.paths ≠ [] ∧ ∀ p ∈ e.paths, p = path ∨ p = path ++ ascii ".tmp") path (path ++ ascii ".tmp")
    written (by simp [FileOp.paths]) (by simp [FileOp.paths]) (by simp [FileOp.paths]) (by simp [FileOp.paths])
  refine ⟨by simp [FileOp.paths], fun (opened : Bool) => ?_⟩
  dsimp only [bind, Program.bind]
  split
  · trivial
  · cases data with
    | nil => exact hpromote true
    | cons b data => exact ⟨by simp [FileOp.paths], fun written => hpromote written⟩

end SdFileStore

namespace Service

section Rules

variable {α : Type} {A : Event ServiceOp ServiceOp.Reply ServiceFate → Prop} {C : Console → Prop}
  {Q : α → Console → Prop} {s : Console} {path data : Bytes}

lemma wp_nowUnix {k : Int64 → ServiceProgram α} (hC : C s) (hk : ∀ now, world.wp A C (k now) Q s) :
    world.wp A C (nowUnix >>= k) Q s :=
  (World.wp_call _ _).mpr ⟨hC, fun _ _ => hk _⟩

lemma wp_readText {n : ℕ} {k : Option Bytes → ServiceProgram α} (hC : C s)
    (hk : world.wp A C (k ((s.card.lookup path).filter (fun b => b.length ≤ n))) Q s) :
    world.wp A C (readText path n >>= k) Q s :=
  (World.wp_call _ _).mpr ⟨hC, fun _ _ => hk⟩

lemma wp_makeDirectories {k : Bool → ServiceProgram α} (hC : C s) (hk : ∀ made, world.wp A C (k made) Q s) :
    world.wp A C (makeDirectories path >>= k) Q s :=
  (World.wp_call _ _).mpr ⟨hC, fun _ _ => hk _⟩

lemma wp_fetch {url ifNoneMatch : Bytes} {k : Except HttpError Response → ServiceProgram α} (hC : C s)
    (hk : ∀ answer f, A ⟨.fetch url ifNoneMatch, f, answer⟩ →
      world.wp A C (k answer) Q { s with answers := answer :: s.answers }) :
    world.wp A C (fetch url ifNoneMatch >>= k) Q s :=
  (World.wp_call _ _).mpr ⟨hC, fun f hA => hk f.answer f hA⟩

lemma wp_storing {record : CacheRecord} {k : Unit → ServiceProgram α} (hC : C s)
    (hk : world.wp A C (k ()) Q { s with stored := record :: s.stored }) :
    world.wp A C (storing record >>= k) Q s :=
  (World.wp_call _ _).mpr ⟨hC, fun _ _ => hk⟩

lemma wp_abort (hC : C s) : world.wp A C abort Q s :=
  (World.wp_call _ _).mpr ⟨hC, fun _ => hC⟩

lemma wp_absent (hC : C s) : world.wp A C absent Q s :=
  (World.wp_call _ _).mpr ⟨hC, fun _ => hC⟩

lemma step_disk (e : FileOp) (f : ServiceFate) (s : Console) : world.step (.disk e) f s =
    ((Stdio.world.step e f.onDisk s.card).1, { s with card := (Stdio.world.step e f.onDisk s.card).2 }) := rfl

lemma wp_onDisk {B : Event FileOp FileOp.Reply Fate → Prop} {P : FileOp → Prop} {p : FileProgram α}
    (hp : p.Asks P) (hB : ∀ e f r, P e → A ⟨.disk e, f, r⟩ → B ⟨e, f.onDisk, r⟩)
    (h : Stdio.world.wp B (fun c => C { s with card := c }) p (fun a c => Q a { s with card := c }) s.card) :
    world.wp A C (onDisk p) Q s := by
  induction p generalizing s with
  | done a => exact h
  | call e next ih =>
    rw [World.wp_call] at h
    rw [onDisk, World.wp_call]
    refine ⟨h.1, fun f => ?_⟩
    have hf := h.2 f.onDisk
    rw [step_disk]
    rcases hstep : Stdio.world.step e f.onDisk s.card with ⟨r | r, c⟩
    · simpa only [hstep] using hf
    · simp only [hstep] at hf ⊢
      exact fun hA => ih r (hp.2 r) (hf (hB e f r hp.1 hA))

lemma asks_onDisk {P : ServiceOp → Prop} {p : FileProgram α} (hp : p.Asks (fun e => P (.disk e))) :
    (onDisk p).Asks P := by
  induction p with
  | done a => trivial
  | call e next ih => exact ⟨hp.1, fun r => ih r (hp.2 r)⟩

lemma wp_writeAtomic {k : Bool → ServiceProgram α}
    (hstop : ∀ c, Card.Agree [path, path ++ ascii ".tmp"] s.card c →
      (c.lookup path = s.card.lookup path ∨ c.lookup path = none) →
      C { s with card := c } ∧ world.wp A C (k false) Q { s with card := c })
    (hdone : ∀ c, Card.Agree [path, path ++ ascii ".tmp"] s.card c → c.lookup path = some data →
      world.wp A C (k true) Q { s with card := c }) :
    world.wp A C (writeAtomic path data >>= k) Q s := by
  refine (World.wp_bind _ _ _).mpr (wp_onDisk (B := fun ev => ∀ bytes, ev.fate ≠ .corrupt bytes)
    (Program.asks_true _) ?_ (SdFileStore.wp_writeAtomic (fun _ bytes h => h bytes rfl) hstop hdone))
  intro e f r _ _ bytes
  cases f <;> exact Fate.noConfusion

end Rules

end Service

def ServiceOp.Quiet : ServiceOp → Prop
  | .fetch _ _ | .absent => False
  | _ => True

def ServiceOp.Local (files : List Bytes) : ServiceOp → Prop
  | .readText path _ => path ∈ files
  | .disk request => ∀ path ∈ request.paths, path ∈ files
  | .makeDirectories _ | .abort => True
  | _ => False

lemma ServiceOp.Local.quiet {files : List Bytes} {e : ServiceOp} (h : e.Local files) : e.Quiet := by
  cases e <;> trivial

def cacheOn (J : JsonLibrary) (config : SelfUpdateConfig) (card : Card) : Option CachedDocument := do
  let raw ← (card.lookup config.cacheMetadataPath).filter (fun b => b.length ≤ kMaxSidecarBytes)
  let metadata ← (parseCacheMetadata J raw).toOption
  let document ← (card.lookup config.cachedManifestPath).filter (fun b => b.length ≤ kMaxDocumentBytes)
  if cacheMatchesDocument metadata document then some ⟨metadata, document⟩ else none

def backoffOn (J : JsonLibrary) (config : SelfUpdateConfig) (card : Card) : BackoffState :=
  (((card.lookup config.backoffPath).filter (fun b => b.length ≤ kMaxSidecarBytes)).bind
    (fun raw => (parseBackoff J raw).toOption)).getD {}

def Speaks (J : JsonLibrary) (config : SelfUpdateConfig) (document : Bytes) (out : CheckOutcome) : Prop :=
  match parseManifest J document with
  | .ok manifest =>
    out.manifest = some manifest ∧ out.decision = decideUpdate config.installed manifest config.channel
  | .error _ => out.decision.action = .manifestUnreadable

section Functions

variable {J : JsonLibrary} {config : SelfUpdateConfig} {α : Type}
  {A : Event ServiceOp ServiceOp.Reply ServiceFate → Prop} {C : Console → Prop} {Q : α → Console → Prop}
  {s : Console}

lemma wp_loadCache {k : Option CachedDocument → ServiceProgram α} (hC : C s)
    (hk : Service.world.wp A C (k (cacheOn J config s.card)) Q s) :
    Service.world.wp A C (loadCache J config >>= k) Q s := by
  rw [loadCache, Program.bind_assoc]
  refine Service.wp_readText hC ?_
  unfold cacheOn at hk
  cases hraw : (s.card.lookup config.cacheMetadataPath).filter (fun b => b.length ≤ kMaxSidecarBytes) with
  | none =>
    rw [hraw] at hk
    exact hk
  | some raw =>
    simp only [hraw, Option.bind_eq_bind, Option.bind_some] at hk ⊢
    rcases hparse : parseCacheMetadata J raw with (error | _) | metadata
    · rw [hparse] at hk
      exact hk
    · exact (World.wp_bind _ _ _).mpr (Service.wp_abort hC)
    · simp only [hparse, Except.toOption, Option.bind_some] at hk ⊢
      rw [Program.bind_assoc]
      refine Service.wp_readText hC ?_
      cases hdoc : (s.card.lookup config.cachedManifestPath).filter (fun b => b.length ≤ kMaxDocumentBytes) with
      | none =>
        rw [hdoc] at hk
        exact hk
      | some document =>
        simp only [hdoc, Option.bind_some] at hk ⊢
        by_cases hmatch : cacheMatchesDocument metadata document = true
        · rw [if_pos hmatch] at hk ⊢
          exact hk
        · rw [if_neg hmatch] at hk ⊢
          exact hk

lemma wp_loadBackoff {k : BackoffState → ServiceProgram α} (hC : C s)
    (hk : Service.world.wp A C (k (backoffOn J config s.card)) Q s) :
    Service.world.wp A C (loadBackoff J config >>= k) Q s := by
  rw [loadBackoff, Program.bind_assoc]
  refine Service.wp_readText hC ?_
  unfold backoffOn at hk
  cases hraw : (s.card.lookup config.backoffPath).filter (fun b => b.length ≤ kMaxSidecarBytes) with
  | none =>
    rw [hraw] at hk
    exact hk
  | some raw =>
    simp only [hraw, Option.bind_some] at hk ⊢
    rcases hparse : parseBackoff J raw with (error | _) | state
    · rw [hparse] at hk
      exact hk
    · exact (World.wp_bind _ _ _).mpr (Service.wp_abort hC)
    · rw [hparse] at hk
      exact hk

lemma wp_fromDocument {document detail : Bytes} {servedFromCache : Bool} {age : Int64} {plan : FetchPlan}
    {k : CheckOutcome → ServiceProgram α} (hC : C s)
    (hk : ∀ out, Speaks J config document out → Service.world.wp A C (k out) Q s) :
    Service.world.wp A C (fromDocument J config document servedFromCache age plan detail >>= k) Q s := by
  unfold Speaks at hk
  unfold fromDocument
  rcases hparse : parseManifest J document with (error | _) | manifest
  · exact hk _ (by rw [hparse]; rfl)
  · exact (World.wp_bind _ _ _).mpr (Service.wp_abort hC)
  · exact hk _ (by rw [hparse]; exact ⟨rfl, rfl⟩)

lemma asks_fromDocument (document detail : Bytes) (servedFromCache : Bool) (age : Int64) (plan : FetchPlan)
    (files : List Bytes) :
    (fromDocument J config document servedFromCache age plan detail).Asks (ServiceOp.Local files) := by
  unfold fromDocument
  split
  · trivial
  · exact ⟨trivial, fun impossible => nomatch impossible⟩
  · trivial

lemma asks_writeAtomic {path : Bytes} {files : List Bytes} (hpath : path ∈ files)
    (htmp : path ++ ascii ".tmp" ∈ files) (data : Bytes) :
    (Service.writeAtomic path data).Asks (ServiceOp.Local files) := by
  refine Service.asks_onDisk ((SdFileStore.asks_writeAtomic path data).mono (fun e he p hp => ?_))
  rcases he.2 p hp with rfl | rfl
  · exact hpath
  · exact htmp

lemma asks_saveBackoff (state : BackoffState) :
    (saveBackoff J config state).Asks (ServiceOp.Local config.files) := by
  unfold saveBackoff
  refine ⟨trivial, fun _ => ?_⟩
  dsimp only [bind, Program.bind]
  split
  · exact ⟨trivial, fun impossible => nomatch impossible⟩
  · exact (asks_writeAtomic (by simp [SelfUpdateConfig.files]) (by simp [SelfUpdateConfig.files]) _).bind
      (fun _ => trivial)

lemma asks_storeCache (record : CacheRecord) (now : Int64) :
    (storeCache J config record now).Asks (fun e => e = .storing record ∨ e.Local config.files) := by
  unfold storeCache
  refine ⟨.inl rfl, fun _ => ⟨.inr trivial, fun made => ?_⟩⟩
  dsimp only [bind, Program.bind]
  split
  · trivial
  · refine Program.Asks.mono ?_ (fun _ => .inr)
    refine (asks_writeAtomic (by simp [SelfUpdateConfig.files]) (by simp [SelfUpdateConfig.files]) _).bind
      (fun written => ?_)
    split
    · trivial
    · split
      · exact ⟨trivial, fun impossible => nomatch impossible⟩
      · exact asks_writeAtomic (by simp [SelfUpdateConfig.files]) (by simp [SelfUpdateConfig.files]) _

lemma asks_loadCache : (loadCache J config).Asks (ServiceOp.Local config.files) := by
  unfold loadCache
  refine ⟨by simp [ServiceOp.Local, SelfUpdateConfig.files], fun raw => ?_⟩
  dsimp only [bind, Program.bind]
  split
  · trivial
  · split
    · trivial
    · exact ⟨trivial, fun impossible => nomatch impossible⟩
    · refine ⟨by simp [ServiceOp.Local, SelfUpdateConfig.files], fun document => ?_⟩
      dsimp only [bind, Program.bind]
      split
      · trivial
      · split <;> trivial

lemma asks_loadBackoff : (loadBackoff J config).Asks (ServiceOp.Local config.files) := by
  unfold loadBackoff
  refine ⟨by simp [ServiceOp.Local, SelfUpdateConfig.files], fun raw => ?_⟩
  dsimp only [bind, Program.bind]
  split
  · trivial
  · split
    · trivial
    · exact ⟨trivial, fun impossible => nomatch impossible⟩
    · trivial

lemma quiet_saveBackoff (state : BackoffState) : (saveBackoff J config state).Asks ServiceOp.Quiet :=
  (asks_saveBackoff state).mono (fun _ h => h.quiet)

lemma quiet_storeCache (record : CacheRecord) (now : Int64) :
    (storeCache J config record now).Asks ServiceOp.Quiet := by
  refine (asks_storeCache record now).mono (fun e he => ?_)
  rcases he with rfl | he
  · trivial
  · exact he.quiet

lemma wp_quiet {p : ServiceProgram α} {k : α → ServiceProgram β} {Q : β → Console → Prop} (hp : p.Asks ServiceOp.Quiet)
    (hk : ∀ a t, t.answers = s.answers → Service.world.wp A (fun _ => True) (k a) Q t) :
    Service.world.wp A (fun _ => True) (p >>= k) Q s := by
  refine (World.wp_bind _ _ _).mpr (World.wp_mono (World.wp_of_asks (I := fun t => t.answers = s.answers) hp rfl ?_)
    (fun _ h => h) (fun _ _ => trivial) hk)
  intro e f t he ht
  cases e <;> first | exact ht | cases he

structure Reached (A : Event ServiceOp ServiceOp.Reply ServiceFate → Prop) (config : SelfUpdateConfig)
    (answers : List (Except HttpError Response)) (usedMirror : Bool) (answer : Except HttpError Response)
    (older : List (Except HttpError Response)) : Prop where
  mirror : usedMirror = true → config.mirrorUrl ≠ []
  asked : ∃ ifNoneMatch f, A ⟨.fetch (config.sourceUrl usedMirror) ifNoneMatch, f, answer⟩
  older : older = answers ∨ ∃ error, older = .error error :: answers

lemma Reached.kept {answers older : List (Except HttpError Response)} {usedMirror : Bool}
    {answer : Except HttpError Response} (h : Reached A config answers usedMirror answer older) :
    ∀ a ∈ answers, a ∈ answer :: older := by
  intro a ha
  rcases h.older with rfl | ⟨error, rfl⟩
  · exact List.mem_cons_of_mem _ ha
  · exact List.mem_cons_of_mem _ (List.mem_cons_of_mem _ ha)

lemma wp_request {ifNoneMatch : Bytes} {k : Bool × Except HttpError Response → ServiceProgram α}
    (hC : C s) (hretry : ∀ error, C { s with answers := .error error :: s.answers })
    (hk : ∀ usedMirror answer older, Reached A config s.answers usedMirror answer older →
      Service.world.wp A C (k (usedMirror, answer)) Q { s with answers := answer :: older }) :
    Service.world.wp A C (request config ifNoneMatch >>= k) Q s := by
  rw [request, Program.bind_assoc]
  refine Service.wp_fetch hC (fun answer f hf => ?_)
  cases answer with
  | ok response => exact hk _ _ _ ⟨fun h => Bool.noConfusion h, ⟨_, f, hf⟩, .inl rfl⟩
  | error error =>
    dsimp only
    split
    · next hmirror =>
      rw [Program.bind_assoc]
      refine Service.wp_fetch (hretry error) (fun answer f' hf' => ?_)
      refine hk _ _ _ ⟨fun _ hnone => ?_, ⟨_, f', hf'⟩, .inr ⟨error, rfl⟩⟩
      simp [hnone] at hmirror
    · exact hk _ _ _ ⟨fun h => Bool.noConfusion h, ⟨_, f, hf⟩, .inl rfl⟩

lemma wp_askNetwork {b : Beginning} {Q : CheckOutcome → Console → Prop}
    (hC : C s) (hretry : ∀ error, C { s with answers := .error error :: s.answers })
    (hrefused : ∀ usedMirror error older, Reached A config s.answers usedMirror (.error error) older →
      Service.world.wp A C (afterRefusal J config b usedMirror error) Q { s with answers := .error error :: older })
    (hkept : ∀ usedMirror response older pair, Reached A config s.answers usedMirror (.ok response) older →
      response.status = 304 → b.cached = some pair →
      Service.world.wp A C (afterNotModified J config b usedMirror pair) Q
        { s with answers := .ok response :: older })
    (hfresh : ∀ usedMirror response older, Reached A config s.answers usedMirror (.ok response) older →
      Service.world.wp A C (afterResponse J config b usedMirror response) Q
        { s with answers := .ok response :: older }) :
    Service.world.wp A C (askNetwork J config b) Q s := by
  unfold askNetwork
  refine wp_request hC hretry (fun usedMirror answer older hreached => ?_)
  cases answer with
  | error error => exact hrefused usedMirror error older hreached
  | ok response =>
    dsimp only
    split
    · next hstatus =>
      split
      · next pair hpair => exact hkept usedMirror response older pair hreached hstatus hpair
      · exact hfresh usedMirror response older hreached
    · exact hfresh usedMirror response older hreached

lemma wp_proceed {b : Beginning} {Q : CheckOutcome → Console → Prop} (hC : C s)
    (hserve : ∀ pair out, b.cached = some pair → Speaks J config pair.document out → Q out s)
    (hdefer : ∀ out, out.decision.action = .manifestUnreadable → Q out s)
    (hask : Service.world.wp A C (askNetwork J config b) Q s) :
    Service.world.wp A C (proceed J config b) Q s := by
  have hcached : Service.world.wp A C (serve J config b) Q s := by
    unfold serve
    split
    · next pair hpair =>
      rw [← Program.bind_done (fromDocument _ _ _ _ _ _ _)]
      exact wp_fromDocument hC (fun out hout => hserve pair out hpair hout)
    · exact Service.wp_absent hC
  unfold proceed
  split
  · exact hcached
  · exact hcached
  · exact hdefer _ rfl
  · exact hask
  · exact hask

lemma wp_check {Q : CheckOutcome → Console → Prop} (hC : C s)
    (h : ∀ now, Service.world.wp A C
      (proceed J config ⟨now, cacheOn J config s.card, backoffOn J config s.card⟩) Q s) :
    Service.world.wp A C (check J config) Q s :=
  Service.wp_nowUnix hC (fun now => wp_loadCache hC (wp_loadBackoff hC (h now)))

end Functions

def Beginning.restamped (config : SelfUpdateConfig) (b : Beginning) (usedMirror : Bool) (pair : CachedDocument) :
    CacheRecord :=
  { document := pair.document
    etag := if pair.metadata.etag.isEmpty then (b.plan config).ifNoneMatch else pair.metadata.etag
    sourceUrl := if pair.metadata.sourceUrl.isEmpty then config.sourceUrl usedMirror else pair.metadata.sourceUrl }

lemma plan_cached {config : SelfUpdateConfig} {b : Beginning}
    (h : (b.plan config).plan = .serveCache ∨ (b.plan config).plan = .deferToCache) :
    ∃ pair, b.cached = some pair := by
  cases hc : b.cached with
  | some pair => exact ⟨pair, rfl⟩
  | none =>
    simp only [Beginning.plan, hc, planManifestFetch, Option.map_none] at h
    split at h <;> simp at h

lemma decideUpdate_upToDate {installed : SemVer} {m : UpdateManifest} {channel : Channel}
    (h : (decideUpdate installed m channel).action = .upToDate) :
    m.channel = channel ∧ SemVer.compare m.version installed ≠ .gt := by
  unfold decideUpdate at h
  split_ifs at h with hchannel hmin hnew hmandatory
  · refine ⟨not_not.mp hchannel, fun hgt => ?_⟩
    simp [SemVer.isNewerThan, hgt] at hnew

lemma decideUpdate_offers {installed : SemVer} {m : UpdateManifest} {channel : Channel}
    (h : (decideUpdate installed m channel).offersUpdate = true) :
    m.channel = channel ∧ SemVer.compare m.version installed = .gt ∧
      SemVer.compare installed m.minSupported ≠ .lt := by
  unfold decideUpdate at h
  split_ifs at h with hchannel hmin hnew hmandatory
  all_goals cases h
  all_goals
    refine ⟨not_not.mp hchannel, by simpa [SemVer.isNewerThan] using hnew, fun hlt => ?_⟩
    simp [hlt] at hmin

def Available (J : JsonLibrary) (config : SelfUpdateConfig) (card : Card)
    (answers : List (Except HttpError Response)) (document : Bytes) : Prop :=
  (∃ response, .ok response ∈ answers ∧ response.body = document) ∨
    ∃ pair, cacheOn J config card = some pair ∧ pair.document = document ∧
      cacheMatchesDocument pair.metadata document = true

structure Informed (J : JsonLibrary) (config : SelfUpdateConfig) (card : Card)
    (answers : List (Except HttpError Response)) (out : CheckOutcome) : Prop where
  known : out.decision.action ≠ .manifestUnreadable → ∃ manifest document,
    out.manifest = some manifest ∧ parseManifest J document = .ok manifest ∧
      Available J config card answers document
  upToDate : out.decision.action = .upToDate → ∃ manifest, out.manifest = some manifest ∧
    manifest.channel = config.channel ∧ SemVer.compare manifest.version config.installed ≠ .gt
  offered : out.decision.offersUpdate = true → ∃ manifest, out.manifest = some manifest ∧
    manifest.channel = config.channel ∧ SemVer.compare manifest.version config.installed = .gt ∧
      SemVer.compare config.installed manifest.minSupported ≠ .lt ∧
      ∃ asset ∈ manifest.assets, asset.kind = .appNro
  unknown : (∀ response, .ok response ∉ answers) → cacheOn J config card = none →
    out.decision.action = .manifestUnreadable

section Informed

variable {J : JsonLibrary} {config : SelfUpdateConfig} {card : Card} {out : CheckOutcome}
  {answers : List (Except HttpError Response)} {b : Beginning} {s : Console}
  {A : Event ServiceOp ServiceOp.Reply ServiceFate → Prop}

lemma cacheOn_matches {pair : CachedDocument} (h : cacheOn J config card = some pair) :
    cacheMatchesDocument pair.metadata pair.document = true := by
  simp only [cacheOn, Option.bind_eq_bind, Option.bind_eq_some_iff] at h
  obtain ⟨_, _, _, _, _, _, h⟩ := h
  split at h
  · next hmatch =>
    cases h
    exact hmatch
  · cases h

lemma informed_of_unreadable (h : out.decision.action = .manifestUnreadable) :
    Informed J config card answers out where
  known := fun hne => absurd h hne
  upToDate := fun hup => by simp [h] at hup
  offered := fun hoffer => by simp [UpdateDecision.offersUpdate, h] at hoffer
  unknown := fun _ _ => h

lemma informed_of_speaks {document : Bytes} (hout : Speaks J config document out)
    (hdocument : Available J config card answers document) : Informed J config card answers out := by
  unfold Speaks at hout
  split at hout
  · next manifest hparse =>
    obtain ⟨hmanifest, hdecision⟩ := hout
    refine ⟨fun _ => ⟨manifest, document, hmanifest, hparse, hdocument⟩, fun hup => ?_, fun hoffer => ?_,
      fun hnone hcache => ?_⟩
    · exact ⟨manifest, hmanifest, decideUpdate_upToDate (hdecision ▸ hup)⟩
    · obtain ⟨hchannel, hnewer, hmin⟩ := decideUpdate_offers (hdecision ▸ hoffer)
      exact ⟨manifest, hmanifest, hchannel, hnewer, hmin,
        UpdateManifest.exists_of_findAsset (findAsset_of_parseManifest hparse)⟩
    · rcases hdocument with ⟨response, hresponse, _⟩ | ⟨pair, hpair, _⟩
      · exact absurd hresponse (hnone response)
      · rw [hcache] at hpair
        cases hpair
  · exact informed_of_unreadable hout

abbrev Tells (J : JsonLibrary) (config : SelfUpdateConfig) (card : Card) (out : CheckOutcome) (t : Console) :
    Prop :=
  Informed J config card t.answers out

lemma available_cached (hcached : cacheOn J config card = b.cached) {pair : CachedDocument}
    (hpair : b.cached = some pair) : Available J config card answers pair.document :=
  .inr ⟨pair, hcached.trans hpair, rfl, cacheOn_matches (hcached.trans hpair)⟩

lemma afterRefusal_tells (hcached : cacheOn J config card = b.cached) (usedMirror : Bool) (error : HttpError) :
    Service.world.wp A (fun _ => True) (afterRefusal J config b usedMirror error) (Tells J config card) s := by
  unfold afterRefusal
  refine wp_quiet (quiet_saveBackoff _) (fun _ t ht => ?_)
  split
  · next pair hpair =>
    exact wp_fromDocument trivial (fun out hout => informed_of_speaks hout (available_cached hcached hpair))
  · exact informed_of_unreadable rfl

lemma afterNotModified_tells (hcached : cacheOn J config card = b.cached) (usedMirror : Bool)
    {pair : CachedDocument} (hpair : b.cached = some pair) :
    Service.world.wp A (fun _ => True) (afterNotModified J config b usedMirror pair) (Tells J config card) s := by
  unfold afterNotModified
  refine wp_quiet (quiet_storeCache _ _) (fun _ t _ => ?_)
  refine wp_quiet (quiet_saveBackoff _) (fun _ t _ => ?_)
  exact wp_fromDocument trivial (fun out hout => informed_of_speaks hout (available_cached hcached hpair))

lemma afterResponse_tells (hcached : cacheOn J config card = b.cached) (usedMirror : Bool) {response : Response}
    (hresponse : .ok response ∈ s.answers) :
    Service.world.wp A (fun _ => True) (afterResponse J config b usedMirror response) (Tells J config card) s := by
  unfold afterResponse
  refine wp_fromDocument trivial (fun out hout => ?_)
  split
  · next hunreadable =>
    refine wp_quiet (quiet_saveBackoff _) (fun _ t _ => ?_)
    split
    · next pair hpair =>
      exact wp_fromDocument trivial (fun out hout => informed_of_speaks hout (available_cached hcached hpair))
    · exact informed_of_unreadable hunreadable
  · refine wp_quiet (quiet_storeCache _ _) (fun _ t ht => ?_)
    refine wp_quiet (quiet_saveBackoff _) (fun _ t' ht' => ?_)
    refine informed_of_speaks hout (.inl ⟨response, ?_, rfl⟩)
    rw [ht', ht]
    exact hresponse

lemma check_tells : Service.world.wp A (fun _ => True) (check J config) (Tells J config s.card) s := by
  refine wp_check trivial (fun now => wp_proceed trivial (fun pair out hpair hout => ?_) (fun _ hout => ?_) ?_)
  · exact informed_of_speaks hout (available_cached (b := ⟨now, _, _⟩) rfl hpair)
  · exact informed_of_unreadable hout
  · refine wp_askNetwork trivial (fun _ => trivial) (fun _ error _ _ => ?_) (fun _ _ _ pair _ _ hpair => ?_)
      (fun _ _ _ _ => ?_)
    · exact afterRefusal_tells rfl _ error
    · exact afterNotModified_tells rfl _ hpair
    · exact afterResponse_tells rfl _ List.mem_cons_self

end Informed

lemma ServiceOp.Quiet.ne_absent {e : ServiceOp} (h : e.Quiet) : e ≠ .absent := by
  rintro rfl
  exact h

section Asks

variable {J : JsonLibrary} {config : SelfUpdateConfig} {b : Beginning}

lemma asks_serve (h : (b.plan config).plan = .serveCache ∨ (b.plan config).plan = .deferToCache) :
    (serve J config b).Asks (ServiceOp.Local config.files) := by
  obtain ⟨pair, hpair⟩ := plan_cached h
  unfold serve
  rw [hpair]
  exact asks_fromDocument _ _ _ _ _ _

lemma asks_afterRefusal (usedMirror : Bool) (error : HttpError) :
    (afterRefusal J config b usedMirror error).Asks (ServiceOp.Local config.files) := by
  unfold afterRefusal
  refine (asks_saveBackoff _).bind (fun _ => ?_)
  split
  · exact (asks_fromDocument _ _ _ _ _ _).bind (fun _ => trivial)
  · trivial

lemma asks_afterNotModified (usedMirror : Bool) (pair : CachedDocument) :
    (afterNotModified J config b usedMirror pair).Asks
      (fun e => e = .storing (b.restamped config usedMirror pair) ∨ e.Local config.files) := by
  refine (asks_storeCache _ _).bind (fun _ => Program.Asks.mono ?_ (fun _ => .inr))
  exact (asks_saveBackoff _).bind (fun _ => (asks_fromDocument _ _ _ _ _ _).bind (fun _ => trivial))

lemma asks_afterResponse (usedMirror : Bool) (response : Response) :
    (afterResponse J config b usedMirror response).Asks (fun e =>
      e = .storing ⟨response.body, response.etag, config.sourceUrl usedMirror⟩ ∨ e.Local config.files) := by
  unfold afterResponse
  refine ((asks_fromDocument _ _ _ _ _ _).mono (fun _ => .inr)).bind (fun out => ?_)
  split
  · refine Program.Asks.mono ((asks_saveBackoff _).bind (fun _ => ?_)) (fun _ => .inr)
    split
    · exact (asks_fromDocument _ _ _ _ _ _).bind (fun _ => trivial)
    · trivial
  · refine (asks_storeCache _ _).bind (fun _ => Program.Asks.mono ?_ (fun _ => .inr))
    exact (asks_saveBackoff _).bind (fun _ => trivial)

def ServiceOp.Kept (config : SelfUpdateConfig) (e : ServiceOp) : Prop :=
  (∃ record, e = .storing record) ∨ e.Local config.files

lemma asks_request {P : ServiceOp → Prop} {ifNoneMatch : Bytes} (hprimary : P (.fetch config.manifestUrl ifNoneMatch))
    (hmirror : P (.fetch config.mirrorUrl [])) : (request config ifNoneMatch).Asks P := by
  unfold request
  refine ⟨hprimary, fun (answer : Except HttpError Response) => ?_⟩
  cases answer with
  | ok response => trivial
  | error error =>
    dsimp only [bind, Program.bind]
    split
    · exact ⟨hmirror, fun _ => trivial⟩
    · trivial

lemma asks_proceed {P : ServiceOp → Prop} (hkept : ∀ e, e.Kept config → P e)
    (hprimary : P (.fetch config.manifestUrl (b.plan config).ifNoneMatch))
    (hmirror : P (.fetch config.mirrorUrl [])) : (proceed J config b).Asks P := by
  have hstored : ∀ {record : CacheRecord} {p : ServiceProgram CheckOutcome},
      p.Asks (fun e => e = .storing record ∨ e.Local config.files) → p.Asks P := fun hp =>
    hp.mono (fun e he => hkept e (he.imp_left (fun h => ⟨_, h⟩)))
  have hask : (askNetwork J config b).Asks P := by
    unfold askNetwork
    refine (asks_request hprimary hmirror).bind (fun ⟨usedMirror, answer⟩ => ?_)
    dsimp only
    split
    · exact (asks_afterRefusal _ _).mono (fun e he => hkept e (.inr he))
    · split
      · split
        · exact hstored (asks_afterNotModified _ _)
        · exact hstored (asks_afterResponse _ _)
      · exact hstored (asks_afterResponse _ _)
  unfold proceed
  split
  · next h => exact (asks_serve (.inl h)).mono (fun e he => hkept e (.inr he))
  · next h => exact (asks_serve (.inr h)).mono (fun e he => hkept e (.inr he))
  · trivial
  · exact hask
  · exact hask

lemma ServiceOp.Kept.quiet {e : ServiceOp} (h : e.Kept config) : e.Quiet := by
  rcases h with ⟨record, rfl⟩ | h
  · trivial
  · exact h.quiet

lemma asks_check (J : JsonLibrary) (config : SelfUpdateConfig) : (check J config).Asks (· ≠ .absent) := by
  refine ⟨ServiceOp.noConfusion, fun now => ?_⟩
  refine (asks_loadCache.mono (fun _ h => h.quiet.ne_absent)).bind (fun cached => ?_)
  refine (asks_loadBackoff.mono (fun _ h => h.quiet.ne_absent)).bind (fun backoff => ?_)
  exact asks_proceed (fun _ he => he.quiet.ne_absent) ServiceOp.noConfusion ServiceOp.noConfusion

end Asks

def resume (J : JsonLibrary) (config : SelfUpdateConfig) (now : Int64) : ServiceProgram CheckOutcome := do
  let cached ← loadCache J config
  let backoff ← loadBackoff J config
  proceed J config ⟨now, cached, backoff⟩

lemma check_eq (J : JsonLibrary) (config : SelfUpdateConfig) : check J config = Service.nowUnix >>= resume J config :=
  rfl

lemma asksIn_resume {J : JsonLibrary} {config : SelfUpdateConfig} {now : Int64} {s : Console}
    {A : Event ServiceOp ServiceOp.Reply ServiceFate → Prop} {P : ServiceOp → Prop} (hlocal : ∀ e, e.Quiet → P e)
    (h : (proceed J config ⟨now, cacheOn J config s.card, backoffOn J config s.card⟩).Asks P) :
    Service.world.asksIn A (fun e _ => P e) (resume J config now) s := by
  refine World.asksIn_bind (C := fun _ => True)
    (World.asksIn_of_asks asks_loadCache (fun e _ he => hlocal e he.quiet)) ?_
  rw [← Program.bind_done (loadCache J config)]
  refine wp_loadCache trivial ?_
  refine World.asksIn_bind (C := fun _ => True)
    (World.asksIn_of_asks asks_loadBackoff (fun e _ he => hlocal e he.quiet)) ?_
  rw [← Program.bind_done (loadBackoff J config)]
  refine wp_loadBackoff trivial ?_
  exact World.asksIn_of_asks h (fun _ _ he => he)

theorem check_tells_what_it_knows (J : JsonLibrary) (config : SelfUpdateConfig) (card : Card)
    (fates : List ServiceFate) :
    (check J config).Asks (· ≠ .absent) ∧
      ∀ out, (Service.world.exec (check J config) fates { card }).outcome = some out →
        Informed J config card (Service.world.exec (check J config) fates { card }).state.answers out :=
  ⟨asks_check J config, fun _ hout => World.exec_post hout check_tells⟩

namespace Sample

def publishedWith (sha256 : Bytes) : Bytes :=
  ascii "\x7b\"schema_version\":1,\"product\":\"nsx-manager\",\"version\":\"0.2.0\",\"tag\":\"v0.2.0\"," ++
    ascii "\"published_at\":\"2026-01-01T00:00:00Z\",\"channel\":\"stable\",\"mandatory\":false," ++
    ascii "\"min_supported\":\"0.1.0\",\"assets\":[\x7b\"name\":\"a.nro\",\"kind\":\"app-nro\"," ++
    ascii "\"url\":\"https://github.com/a\",\"size\":1,\"sha256\":\"" ++ sha256 ++ ascii "\"\x7d]\x7d"

def published : Bytes := publishedWith (List.replicate 64 (byte '0'))

def releaseWith (sha256 : Digest) : UpdateManifest :=
  { schemaVersion := 1, version := { minor := 2 }, tag := ascii "v0.2.0",
    publishedAt := ascii "2026-01-01T00:00:00Z", minSupported := { minor := 1 },
    assets := [⟨ascii "a.nro", .appNro, ascii "https://github.com/a", 1, sha256⟩] }

def release : UpdateManifest := releaseWith (Vector.replicate 32 0)

def service : SelfUpdateConfig := { cacheDir := ascii "/c", installed := { minor := 1 } }

def onReadOnlyCard (body : Bytes) : List ServiceFate :=
  [.time 100, .ok, .ok, .responded { status := 200, body }, .ok, .fails 0, .fails 0, .fails 0]

def readOnlyCard : List ServiceFate := onReadOnlyCard published

end Sample

theorem check_offers_the_published_release :
    let t := Service.world.exec (check JsonCodec.library Sample.service) Sample.readOnlyCard { card := ∅ }
    ∃ out, t.outcome = some out ∧ out.decision.action = .optional ∧ out.manifest = some Sample.release ∧
      Informed JsonCodec.library Sample.service ∅ t.state.answers out := by
  have hout : ((Service.world.exec (check JsonCodec.library Sample.service) Sample.readOnlyCard
      { card := ∅ }).outcome.map (fun out => (out.decision.action, out.manifest))) =
        some (.optional, some Sample.release) := by
    decide +kernel
  obtain ⟨out, hsome, heq⟩ := Option.map_eq_some_iff.mp hout
  obtain ⟨haction, hmanifest⟩ := Prod.mk.inj heq
  exact ⟨out, hsome, haction, hmanifest,
    (check_tells_what_it_knows JsonCodec.library Sample.service ∅ Sample.readOnlyCard).2 out hsome⟩

end SelfUpdate

end NsxManager
