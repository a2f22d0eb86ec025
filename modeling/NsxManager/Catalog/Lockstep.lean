import NsxManager.Catalog.Protocol
import NsxManager.Lib.Paired

/-! Two services that follow the protocol, request by request. -/

namespace NsxManager.Catalog

open NsxManager.Core Lib Infra SelfUpdate

/-- The two programs make the same requests, each of its own files, and of the same hosts; bodies of answers
are in `D`. -/
inductive Alike {α α' : Type} (D : Bytes → Prop) (urls : List Bytes) (l l' : Layout) (Q : α → α' → Prop) :
    ServiceProgram α → ServiceProgram α' → Prop
  | done {a : α} {a' : α'} (h : Q a a') : Alike D urls l l' Q (.done a) (.done a')
  | makeDirectories {next : Bool → ServiceProgram α} {next' : Bool → ServiceProgram α'}
    (h : ∀ r, Alike D urls l l' Q (next r) (next' r)) :
    Alike D urls l l' Q (.call (.makeDirectories l.directory) next) (.call (.makeDirectories l'.directory) next')
  | probe (x : Cell) {next : Bool → ServiceProgram α} {next' : Bool → ServiceProgram α'}
    (h : ∀ r, Alike D urls l l' Q (next r) (next' r)) :
    Alike D urls l l' Q (.call (.disk (.probe (l.cell x))) next) (.call (.disk (.probe (l'.cell x))) next')
  | create (x : Cell) {next : Bool → ServiceProgram α} {next' : Bool → ServiceProgram α'}
    (h : ∀ r, Alike D urls l l' Q (next r) (next' r)) :
    Alike D urls l l' Q (.call (.disk (.create (l.cell x))) next) (.call (.disk (.create (l'.cell x))) next')
  | append (x : Cell) (data : Bytes) {next : Bool → ServiceProgram α} {next' : Bool → ServiceProgram α'}
    (h : ∀ r, Alike D urls l l' Q (next r) (next' r)) :
    Alike D urls l l' Q (.call (.disk (.append (l.cell x) data)) next)
      (.call (.disk (.append (l'.cell x) data)) next')
  | flush (x : Cell) {next : Bool → ServiceProgram α} {next' : Bool → ServiceProgram α'}
    (h : ∀ r, Alike D urls l l' Q (next r) (next' r)) :
    Alike D urls l l' Q (.call (.disk (.flush (l.cell x))) next) (.call (.disk (.flush (l'.cell x))) next')
  | remove (x : Cell) {next : Bool → ServiceProgram α} {next' : Bool → ServiceProgram α'}
    (h : ∀ r, Alike D urls l l' Q (next r) (next' r)) :
    Alike D urls l l' Q (.call (.disk (.remove (l.cell x))) next) (.call (.disk (.remove (l'.cell x))) next')
  | rename (x y : Cell) {next : Bool → ServiceProgram α} {next' : Bool → ServiceProgram α'}
    (h : ∀ r, Alike D urls l l' Q (next r) (next' r)) :
    Alike D urls l l' Q (.call (.disk (.rename (l.cell x) (l.cell y))) next)
      (.call (.disk (.rename (l'.cell x) (l'.cell y))) next')
  | fetch {url : Bytes} (ifNoneMatch : Bytes) (hurl : url ∈ urls) {next : Except HttpError Response → ServiceProgram α}
    {next' : Except HttpError Response → ServiceProgram α'}
    (h : ∀ r, (∀ response, r = .ok response → D response.body) → Alike D urls l l' Q (next r) (next' r)) :
    Alike D urls l l' Q (.call (.fetch url ifNoneMatch) next) (.call (.fetch url ifNoneMatch) next')
  | storing (record : CacheRecord) {next : Unit → ServiceProgram α} {next' : Unit → ServiceProgram α'}
    (h : ∀ r, Alike D urls l l' Q (next r) (next' r)) :
    Alike D urls l l' Q (.call (.storing record) next) (.call (.storing record) next')
  | absent {next : Empty → ServiceProgram α} {next' : Empty → ServiceProgram α'} :
    Alike D urls l l' Q (.call .absent next) (.call .absent next')
  | abort {next : Empty → ServiceProgram α} {next' : Empty → ServiceProgram α'} :
    Alike D urls l l' Q (.call .abort next) (.call .abort next')

namespace Alike

variable {α α' β β' : Type} {D : Bytes → Prop} {urls : List Bytes} {l l' : Layout}

lemma bind {Q : α → α' → Prop} {R : β → β' → Prop} {p : ServiceProgram α} {p' : ServiceProgram α'}
    {k : α → ServiceProgram β} {k' : α' → ServiceProgram β'} (h : Alike D urls l l' Q p p')
    (hk : ∀ a a', Q a a' → Alike D urls l l' R (k a) (k' a')) : Alike D urls l l' R (p >>= k) (p' >>= k') := by
  induction h with
  | done h => exact hk _ _ h
  | makeDirectories _ ih => exact .makeDirectories ih
  | probe x _ ih => exact .probe x ih
  | create x _ ih => exact .create x ih
  | append x data _ ih => exact .append x data ih
  | flush x _ ih => exact .flush x ih
  | remove x _ ih => exact .remove x ih
  | rename x y _ ih => exact .rename x y ih
  | fetch ifNoneMatch hurl _ ih => exact .fetch ifNoneMatch hurl ih
  | storing record _ ih => exact .storing record ih
  | absent => exact .absent
  | abort => exact .abort

lemma writeAtomic (file : CacheFile) (data : Bytes) : Alike D urls l l' (· = ·)
    (Service.writeAtomic (l.name file) data) (Service.writeAtomic (l'.name file) data) := by
  have hpromote : ∀ written : Bool, Alike D urls l l' (· = ·)
      (Service.onDisk (Stdio.promote written (l.name file) (l.name file ++ ascii ".tmp")))
      (Service.onDisk (Stdio.promote written (l'.name file) (l'.name file ++ ascii ".tmp"))) := by
    intro written
    refine .flush (file, true) (fun flushed => ?_)
    dsimp only [bind, Program.bind]
    cases (!written || !flushed) with
    | true => exact .remove (file, true) (fun _ => .done rfl)
    | false =>
      refine .remove (file, false) (fun _ => .rename (file, true) (file, false) (fun renamed => ?_))
      cases renamed with
      | true => exact .done rfl
      | false => exact .remove (file, true) (fun _ => .done rfl)
  refine .create (file, true) (fun opened => ?_)
  cases opened with
  | false => exact .done rfl
  | true =>
    cases data with
    | nil => exact hpromote true
    | cons b data => exact .append (file, true) _ (fun written => hpromote written)

end Alike

def Client.urls {α : Type} (c : Client α) : List Bytes := c.primary :: if c.mirror.isEmpty then [] else [c.mirror]

structure Client.Like {α α' : Type} (D : Bytes → Prop) (T : Bytes → Bytes → Prop) (Q : α → α' → Prop)
    (c : Client α) (c' : Client α') : Prop where
  primary : c'.primary = c.primary
  mirror : c'.mirror = c.mirror
  ttl : c'.ttl = c.ttl
  policy : c'.policy = c.policy
  present : ∀ document served age plan detail detail', D document → T detail detail' →
    Alike D c.urls c.layout c'.layout Q (c.present document served age plan detail)
      (c'.present document served age plan detail')
  same : ∀ text, T text text
  failed : ∀ error, T (c.failed error) (c'.failed error)
  unread : ∀ a a', Q a a' → T (c.unread (c.detail a)) (c'.unread (c'.detail a'))
  fresh : T c.fresh c'.fresh
  unreadable : ∀ a a', Q a a' → (c.Unreadable a ↔ c'.Unreadable a')
  via : ∀ a a' usedMirror, Q a a' → Q (c.via usedMirror a) (c'.via usedMirror a')
  cutOff : ∀ a a' error usedMirror, Q a a' → Q (c.cutOff error usedMirror a) (c'.cutOff error usedMirror a')
  deferred : ∀ plan, Q (c.deferred plan) (c'.deferred plan)
  unreachable : ∀ plan usedMirror error, Q (c.unreachable plan usedMirror error) (c'.unreachable plan usedMirror error)

namespace Client

variable {α α' : Type} {D : Bytes → Prop} {T : Bytes → Bytes → Prop} {Q : α → α' → Prop} {c : Client α}
  {c' : Client α'} {J : JsonLibrary} {b : Beginning} (h : Client.Like D T Q c c')

lemma alike_saveBackoff (c : Client α) (c' : Client α') {urls : List Bytes} (state : BackoffState) :
    Alike D urls c.layout c'.layout (fun _ _ => True) (c.saveBackoff J state) (c'.saveBackoff J state) := by
  refine .makeDirectories (fun _ => ?_)
  dsimp only [bind, Program.bind]
  cases serializeBackoff J state with
  | none => exact .abort
  | some text => exact (Alike.writeAtomic .backoff text).bind (fun _ _ _ => .done trivial)

lemma alike_storeCache (c : Client α) (c' : Client α') {urls : List Bytes} (record : CacheRecord) (now : Int64) :
    Alike D urls c.layout c'.layout (· = ·) (c.storeCache J record now) (c'.storeCache J record now) := by
  refine .storing record (fun _ => .makeDirectories (fun made => ?_))
  dsimp only [bind, Program.bind]
  cases made with
  | false => exact .done rfl
  | true =>
    refine (Alike.writeAtomic .document record.document).bind (fun written _ hwritten => ?_)
    subst hwritten
    cases written with
    | false => exact .done rfl
    | true =>
      cases serializeCacheMetadata J (metadataOf record now) with
      | none => exact .abort
      | some text => exact Alike.writeAtomic .metadata text

include h

lemma Like.plan_eq (b : Beginning) : c'.plan b = c.plan b := by
  rw [plan, plan, h.ttl, h.policy]

lemma Like.sourceUrl_eq (usedMirror : Bool) : c'.sourceUrl usedMirror = c.sourceUrl usedMirror := by
  rw [sourceUrl, sourceUrl, h.primary, h.mirror]

lemma Like.saveFailure (b : Beginning) : Alike D c.urls c.layout c'.layout (fun _ _ => True) (c.saveFailure J b)
    (c'.saveFailure J b) := by
  rw [Client.saveFailure, Client.saveFailure, h.policy]
  exact alike_saveBackoff c c' _

lemma Like.request (ifNoneMatch : Bytes) : Alike D c.urls c.layout c'.layout
    (fun x x' => x = x' ∧ ∀ response, x.2 = .ok response → D response.body)
    (c.request ifNoneMatch) (c'.request ifNoneMatch) := by
  rw [Client.request, Client.request, h.primary, h.mirror]
  refine .fetch ifNoneMatch (by simp [urls]) (fun answer hanswer => ?_)
  dsimp only [bind, Program.bind]
  cases answer with
  | ok response => exact .done ⟨rfl, hanswer⟩
  | error error =>
    dsimp only
    split
    · next hmirror =>
      have hurl : c.mirror ∈ c.urls := by
        simp only [Bool.and_eq_true, Bool.not_eq_true'] at hmirror
        simp [urls, hmirror.2]
      exact .fetch [] hurl (fun answer hanswer => .done ⟨rfl, hanswer⟩)
    · exact .done ⟨rfl, hanswer⟩

lemma Like.afterRefusal (hb : ∀ pair, b.cached = some pair → D pair.document) (usedMirror : Bool)
    (error : HttpError) : Alike D c.urls c.layout c'.layout Q (c.afterRefusal J b usedMirror error)
      (c'.afterRefusal J b usedMirror error) := by
  rw [Client.afterRefusal, Client.afterRefusal, h.plan_eq]
  refine (h.saveFailure b).bind (fun _ _ _ => ?_)
  split
  · next pair hpair =>
    exact (h.present _ _ _ _ _ _ (hb pair hpair) (h.failed error)).bind
      (fun a a' ha => .done (h.cutOff a a' error usedMirror ha))
  · exact .done (h.unreachable _ _ _)

lemma Like.afterNotModified (usedMirror : Bool) {pair : CachedDocument} (hpair : D pair.document) :
    Alike D c.urls c.layout c'.layout Q (c.afterNotModified J b usedMirror pair)
      (c'.afterNotModified J b usedMirror pair) := by
  rw [Client.afterNotModified, Client.afterNotModified, h.plan_eq, h.sourceUrl_eq]
  refine (alike_storeCache c c' _ _).bind (fun _ _ _ => (alike_saveBackoff c c' _).bind (fun _ _ _ => ?_))
  exact (h.present _ _ _ _ _ _ hpair (h.same _)).bind (fun a a' ha => .done (h.via a a' usedMirror ha))

lemma Like.afterResponse (hb : ∀ pair, b.cached = some pair → D pair.document) (usedMirror : Bool)
    {response : Response} (hbody : D response.body) : Alike D c.urls c.layout c'.layout Q
      (c.afterResponse J b usedMirror response) (c'.afterResponse J b usedMirror response) := by
  rw [Client.afterResponse, Client.afterResponse, h.plan_eq, h.sourceUrl_eq]
  refine (h.present _ _ _ _ _ _ hbody h.fresh).bind (fun a a' ha => ?_)
  by_cases hread : c.Unreadable a
  · rw [if_pos hread, if_pos ((h.unreadable a a' ha).mp hread)]
    refine (h.saveFailure b).bind (fun _ _ _ => ?_)
    split
    · next pair hpair =>
      exact (h.present _ _ _ _ _ _ (hb pair hpair) (h.unread a a' ha)).bind
        (fun a a' ha => .done (h.via a a' usedMirror ha))
    · exact .done (h.via a a' usedMirror ha)
  · rw [if_neg hread, if_neg (fun hread' => hread ((h.unreadable a a' ha).mpr hread'))]
    refine (alike_storeCache c c' _ _).bind (fun _ _ _ => (alike_saveBackoff c c' _).bind (fun _ _ _ => ?_))
    exact .done (h.via a a' usedMirror ha)

lemma Like.askNetwork (hb : ∀ pair, b.cached = some pair → D pair.document) :
    Alike D c.urls c.layout c'.layout Q (c.askNetwork J b) (c'.askNetwork J b) := by
  rw [Client.askNetwork, Client.askNetwork, h.plan_eq]
  refine (h.request _).bind ?_
  rintro ⟨usedMirror, answer⟩ _ ⟨rfl, hanswer⟩
  cases answer with
  | error error => exact h.afterRefusal hb usedMirror error
  | ok response =>
    dsimp only
    split
    · split
      · next pair hpair => exact h.afterNotModified usedMirror (hb pair hpair)
      · exact h.afterResponse hb usedMirror (hanswer response rfl)
    · exact h.afterResponse hb usedMirror (hanswer response rfl)

lemma Like.proceed (hb : ∀ pair, b.cached = some pair → D pair.document) :
    Alike D c.urls c.layout c'.layout Q (c.proceed J b) (c'.proceed J b) := by
  have hserve : Alike D c.urls c.layout c'.layout Q (c.serve b) (c'.serve b) := by
    rw [serve, serve, h.plan_eq]
    split
    · next pair hpair => exact h.present _ _ _ _ _ _ (hb pair hpair) (h.same _)
    · exact .absent
  rw [Client.proceed, Client.proceed, h.plan_eq]
  split
  · exact hserve
  · exact hserve
  · exact .done (h.deferred _)
  · exact h.askNetwork hb
  · exact h.askNetwork hb

end Client

def Corr (l l' : Layout) (c c' : Card) : Prop := ∀ x, c.lookup (l.cell x) = c'.lookup (l'.cell x)

namespace Corr

variable {l l' : Layout} {c c' : Card} (h : Corr l l' c c')

include h

lemma has_eq (x : Cell) : c.has (l.cell x) = c'.has (l'.cell x) := by
  rw [Card.has, Card.has, h x]

lemma insert (x : Cell) (bytes : Bytes) : Corr l l' (c.insert (l.cell x) bytes) (c'.insert (l'.cell x) bytes) := by
  intro y
  simp only [Card.lookup_insert_eq, l.injective.eq_iff, l'.injective.eq_iff, h y]

lemma erase (x : Cell) : Corr l l' (c.erase (l.cell x)) (c'.erase (l'.cell x)) := by
  intro y
  simp only [Card.lookup_erase_eq, l.injective.eq_iff, l'.injective.eq_iff, h y]

lemma extend (x : Cell) (data : Bytes) :
    Corr l l' (Stdio.extend c (l.cell x) data) (Stdio.extend c' (l'.cell x) data) := by
  rw [Stdio.extend, Stdio.extend, h x]
  exact h.insert x _

lemma move (x y : Cell) : Corr l l' (c.move (l.cell x) (l.cell y)) (c'.move (l'.cell x) (l'.cell y)) := by
  rw [Card.move, Card.move, h x, h.has_eq y]
  split
  · split
    · exact h
    · exact (h.erase x).insert y _
  · exact h

lemma step_probe (x : Cell) (fate : Fate) :
    Option.Rel (@Eq Bool) (Stdio.step (.probe (l.cell x)) fate c).1
      (Stdio.step (.probe (l'.cell x)) fate c').1 ∧
    Corr l l' (Stdio.step (.probe (l.cell x)) fate c).2 (Stdio.step (.probe (l'.cell x)) fate c').2 := by
  cases fate with
  | torn n => exact ⟨.none, h⟩
  | _ => exact ⟨.some (h.has_eq x), h⟩

lemma step_create (x : Cell) (fate : Fate) :
    Option.Rel (@Eq Bool) (Stdio.step (.create (l.cell x)) fate c).1
      (Stdio.step (.create (l'.cell x)) fate c').1 ∧
    Corr l l' (Stdio.step (.create (l.cell x)) fate c).2 (Stdio.step (.create (l'.cell x)) fate c').2 := by
  cases fate with
  | torn n => exact ⟨.none, h⟩
  | fails n => exact ⟨.some rfl, h⟩
  | _ => exact ⟨.some rfl, h.insert x []⟩

lemma step_append (x : Cell) (data : Bytes) (fate : Fate) :
    Option.Rel (@Eq Bool) (Stdio.step (.append (l.cell x) data) fate c).1
      (Stdio.step (.append (l'.cell x) data) fate c').1 ∧
    Corr l l' (Stdio.step (.append (l.cell x) data) fate c).2 (Stdio.step (.append (l'.cell x) data) fate c').2 := by
  cases fate with
  | torn n => exact ⟨.none, h.extend x _⟩
  | _ => exact ⟨.some rfl, h.extend x _⟩

lemma step_flush (x : Cell) (fate : Fate) :
    Option.Rel (@Eq Bool) (Stdio.step (.flush (l.cell x)) fate c).1
      (Stdio.step (.flush (l'.cell x)) fate c').1 ∧
    Corr l l' (Stdio.step (.flush (l.cell x)) fate c).2 (Stdio.step (.flush (l'.cell x)) fate c').2 := by
  cases fate with
  | torn n => exact ⟨.none, h⟩
  | _ => exact ⟨.some rfl, h⟩

lemma step_remove (x : Cell) (fate : Fate) :
    Option.Rel (@Eq Bool) (Stdio.step (.remove (l.cell x)) fate c).1
      (Stdio.step (.remove (l'.cell x)) fate c').1 ∧
    Corr l l' (Stdio.step (.remove (l.cell x)) fate c).2 (Stdio.step (.remove (l'.cell x)) fate c').2 := by
  cases fate with
  | torn n => exact ⟨.none, h⟩
  | fails n => exact ⟨.some rfl, h⟩
  | _ => exact ⟨.some (h.has_eq x), h.erase x⟩

lemma step_rename (x y : Cell) (fate : Fate) :
    Option.Rel (@Eq Bool) (Stdio.step (.rename (l.cell x) (l.cell y)) fate c).1
      (Stdio.step (.rename (l'.cell x) (l'.cell y)) fate c').1 ∧
    Corr l l' (Stdio.step (.rename (l.cell x) (l.cell y)) fate c).2
      (Stdio.step (.rename (l'.cell x) (l'.cell y)) fate c').2 := by
  have hfree : (c.has (l.cell x) && !c.has (l.cell y)) = (c'.has (l'.cell x) && !c'.has (l'.cell y)) := by
    rw [h.has_eq x, h.has_eq y]
  cases fate with
  | torn n => exact ⟨.none, h⟩
  | fails n => exact ⟨.some rfl, h⟩
  | _ => exact ⟨.some hfree, h.move x y⟩

end Corr

structure Host {S : Type} (W : World ServiceOp ServiceOp.Reply ServiceFate S) where
  console : S → Console
  put : S → Console → S
  put_console : ∀ s, put s (console s) = s
  step_eq : ∀ e f s, e.isFetch = false →
    W.step e f s = ((Service.step e f (console s)).1, put s (Service.step e f (console s)).2)

structure Fits {S : Type} {W : World ServiceOp ServiceOp.Reply ServiceFate S} (H : Host W)
    (K : Coupling W W Exchange) (D : Bytes → Prop) (urls : List Bytes) (l l' : Layout) : Prop where
  observe : K.observe = exchangeOf
  observe' : K.observe' = exchangeOf
  cells : ∀ {s s'}, K.related s s' → Corr l l' (H.console s).card (H.console s').card
  put : ∀ {s s'} {d d' : Console}, K.related s s' → Corr l l' d.card d'.card → K.related (H.put s d) (H.put s' d')
  fetch : ∀ {s s'} {url : Bytes} (ifNoneMatch : Bytes) (f : ServiceFate), url ∈ urls → K.admits f →
    K.related s s' → ∃ (answer : Except HttpError Response) (t t' : S),
      W.step (.fetch url ifNoneMatch) f s = (some answer, t) ∧
      W.step (.fetch url ifNoneMatch) f s' = (some answer, t') ∧ K.related t t' ∧
      ∀ response, answer = .ok response → D response.body

namespace Fits

variable {S α α' : Type} {W : World ServiceOp ServiceOp.Reply ServiceFate S} {H : Host W}
  {K : Coupling W W Exchange} {D : Bytes → Prop} {urls : List Bytes} {l l' : Layout} {s s' : S}
  (fits : Fits H K D urls l l')

include fits

lemma paired_local (e e' : ServiceOp) (B : e.Reply → e'.Reply → Prop) {next : e.Reply → ServiceProgram α}
    {next' : e'.Reply → ServiceProgram α'} {Q : α → α' → S → S → Prop} (hs : K.related s s') (he : e.isFetch = false)
    (he' : e'.isFetch = false)
    (hstep : ∀ f (d d' : Console), Corr l l' d.card d'.card →
      Option.Rel B (Service.step e f d).1 (Service.step e' f d').1 ∧
        Corr l l' (Service.step e f d).2.card (Service.step e' f d').2.card)
    (hnext : ∀ r r' t t', B r r' → K.related t t' → K.paired (next r) (next' r') Q t t') :
    K.paired (.call e next) (.call e' next') Q s s' := by
  refine Coupling.paired_call hs (fun f _ => ?_)
  obtain ⟨hreply, hcells⟩ := hstep f _ _ (fits.cells hs)
  have hkept := fits.put hs hcells
  rw [H.step_eq e f s he, H.step_eq e' f s' he']
  revert hreply
  rcases (Service.step e f (H.console s)).1 with _ | r <;> rcases (Service.step e' f (H.console s')).1 with _ | r'
  · exact fun _ => hkept
  · exact nofun
  · exact nofun
  · intro hreply
    cases hreply with
    | some hreply =>
      refine ⟨?_, hnext r r' _ _ hreply hkept⟩
      rw [fits.observe, fits.observe', exchangeOf_eq_none he, exchangeOf_eq_none he']

lemma paired_of_alike {Q : α → α' → Prop} {p : ServiceProgram α} {p' : ServiceProgram α'}
    (h : Alike D urls l l' Q p p') (hs : K.related s s') :
    K.paired p p' (fun a a' t t' => Q a a' ∧ K.related t t') s s' := by
  induction h generalizing s s' with
  | done h => exact Coupling.paired_done ⟨h, hs⟩
  | makeDirectories _ ih =>
    exact fits.paired_local (.makeDirectories l.directory) (.makeDirectories l'.directory) (@Eq Bool) hs rfl rfl
      (fun f d d' hd => ⟨.some rfl, hd⟩) (fun r _ t t' hr ht => hr ▸ ih r ht)
  | probe x _ ih =>
    exact fits.paired_local (.disk (.probe (l.cell x))) (.disk (.probe (l'.cell x))) (@Eq Bool) hs rfl rfl
      (fun f d d' hd => hd.step_probe x f.onDisk) (fun r _ t t' hr ht => hr ▸ ih r ht)
  | create x _ ih =>
    exact fits.paired_local (.disk (.create (l.cell x))) (.disk (.create (l'.cell x))) (@Eq Bool) hs rfl rfl
      (fun f d d' hd => hd.step_create x f.onDisk) (fun r _ t t' hr ht => hr ▸ ih r ht)
  | append x data _ ih =>
    exact fits.paired_local (.disk (.append (l.cell x) data)) (.disk (.append (l'.cell x) data)) (@Eq Bool) hs rfl rfl
      (fun f d d' hd => hd.step_append x data f.onDisk) (fun r _ t t' hr ht => hr ▸ ih r ht)
  | flush x _ ih =>
    exact fits.paired_local (.disk (.flush (l.cell x))) (.disk (.flush (l'.cell x))) (@Eq Bool) hs rfl rfl
      (fun f d d' hd => hd.step_flush x f.onDisk) (fun r _ t t' hr ht => hr ▸ ih r ht)
  | remove x _ ih =>
    exact fits.paired_local (.disk (.remove (l.cell x))) (.disk (.remove (l'.cell x))) (@Eq Bool) hs rfl rfl
      (fun f d d' hd => hd.step_remove x f.onDisk) (fun r _ t t' hr ht => hr ▸ ih r ht)
  | rename x y _ ih =>
    exact fits.paired_local (.disk (.rename (l.cell x) (l.cell y))) (.disk (.rename (l'.cell x) (l'.cell y)))
      (@Eq Bool) hs rfl rfl
      (fun f d d' hd => hd.step_rename x y f.onDisk) (fun r _ t t' hr ht => hr ▸ ih r ht)
  | fetch ifNoneMatch hurl _ ih =>
    refine Coupling.paired_call hs (fun f hf => ?_)
    obtain ⟨answer, t, t', hstep, hstep', ht, hbody⟩ := fits.fetch ifNoneMatch f hurl hf hs
    rw [hstep, hstep']
    refine ⟨?_, ih answer hbody ht⟩
    rw [fits.observe, fits.observe']
  | storing record _ ih =>
    exact fits.paired_local (.storing record) (.storing record) (@Eq Unit) hs rfl rfl
      (fun f d d' hd => ⟨.some rfl, hd⟩) (fun r _ t t' hr ht => hr ▸ ih r ht)
  | absent =>
    exact fits.paired_local .absent .absent (@Eq Empty) hs rfl rfl (fun f d d' hd => ⟨.none, hd⟩)
      (fun impossible => nomatch impossible)
  | abort =>
    exact fits.paired_local .abort .abort (@Eq Empty) hs rfl rfl (fun f d d' hd => ⟨.none, hd⟩)
      (fun impossible => nomatch impossible)

lemma paired_look {e e' : ServiceOp} {next : e.Reply → ServiceProgram α} {next' : e'.Reply → ServiceProgram α'}
    {Q : α → α' → S → S → Prop} (hs : K.related s s') (he : e.isFetch = false) (he' : e'.isFetch = false)
    (h : ∀ f, ∃ (r : e.Reply) (r' : e'.Reply), Service.step e f (H.console s) = (some r, H.console s) ∧
      Service.step e' f (H.console s') = (some r', H.console s') ∧ K.paired (next r) (next' r') Q s s') :
    K.paired (.call e next) (.call e' next') Q s s' := by
  refine Coupling.paired_call hs (fun f _ => ?_)
  obtain ⟨r, r', hstep, hstep', hnext⟩ := h f
  rw [H.step_eq e f s he, H.step_eq e' f s' he', hstep, hstep']
  dsimp only
  rw [H.put_console, H.put_console, fits.observe, fits.observe', exchangeOf_eq_none he, exchangeOf_eq_none he']
  exact ⟨rfl, hnext⟩

lemma paired_nowUnix {k : Int64 → ServiceProgram α} {k' : Int64 → ServiceProgram α'} {Q : α → α' → S → S → Prop}
    (hs : K.related s s') (hk : ∀ now, K.paired (k now) (k' now) Q s s') :
    K.paired (Service.nowUnix >>= k) (Service.nowUnix >>= k') Q s s' :=
  fits.paired_look hs rfl rfl (fun _ => ⟨_, _, rfl, rfl, hk _⟩)

lemma paired_readText {k : Option Bytes → ServiceProgram α} {k' : Option Bytes → ServiceProgram α'}
    {Q : α → α' → S → S → Prop} (hs : K.related s s') (file : CacheFile) (n : ℕ)
    (hk : ∀ text, (∀ bytes, text = some bytes → (H.console s).card.lookup (l.name file) = some bytes) →
      K.paired (k text) (k' text) Q s s') :
    K.paired (Service.readText (l.name file) n >>= k) (Service.readText (l'.name file) n >>= k') Q s s' := by
  have hcell : (H.console s).card.lookup (l.name file) = (H.console s').card.lookup (l'.name file) :=
    fits.cells hs (file, false)
  refine fits.paired_look hs rfl rfl (fun f => ⟨_, _, rfl, rfl, ?_⟩)
  rw [← hcell]
  exact hk _ (fun bytes hbytes => (Option.filter_eq_some_iff.mp hbytes).1)

lemma paired_abort {Q : α → α' → S → S → Prop} (hs : K.related s s') :
    K.paired (Service.abort : ServiceProgram α) (Service.abort : ServiceProgram α') Q s s' :=
  fits.paired_local .abort .abort (@Eq Empty) hs rfl rfl (fun _ _ _ hd => ⟨.none, hd⟩)
    (fun impossible => nomatch impossible)

end Fits

section Get

variable {S α α' : Type} {W : World ServiceOp ServiceOp.Reply ServiceFate S} {H : Host W}
  {K : Coupling W W Exchange} {D : Bytes → Prop} {s s' : S} {c : Client α} {c' : Client α'} {J : JsonLibrary}
  (fits : Fits H K D c.urls c.layout c'.layout) (hs : K.related s s')

include fits hs

lemma Fits.paired_loadCache : K.paired (c.loadCache J) (c'.loadCache J)
    (fun found found' t t' => found = found' ∧ t = s ∧ t' = s' ∧ ∀ pair, found = some pair →
      (H.console s).card.lookup (c.layout.name .document) = some pair.document) s s' := by
  refine fits.paired_readText hs .metadata _ (fun raw _ => ?_)
  cases raw with
  | none => exact Coupling.paired_done ⟨rfl, rfl, rfl, nofun⟩
  | some raw =>
    dsimp only
    rcases parseCacheMetadata J raw with (error | _) | metadata
    · exact Coupling.paired_done ⟨rfl, rfl, rfl, nofun⟩
    · exact fits.paired_abort hs
    · refine fits.paired_readText hs .document _ (fun document hdocument => ?_)
      cases document with
      | none => exact Coupling.paired_done ⟨rfl, rfl, rfl, nofun⟩
      | some document =>
        dsimp only
        split
        · refine Coupling.paired_done ⟨rfl, rfl, rfl, fun pair hpair => ?_⟩
          obtain rfl := Option.some.inj hpair
          exact hdocument document rfl
        · exact Coupling.paired_done ⟨rfl, rfl, rfl, nofun⟩

lemma Fits.paired_loadBackoff : K.paired (c.loadBackoff J) (c'.loadBackoff J)
    (fun found found' t t' => found = found' ∧ t = s ∧ t' = s') s s' := by
  refine fits.paired_readText hs .backoff _ (fun raw _ => ?_)
  cases raw with
  | none => exact Coupling.paired_done ⟨rfl, rfl, rfl⟩
  | some raw =>
    dsimp only
    rcases parseBackoff J raw with (error | _) | state
    · exact Coupling.paired_done ⟨rfl, rfl, rfl⟩
    · exact fits.paired_abort hs
    · exact Coupling.paired_done ⟨rfl, rfl, rfl⟩

lemma Fits.paired_get {T : Bytes → Bytes → Prop} {Q : α → α' → Prop} (hlike : Client.Like D T Q c c')
    (hdocument : ∀ document, (H.console s).card.lookup (c.layout.name .document) = some document → D document) :
    K.paired (c.get J) (c'.get J) (fun a a' t t' => Q a a' ∧ K.related t t') s s' := by
  refine fits.paired_nowUnix hs (fun now => ?_)
  refine Coupling.paired_bind (Coupling.paired_mono (fits.paired_loadCache hs) ?_)
  rintro cached _ _ _ ⟨rfl, rfl, rfl, hcached⟩
  refine Coupling.paired_bind (Coupling.paired_mono (fits.paired_loadBackoff hs) ?_)
  rintro backoff _ _ _ ⟨rfl, rfl, rfl⟩
  exact fits.paired_of_alike (hlike.proceed (fun pair hpair => hdocument _ (hcached pair hpair))) hs

end Get

end NsxManager.Catalog
