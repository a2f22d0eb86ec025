import NsxManager.Forwarder.Faultless
import NsxManager.Lib.Log
import NsxManager.SelfUpdate.Informed

/-! A failing endpoint is left alone, from one launch to the next. -/

namespace NsxManager.SelfUpdate

open NsxManager.Core Lib Infra

structure Visit where
  config : SelfUpdateConfig
  now : Int64
  fates : List ServiceFate

def Visit.trace (J : JsonLibrary) (v : Visit) (card : Card) :
    Trace ServiceOp ServiceOp.Reply ServiceFate Console CheckOutcome :=
  Service.world.exec (check J v.config) (.time v.now :: v.fates) { card }

def afterVisit (J : JsonLibrary) (card : Card) (v : Visit) : Card := (v.trace J card).state.card

def afterVisits (J : JsonLibrary) (card : Card) (visits : List Visit) : Card := visits.foldl (afterVisit J) card

def Unanswered (J : JsonLibrary) (cached : Option CachedDocument) : Except HttpError Response → Prop
  | .error _ => True
  | .ok response => ¬(response.status = 304 ∧ cached.isSome = true) ∧
    ∃ stop, parseManifest J response.body = .error stop

def Visit.Fails (J : JsonLibrary) (v : Visit) (card : Card) : Prop :=
  (v.trace J card).outcome.isSome = true ∧
    ∃ answer ∈ (v.trace J card).state.answers.head?, Unanswered J (cacheOn J v.config card) answer

def ServiceOp.Writes (path : Bytes) : ServiceOp → Prop
  | .disk e => path ∈ e.paths ∨ path ++ ascii ".tmp" ∈ e.paths
  | _ => False

lemma writes_of_paths {path : Bytes} {e : FileOp} (hne : e.paths ≠ [])
    (h : ∀ p ∈ e.paths, p = path ∨ p = path ++ ascii ".tmp") : (ServiceOp.disk e).Writes path := by
  obtain ⟨p, hp⟩ := List.exists_mem_of_ne_nil _ hne
  rcases h p hp with rfl | rfl
  · exact .inl hp
  · exact .inr hp

lemma SdFileStore.writeAtomic_eq (path : Bytes) {data : Bytes} (h : data ≠ []) :
    SdFileStore.writeAtomic path data = Forwarder.writeFileAtomic path data := by
  cases data with
  | nil => exact absurd rfl h
  | cons b data => rfl

section Visits

variable {J : JsonLibrary} {config : SelfUpdateConfig} {α : Type}
  {A : Event ServiceOp ServiceOp.Reply ServiceFate → Prop} {Q : α → Console → Prop} {s : Console}

lemma wp_writeAtomic_ok {path data : Bytes} (hdata : data ≠ []) {k : Bool → ServiceProgram α}
    (hA : ∀ ev, A ev → ev.asked.Writes path → ev.fate.failing = false)
    (hk : ∀ c, c.lookup path = some data → Service.world.wp A (fun _ => True) (k true) Q { s with card := c }) :
    Service.world.wp A (fun _ => True) (Service.writeAtomic path data >>= k) Q s := by
  obtain ⟨c, hrun, _, hlook⟩ := Forwarder.run_writeFileAtomic s.card path data
  rw [← SdFileStore.writeAtomic_eq path hdata] at hrun
  refine (World.wp_bind _ _ _).mpr (Service.wp_onDisk (B := fun ev => ev.fate = .ok)
    (SdFileStore.asks_writeAtomic path data) ?_ (World.wp_of_run (fun _ h => h) hrun (hk c hlook)))
  intro e f r he hev
  have hok := hA _ hev (writes_of_paths he.1 he.2)
  cases f <;> first | rfl | cases hok

lemma wp_saveFailure {b : Beginning} {text : Bytes} {k : Unit → ServiceProgram α}
    (htext : serializeBackoff J (afterFailure b.backoff b.now config.backoff b.now.toUInt64) = some text)
    (hne : text ≠ []) (hA : ∀ ev, A ev → ev.asked.Writes config.backoffPath → ev.fate.failing = false)
    (hk : ∀ c, c.lookup config.backoffPath = some text →
      Service.world.wp A (fun _ => True) (k ()) Q { s with card := c }) :
    Service.world.wp A (fun _ => True) (saveFailure J config b >>= k) Q s := by
  rw [saveFailure, saveBackoff, Program.bind_assoc]
  refine Service.wp_makeDirectories trivial (fun _ => ?_)
  rw [htext]
  dsimp only
  rw [Program.bind_assoc]
  exact wp_writeAtomic_ok hne hA (fun c hc => hk c hc)

def Recorded (J : JsonLibrary) (config : SelfUpdateConfig) (b : Beginning) (text : Bytes) (t : Console) : Prop :=
  ∀ answer ∈ t.answers.head?, Unanswered J b.cached answer → t.card.lookup config.backoffPath = some text

section Recorded

variable {b : Beginning} {text : Bytes}
  (htext : serializeBackoff J (afterFailure b.backoff b.now config.backoff b.now.toUInt64) = some text)
  (hne : text ≠ []) (hA : ∀ ev, A ev → ev.asked.Writes config.backoffPath → ev.fate.failing = false)

include htext hne hA

lemma afterRefusal_records (usedMirror : Bool) (error : HttpError) :
    Service.world.wp A (fun _ => True) (afterRefusal J config b usedMirror error)
      (fun _ => Recorded J config b text) s := by
  unfold afterRefusal
  refine wp_saveFailure htext hne hA (fun c hc => ?_)
  split
  · exact wp_fromDocument trivial (fun _ _ _ _ _ => hc)
  · exact fun _ _ _ => hc

lemma afterResponse_records (usedMirror : Bool) {response : Response} (hhead : s.answers.head? = some (.ok response)) :
    Service.world.wp A (fun _ => True) (afterResponse J config b usedMirror response)
      (fun _ => Recorded J config b text) s := by
  unfold afterResponse
  refine wp_fromDocument trivial (fun out hout => ?_)
  split
  · refine wp_saveFailure htext hne hA (fun c hc => ?_)
    split
    · exact wp_fromDocument trivial (fun _ _ _ _ _ => hc)
    · exact fun _ _ _ => hc
  · next hreadable =>
    have hparse : ∀ stop, parseManifest J response.body ≠ .error stop := by
      intro stop hstop
      rw [Speaks, hstop] at hout
      exact hreadable hout
    refine wp_quiet (quiet_storeCache _ _) (fun _ t ht => wp_quiet (quiet_saveBackoff _) (fun _ t' ht' => ?_))
    intro answer hanswer hnone
    rw [ht', ht, hhead, Option.mem_some_iff] at hanswer
    subst hanswer
    obtain ⟨_, stop, hstop⟩ := hnone
    exact absurd hstop (hparse stop)

omit htext hne hA in
lemma afterNotModified_records (usedMirror : Bool) {pair : CachedDocument} {response : Response}
    (hcached : b.cached = some pair) (hstatus : response.status = 304)
    (hhead : s.answers.head? = some (.ok response)) :
    Service.world.wp A (fun _ => True) (afterNotModified J config b usedMirror pair)
      (fun _ => Recorded J config b text) s := by
  unfold afterNotModified
  refine wp_quiet (quiet_storeCache _ _) (fun _ t ht => wp_quiet (quiet_saveBackoff _) (fun _ t' ht' => ?_))
  refine wp_fromDocument trivial (fun _ _ answer hanswer hnone => ?_)
  rw [ht', ht, hhead, Option.mem_some_iff] at hanswer
  subst hanswer
  exact absurd ⟨hstatus, by rw [hcached]; rfl⟩ hnone.1

lemma proceed_records (hstart : s.answers = []) :
    Service.world.wp A (fun _ => True) (proceed J config b) (fun _ => Recorded J config b text) s := by
  have hnothing : Recorded J config b text s := by
    intro answer hanswer
    simp [hstart] at hanswer
  refine wp_proceed trivial (fun _ _ _ _ => hnothing) (fun _ _ => hnothing) ?_
  refine wp_askNetwork trivial (fun _ => trivial) (fun usedMirror error _ _ => ?_)
    (fun usedMirror _ _ pair _ hstatus hpair => ?_) (fun usedMirror _ _ _ => ?_)
  · exact afterRefusal_records htext hne hA usedMirror error
  · exact afterNotModified_records usedMirror hpair hstatus rfl
  · exact afterResponse_records htext hne hA usedMirror rfl

end Recorded

end Visits

lemma exec_nowUnix {α : Type} (k : Int64 → ServiceProgram α) (now : Int64) (fates : List ServiceFate) (s : Console) :
    Service.world.exec (Service.nowUnix >>= k) (.time now :: fates) s =
      { Service.world.exec (k now) fates s with
        log := ⟨.nowUnix, .time now, now⟩ :: (Service.world.exec (k now) fates s).log } := by
  have hstep : Service.world.step .nowUnix (.time now) s = (some now, s) := rfl
  have hexec := Service.world.exec_cons .nowUnix k (.time now) fates s
  rw [hstep] at hexec
  exact hexec

lemma Visit.trace_eq (J : JsonLibrary) (v : Visit) (card : Card) : v.trace J card =
    { Service.world.exec (resume J v.config v.now) v.fates { card } with
      log := ⟨.nowUnix, .time v.now, v.now⟩ ::
        (Service.world.exec (resume J v.config v.now) v.fates { card }).log } := by
  rw [Visit.trace, check_eq, exec_nowUnix]

lemma Visit.Fails.recorded {J : JsonLibrary} {v : Visit} {card : Card} {text : Bytes}
    (h : v.Fails J card)
    (htext : serializeBackoff J (afterFailure (backoffOn J v.config card) v.now v.config.backoff v.now.toUInt64) =
      some text) (hne : text ≠ [])
    (hwrites : ∀ ev ∈ (v.trace J card).log, ev.asked.Writes v.config.backoffPath → ev.fate.failing = false) :
    (afterVisit J card v).lookup v.config.backoffPath = some text := by
  obtain ⟨hsome, answer, hanswer, hnone⟩ := h
  rw [afterVisit]
  rw [v.trace_eq] at hsome hanswer hwrites ⊢
  dsimp only at hsome hanswer hwrites ⊢
  obtain ⟨out, hout⟩ := Option.isSome_iff_exists.mp hsome
  have hwp : Service.world.wp (· ∈ (Service.world.exec (resume J v.config v.now) v.fates { card }).log)
      (fun _ => True) (resume J v.config v.now) (fun _ => Recorded J v.config
        ⟨v.now, cacheOn J v.config card, backoffOn J v.config card⟩ text) { card } := by
    refine wp_loadCache trivial (wp_loadBackoff trivial (proceed_records htext hne ?_ rfl))
    exact fun ev hev => hwrites ev (List.mem_cons_of_mem _ hev)
  exact World.exec_post hout hwp answer hanswer hnone

lemma plan_waiting {config : SelfUpdateConfig} {b : Beginning}
    (h : 0 < secondsUntilNextAttempt b.backoff b.now config.backoff) :
    (b.plan config).plan = .serveCache ∨ (b.plan config).plan = .deferToCache ∨
      (b.plan config).plan = .deferNoCache := by
  unfold Beginning.plan planManifestFetch
  cases b.cached with
  | none => simp [h]
  | some pair =>
    simp only [Option.map_some, h, if_true]
    split <;> simp

section Waiting

variable {J : JsonLibrary} {config : SelfUpdateConfig} {now : Int64} {card : Card}
  {A : Event ServiceOp ServiceOp.Reply ServiceFate → Prop}

lemma asks_proceed_waiting {b : Beginning} (h : 0 < secondsUntilNextAttempt b.backoff b.now config.backoff) :
    (proceed J config b).Asks (· = .abort) := by
  have hserve : (b.plan config).plan = .serveCache ∨ (b.plan config).plan = .deferToCache →
      (serve J config b).Asks (· = .abort) := by
    intro hplan
    obtain ⟨pair, hpair⟩ := plan_cached hplan
    unfold serve fromDocument
    rw [hpair]
    dsimp only
    split
    · trivial
    · exact ⟨rfl, fun impossible => nomatch impossible⟩
    · trivial
  unfold proceed
  rcases plan_waiting h with hplan | hplan | hplan
  · rw [hplan]
    exact hserve (.inl hplan)
  · rw [hplan]
    exact hserve (.inr hplan)
  · rw [hplan]
    trivial

lemma resume_waiting (h : 0 < secondsUntilNextAttempt (backoffOn J config card) now config.backoff) :
    Service.world.wp A (fun t => t.card = card) (resume J config now) (fun _ t => t.card = card) { card } := by
  refine wp_loadCache rfl (wp_loadBackoff rfl ?_)
  refine World.wp_of_asks (asks_proceed_waiting h) rfl ?_
  rintro e f t rfl ht
  exact ht

lemma resume_asks_waiting (h : 0 < secondsUntilNextAttempt (backoffOn J config card) now config.backoff) :
    Service.world.asksIn A (fun e _ => e.isFetch = false) (resume J config now) { card } := by
  refine asksIn_resume (fun e he => ?_)
    ((asks_proceed_waiting (b := ⟨now, cacheOn J config card, backoffOn J config card⟩) h).mono ?_)
  · cases e <;> first | rfl | cases he
  · rintro e rfl
    rfl

lemma Visit.waits {v : Visit} (h : 0 < secondsUntilNextAttempt (backoffOn J v.config card) v.now v.config.backoff) :
    afterVisit J card v = card ∧ ∀ ev ∈ (v.trace J card).log, ev.asked.isFetch = false := by
  rw [afterVisit, v.trace_eq]
  dsimp only
  refine ⟨World.exec_invariant (I := fun t : Console => t.card = card) (resume_waiting h), fun ev hev => ?_⟩
  rcases List.mem_cons.mp hev with rfl | hev
  · rfl
  · obtain ⟨n, hn⟩ := List.mem_iff_getElem?.mp hev
    exact World.exec_asksIn (A := fun _ => True) (resume_asks_waiting h) (fun _ _ => trivial) hn

lemma backoffOn_nonneg : 0 ≤ (backoffOn J config card).consecutiveFailures := by
  unfold backoffOn
  cases hraw : (card.lookup config.backoffPath).filter (fun b => b.length ≤ kMaxSidecarBytes) with
  | none => exact Int32.le_refl 0
  | some raw =>
    rcases hparse : parseBackoff J raw with e | state
    · simp [hparse, Except.toOption]
    · simpa [hparse, Except.toOption] using parseBackoff_nonneg hparse

lemma backoffOn_eq {state : BackoffState} {text : Bytes} (hlook : card.lookup config.backoffPath = some text)
    (hlength : text.length ≤ 1024) (hparse : parseBackoff J text = .ok state) :
    backoffOn J config card = state := by
  have hread : (card.lookup config.backoffPath).filter (fun b => b.length ≤ kMaxSidecarBytes) = some text := by
    rw [hlook, Option.filter_some, if_pos (decide_eq_true (hlength.trans (by decide)))]
  simp [backoffOn, hread, hparse, Except.toOption]

lemma Visit.Fails.deadline (hJ : J.Concise) {v : Visit} (h : v.Fails J card) (hpolicy : v.config.backoff = {})
    (hnow : 0 ≤ v.now) (hsane : v.now < 0x4000000000000000)
    (hwrites : ∀ ev ∈ (v.trace J card).log, ev.asked.Writes v.config.backoffPath → ev.fate.failing = false) :
    v.now < (backoffOn J v.config (afterVisit J card v)).nextAttemptUnix ∧
      (backoffOn J v.config (afterVisit J card v)).nextAttemptUnix ≤ v.now + v.config.backoff.capSeconds := by
  obtain ⟨text, htext, hne, hlength⟩ := serializeBackoff_isSome hJ
    (afterFailure (backoffOn J v.config card) v.now v.config.backoff v.now.toUInt64)
  have hrecorded := h.recorded htext hne hwrites
  have hcount : 0 ≤ (afterFailure (backoffOn J v.config card) v.now v.config.backoff
      v.now.toUInt64).consecutiveFailures := by
    have hbefore := @backoffOn_nonneg J v.config card
    unfold afterFailure
    dsimp only
    split
    · grind
    · exact hbefore
  rw [backoffOn_eq hrecorded hlength (parseBackoff_serializeBackoff hcount htext), hpolicy]
  have hcap : ({} : BackoffPolicy).capSeconds = ({} : BackoffPolicy).cap := by decide
  rw [hcap]
  exact afterFailure_deadline (by decide) backoffOn_nonneg hnow hsane _

end Waiting

lemma backoffOn_congr {J : JsonLibrary} {config config' : SelfUpdateConfig} {card : Card}
    (h : config.cacheDir = config'.cacheDir) : backoffOn J config card = backoffOn J config' card := by
  rw [backoffOn, backoffOn, SelfUpdateConfig.backoffPath, SelfUpdateConfig.backoffPath, h]

lemma afterVisits_waiting {J : JsonLibrary} {config : SelfUpdateConfig} {card : Card} {visits : List Visit}
    (hdir : ∀ x ∈ visits, x.config.cacheDir = config.cacheDir) (hpolicy : ∀ x ∈ visits, x.config.backoff = {})
    (hwait : ∀ x ∈ visits, 0 < secondsUntilNextAttempt (backoffOn J config card) x.now {}) :
    afterVisits J card visits = card := by
  induction visits with
  | nil => rfl
  | cons x visits ih =>
    have hx : 0 < secondsUntilNextAttempt (backoffOn J x.config card) x.now x.config.backoff := by
      rw [backoffOn_congr (hdir x List.mem_cons_self), hpolicy x List.mem_cons_self]
      exact hwait x List.mem_cons_self
    rw [afterVisits, List.foldl_cons, (Visit.waits hx).1]
    exact ih (fun y hy => hdir y (List.mem_cons_of_mem _ hy)) (fun y hy => hpolicy y (List.mem_cons_of_mem _ hy))
      (fun y hy => hwait y (List.mem_cons_of_mem _ hy))

theorem failing_endpoint_is_left_alone (J : JsonLibrary) (hJ : J.Concise) (dir : Bytes) (card : Card)
    (before between after : List Visit) (v w : Visit)
    (hdir : ∀ x ∈ before ++ v :: between ++ w :: after, x.config.cacheDir = dir)
    (hpolicy : ∀ x ∈ before ++ v :: between ++ w :: after, x.config.backoff = {})
    (hclock : (before ++ v :: between ++ w :: after).Pairwise (fun x y => x.now ≤ y.now))
    (hrange : ∀ x ∈ before ++ v :: between ++ w :: after, 0 ≤ x.now ∧ x.now < 0x4000000000000000)
    (hwrites : ∀ ev ∈ (v.trace J (afterVisits J card before)).log,
      ev.asked.Writes v.config.backoffPath → ev.fate.failing = false)
    (hfails : v.Fails J (afterVisits J card before)) :
    ∃ deadline, (backoffOn J v.config (afterVisits J card (before ++ [v]))).nextAttemptUnix = deadline ∧
      v.now < deadline ∧ deadline ≤ v.now + v.config.backoff.capSeconds ∧
      (w.now < deadline → ∀ ev ∈ (w.trace J (afterVisits J card (before ++ v :: between))).log,
        ev.asked.isFetch = false) := by
  have hv : v ∈ before ++ v :: between ++ w :: after := by simp
  have hw : w ∈ before ++ v :: between ++ w :: after := by simp
  obtain ⟨hlow, hhigh⟩ := hfails.deadline hJ (hpolicy v hv) (hrange v hv).1 (hrange v hv).2 hwrites
  have hthen : afterVisits J card (before ++ [v]) = afterVisit J (afterVisits J card before) v := by
    simp [afterVisits]
  have hlast : afterVisits J card (before ++ v :: between) =
      afterVisits J (afterVisit J (afterVisits J card before) v) between := by
    simp [afterVisits]
  rw [hthen, hlast]
  generalize afterVisit J (afterVisits J card before) v = card₁ at *
  refine ⟨_, rfl, hlow, hhigh, fun hbefore => ?_⟩
  -- every visit from `v` to `w` falls between the failure and the deadline
  obtain ⟨hfirst, _, hcross⟩ := List.pairwise_append.mp hclock
  have hlater : ∀ x ∈ between ++ [w], v.now ≤ x.now ∧ x.now ≤ w.now := by
    intro x hx
    rcases List.mem_append.mp hx with hx | hx
    · exact ⟨List.rel_of_pairwise_cons (List.pairwise_append.mp hfirst).2.1 hx,
        hcross x (by simp [hx]) w List.mem_cons_self⟩
    · obtain rfl := List.mem_singleton.mp hx
      exact ⟨hcross v (by simp) x List.mem_cons_self, Int64.le_refl _⟩
  have hwait : ∀ x ∈ between ++ [w], 0 < secondsUntilNextAttempt (backoffOn J v.config card₁) x.now {} := by
    intro x hx
    obtain ⟨hfrom, hto⟩ := hlater x hx
    have hnow := (hrange v hv).1
    rw [hpolicy v hv] at hhigh
    have hcap : ({} : BackoffPolicy).capSeconds = 21600 := by decide
    generalize (backoffOn J v.config card₁) = state at *
    refine secondsUntilNextAttempt_pos (Int64.le_trans hnow hfrom) (Int64.lt_of_le_of_lt hto hbefore) ?_
    rw [hcap] at hhigh ⊢
    have hsane := (hrange v hv).2
    generalize state.nextAttemptUnix = next at *
    grind
  have hkept : afterVisits J card₁ between = card₁ :=
    @afterVisits_waiting J v.config card₁ between (fun x hx => by rw [hdir x (by simp [hx]), hdir v hv])
      (fun x hx => hpolicy x (by simp [hx])) (fun x hx => hwait x (List.mem_append_left _ hx))
  rw [hkept]
  refine (Visit.waits ?_).2
  rw [backoffOn_congr ((hdir w hw).trans (hdir v hv).symm), hpolicy w hw]
  exact hwait w (by simp)

namespace Sample

def offline : Visit := ⟨service, 100, [.ok, .ok, .refused .noNetwork, .ok, .ok, .ok, .ok, .ok, .ok]⟩

def soonAfter : Visit := ⟨service, 120, [.ok, .ok]⟩

end Sample

theorem offline_check_is_not_repeated_at_once :
    (∃ out, (Sample.soonAfter.trace JsonCodec.library
      (afterVisits JsonCodec.library ∅ [Sample.offline])).outcome = some out) ∧
    ∀ ev ∈ (Sample.soonAfter.trace JsonCodec.library (afterVisits JsonCodec.library ∅ [Sample.offline])).log,
      ev.asked.isFetch = false := by
  have hfails : (Sample.offline.trace JsonCodec.library ∅).outcome.isSome = true ∧
      (Sample.offline.trace JsonCodec.library ∅).state.answers = [.error .noNetwork] := by
    decide +kernel
  have hsoon : Sample.soonAfter.now <
      (backoffOn JsonCodec.library Sample.service (afterVisits JsonCodec.library ∅ [Sample.offline])).nextAttemptUnix := by
    decide +kernel
  have hends : (Sample.soonAfter.trace JsonCodec.library
      (afterVisits JsonCodec.library ∅ [Sample.offline])).outcome.isSome = true := by
    decide +kernel
  refine ⟨Option.isSome_iff_exists.mp hends, ?_⟩
  obtain ⟨deadline, hdeadline, _, _, hquiet⟩ := failing_endpoint_is_left_alone JsonCodec.library
    JsonCodec.concise_library Sample.service.cacheDir ∅ [] [] [] Sample.offline Sample.soonAfter
    (by simp [Sample.offline, Sample.soonAfter]) (by simp [Sample.offline, Sample.soonAfter, Sample.service])
    (by decide) (by decide)
    (fun ev hev _ => (by decide : ∀ f ∈ .time Sample.offline.now :: Sample.offline.fates, f.failing = false) ev.fate
      (World.fate_mem_of_mem_log _ hev))
    ⟨hfails.1, .error .noNetwork, by rw [afterVisits, List.foldl_nil, hfails.2]; rfl, trivial⟩
  exact hquiet (hdeadline ▸ hsoon)

end NsxManager.SelfUpdate
