import NsxManager.Platform.Processed

/-! What a refusal of the callback stops. -/

namespace NsxManager.Platform

open NsxManager.Core Lib Maintenance

def Stops (history : List Happening) : Prop :=
  ∀ before dir after, history = before ++ .asked dir false :: after → ∀ h ∈ after, h.ofFile = true

def Happening.isRefusal : Happening → Bool
  | .asked _ goOn => !goOn
  | _ => false

section Histories

variable {a b l : List Happening} {h : Happening}

lemma stops_nil : Stops [] := fun _ _ _ h => absurd h (by simp)

lemma stops_cons : Stops (h :: l) ↔ (h.isRefusal = true → ∀ x ∈ l, x.ofFile = true) ∧ Stops l := by
  constructor
  · refine fun hstops => ⟨fun hrefusal => ?_, fun before dir after heq => ?_⟩
    · cases h with
      | asked dir goOn =>
        obtain rfl : goOn = false := by simpa [Happening.isRefusal] using hrefusal
        exact hstops [] dir l rfl
      | renamed directory source destination => cases hrefusal
      | created p => cases hrefusal
    · exact hstops (h :: before) dir after (by rw [heq, List.cons_append])
  · rintro ⟨hhead, htail⟩ before dir after heq
    cases before with
    | nil =>
      obtain ⟨rfl, rfl⟩ := List.cons.inj heq
      exact hhead rfl
    | cons x before => exact htail before dir after (List.cons.inj heq).2

lemma stops_append_of_none (ha : ∀ x ∈ a, x.isRefusal = false) : Stops (a ++ b) ↔ Stops b := by
  induction a with
  | nil => rfl
  | cons h a ih =>
    rw [List.cons_append, stops_cons, ih (fun x hx => ha x (List.mem_cons_of_mem _ hx)), ha h List.mem_cons_self]
    simp

lemma stops_of_none (ha : ∀ x ∈ a, x.isRefusal = false) : Stops a := by
  rw [← List.append_nil a, stops_append_of_none ha]
  exact stops_nil

lemma not_isRefusal_of_ofFile (h : ∀ x ∈ l, x.ofFile = true) : ∀ x ∈ l, x.isRefusal = false := by
  intro x hx
  cases x with
  | asked dir goOn => exact absurd (h _ hx) Bool.false_ne_true
  | renamed directory source destination => rfl
  | created p => rfl

lemma not_isRefusal_of_quiet (h : ∀ x ∈ l, x.isAsked = false) : ∀ x ∈ l, x.isRefusal = false := by
  intro x hx
  cases x with
  | asked dir goOn => exact absurd (h _ hx).symm Bool.false_ne_true
  | renamed directory source destination => rfl
  | created p => rfl

lemma stops_append_of_refusal (ha : ∃ x ∈ a, x.isRefusal = true) :
    Stops (a ++ b) ↔ Stops a ∧ ∀ x ∈ b, x.ofFile = true := by
  induction a with
  | nil => simp at ha
  | cons h a ih =>
    rw [List.cons_append, stops_cons, stops_cons, List.forall_mem_append]
    by_cases hlater : ∃ x ∈ a, x.isRefusal = true
    · rw [ih hlater]
      tauto
    · have hnone : ∀ x ∈ a, x.isRefusal = false := by
        simpa using hlater
      have hhead : h.isRefusal = true := by
        obtain ⟨x, hx, hrefusal⟩ := ha
        rcases List.mem_cons.mp hx with rfl | hx
        · exact hrefusal
        · exact absurd ⟨x, hx, hrefusal⟩ hlater
      have hstops : (∀ x ∈ b, x.ofFile = true) → Stops b := fun hb => stops_of_none (not_isRefusal_of_ofFile hb)
      rw [stops_append_of_none hnone]
      have := stops_of_none hnone
      tauto

end Histories

structure Entered where
  path : Path
  aside : Bool
  deriving DecidableEq

def visits (env : Surroundings) (d : Disk) : ℕ → Path → Path → List Entered
  | 0, _, _ => []
  | fuel + 1, p, t =>
    if d.isDirectory p then
      ⟨p, !env.fails (.rename p t) && d.movable p t⟩ :: (env.listing.names d p).flatMap
        (fun n => visits env d fuel (p ++ [n]) (p ++ [n ++ kTempSuffix]))
    else []

def visitsFrom (env : Surroundings) (d : Disk) (fuel : ℕ) (rootPath : Bytes) : List Entered :=
  if rootPath.isEmpty then [] else visits env d fuel (places rootPath) (places (rootPath ++ kTempSuffix))

def CutsOff (before : List Entered) (v : Entered) (after : List Entered) : Prop :=
  (∀ w ∈ after, v.path <+: w.path) ∧ ∀ w ∈ before, w.path <+: v.path → w.aside = false

def RefusedInTime (answers : ℕ → Bool) (V : List Entered) : Prop :=
  ∀ before v after, V = before ++ v :: after → (∀ i < before.length, answers i = true) →
    answers before.length = false → CutsOff before v after

structure Answered (answers : ℕ → Bool) (V : List Entered) (more : List Happening) : Prop where
  quiet : V = [] ↔ ∀ h ∈ more, h.ofFile = true
  through : (∀ i < V.length, answers i = true) →
    more.countP Happening.isAsked = V.length ∧ ∀ h ∈ more, h.isRefusal = false
  cut : ∀ before v after, V = before ++ v :: after → (∀ i < before.length, answers i = true) →
    answers before.length = false → (∃ h ∈ more, h.isRefusal = true) ∧ (Stops more ↔ CutsOff before v after)

namespace Answered

variable {answers : ℕ → Bool} {V V' : List Entered} {more more' : List Happening} {p : Path} {aside : Bool}

lemma nil (answers : ℕ → Bool) : Answered answers [] [] :=
  ⟨by simp, by simp, fun _ _ _ h => absurd h (by simp)⟩

lemma stops_iff (h : Answered answers V more) : Stops more ↔ RefusedInTime answers V := by
  by_cases hall : ∀ i < V.length, answers i = true
  · refine iff_of_true (stops_of_none (h.through hall).2) (fun before v after heq _ hno => ?_)
    rw [hall before.length (by simp [heq])] at hno
    cases hno
  · -- the split at the first refusal is the only one the condition speaks of
    have hexists : ∃ i, i < V.length ∧ answers i = false := by simpa using hall
    obtain ⟨hlt, hno⟩ := Nat.find_spec hexists
    have hyes : ∀ i < Nat.find hexists, answers i = true := by
      intro i hi
      by_contra hfalse
      exact Nat.find_min hexists hi ⟨hi.trans hlt, by simpa using hfalse⟩
    obtain ⟨first, v, rest, rfl, hlength⟩ : ∃ first v rest, V = first ++ v :: rest ∧ first.length = Nat.find hexists :=
      ⟨_, _, _, (List.take_append_drop _ V).symm.trans (by rw [List.drop_eq_getElem_cons hlt]),
        List.length_take_of_le hlt.le⟩
    rw [← hlength] at hyes hno
    rw [(h.cut first v rest rfl hyes hno).2]
    refine ⟨fun hcuts before w after heq hbefore hrefused => ?_, fun hall => hall first v rest rfl hyes hno⟩
    have hsame : first.length = before.length := by
      refine le_antisymm (not_lt.mp fun hlt => ?_) (not_lt.mp fun hlt => ?_)
      · rw [hyes _ hlt] at hrefused
        cases hrefused
      · rw [hbefore _ hlt] at hno
        cases hno
    obtain ⟨rfl, hrest⟩ := List.append_inj heq hsame
    obtain ⟨rfl, rfl⟩ := List.cons.inj hrest
    exact hcuts

lemma append (h : Answered answers V more) (hquiet : V' = [] ↔ ∀ h ∈ more', h.ofFile = true)
    (h' : (∀ i < V.length, answers i = true) → Answered (fun i => answers (V.length + i)) V' more')
    (hapart : ∀ v ∈ V, ∀ w ∈ V', ¬v.path <+: w.path) : Answered answers (V ++ V') (more ++ more') := by
  refine ⟨?_, fun hall => ?_, fun before v after heq hyes hno => ?_⟩
  · rw [List.append_eq_nil_iff, List.forall_mem_append, h.quiet, hquiet]
  · have hfirst : ∀ i < V.length, answers i = true := fun i hi => hall i (by rw [List.length_append]; omega)
    obtain ⟨hcount, hnone⟩ := h.through hfirst
    obtain ⟨hcount', hnone'⟩ := (h' hfirst).through (fun i hi => hall _ (by rw [List.length_append]; omega))
    rw [List.countP_append, List.length_append, hcount, hcount', List.forall_mem_append]
    exact ⟨rfl, hnone, hnone'⟩
  · rcases List.append_eq_append_iff.mp heq with ⟨before', rfl, hV'⟩ | ⟨rest, hV, hrest⟩
    · have hfirst : ∀ i < V.length, answers i = true := fun i hi => hyes i (by rw [List.length_append]; omega)
      rw [List.length_append] at hyes hno
      obtain ⟨⟨x, hx, hrefusal⟩, hiff⟩ := (h' hfirst).cut before' v after hV' (fun i hi => hyes _ (by omega)) hno
      refine ⟨⟨x, List.mem_append_right _ hx, hrefusal⟩, ?_⟩
      rw [stops_append_of_none (h.through hfirst).2, hiff, CutsOff, CutsOff, List.forall_mem_append]
      have hnot : ∀ w ∈ V, w.path <+: v.path → w.aside = false :=
        fun w hw hbegins => absurd hbegins (hapart w hw v (by simp [hV']))
      tauto
    · cases rest with
      | nil =>
        rw [List.append_nil] at hV
        rw [List.nil_append] at hrest
        subst hV
        obtain ⟨⟨x, hx, hrefusal⟩, hiff⟩ := (h' hyes).cut [] v after hrest.symm (by simp) hno
        refine ⟨⟨x, List.mem_append_right _ hx, hrefusal⟩, ?_⟩
        rw [stops_append_of_none (h.through hyes).2, hiff, CutsOff, CutsOff]
        have hnot : ∀ w ∈ V, w.path <+: v.path → w.aside = false :=
          fun w hw hbegins => absurd hbegins (hapart w hw v (by simp [← hrest]))
        exact and_congr_right (fun _ => iff_of_true (by simp) hnot)
      | cons v' rest =>
        rw [List.cons_append] at hrest
        obtain ⟨rfl, rfl⟩ := List.cons.inj hrest
        obtain ⟨⟨x, hx, hrefusal⟩, hiff⟩ := h.cut before v rest hV hyes hno
        refine ⟨⟨x, List.mem_append_left _ hx, hrefusal⟩, ?_⟩
        rw [stops_append_of_refusal ⟨x, hx, hrefusal⟩, hiff, ← hquiet, CutsOff, CutsOff, List.forall_mem_append]
        have hempty : V' = [] ↔ ∀ w ∈ V', v.path <+: w.path := by
          refine ⟨fun h => by simp [h], fun h => List.eq_nil_iff_forall_not_mem.mpr (fun w hw => ?_)⟩
          exact hapart v (by simp [hV]) w hw (h w hw)
        rw [hempty]
        tauto

lemma refused (hno : answers 0 = false) (hbelow : ∀ w ∈ V, p <+: w.path) :
    Answered answers (⟨p, aside⟩ :: V) [.asked p false] := by
  refine ⟨by simp [Happening.ofFile], fun hall => ?_, fun before v after heq hyes _ => ?_⟩
  · rw [hall 0 (by simp)] at hno
    cases hno
  · cases before with
    | nil =>
      obtain ⟨rfl, rfl⟩ := List.cons.inj heq
      exact ⟨⟨_, List.mem_singleton_self _, rfl⟩, iff_of_true (by simp [stops_cons, stops_nil]) ⟨hbelow, by simp⟩⟩
    | cons w before =>
      rw [hyes 0 (by simp)] at hno
      cases hno

lemma around (hyes : answers 0 = true) (h : Answered (fun i => answers (1 + i)) V more)
    (hbelow : ∀ w ∈ V, p <+: w.path) (hquiet : ∀ h ∈ more', h.isAsked = false)
    (haside : (∀ h ∈ more', h.ofFile = true) ↔ aside = false) :
    Answered answers (⟨p, aside⟩ :: V) (.asked p true :: more ++ more') := by
  have hnone := not_isRefusal_of_quiet hquiet
  refine ⟨by simp [Happening.ofFile], fun hall => ?_, fun before v after heq hbefore hno => ?_⟩
  · obtain ⟨hcount, hthrough⟩ := h.through (fun i hi => hall _ (by rw [List.length_cons]; omega))
    have hzero : more'.countP Happening.isAsked = 0 := List.countP_eq_zero.mpr (fun h hh => by simp [hquiet h hh])
    refine ⟨?_, ?_⟩
    · rw [List.countP_append, List.countP_cons, hcount, hzero]
      simp [Happening.isAsked]
    · simp only [List.cons_append, List.forall_mem_cons, List.forall_mem_append]
      exact ⟨rfl, hthrough, hnone⟩
  · cases before with
    | nil =>
      rw [List.length_nil, hyes] at hno
      cases hno
    | cons w before =>
      obtain ⟨rfl, rfl⟩ := List.cons.inj heq
      rw [List.length_cons, Nat.add_comm] at hno
      obtain ⟨⟨x, hx, hrefusal⟩, hiff⟩ :=
        h.cut before v after rfl (fun i hi => hbefore _ (by rw [List.length_cons]; omega)) hno
      refine ⟨⟨x, by simp [hx], hrefusal⟩, ?_⟩
      rw [List.cons_append, stops_cons, stops_append_of_refusal ⟨x, hx, hrefusal⟩, hiff, haside, CutsOff, CutsOff,
        List.forall_mem_cons]
      have hv := hbelow v (by simp)
      simp only [Happening.isRefusal, Bool.not_true, Bool.false_eq_true, false_implies, true_and, hv, true_implies]
      tauto

end Answered

section Visits

variable {env : Surroundings} {d e : Disk} {p t : Path} {done : List Bytes} {n : Bytes} {fuel : ℕ}

def below (env : Surroundings) (d : Disk) (fuel : ℕ) (p : Path) (names : List Bytes) : List Entered :=
  names.flatMap (fun n => visits env d fuel (p ++ [n]) (p ++ [n ++ kTempSuffix]))

lemma visits_of_directory (h : d.node p = some .directory) : visits env d (fuel + 1) p t =
    ⟨p, !env.fails (.rename p t) && d.movable p t⟩ :: below env d fuel p (env.listing.names d p) := by
  rw [visits, if_pos (Disk.isDirectory_iff.mpr h), below]

lemma visits_of_other (h : d.node p ≠ some .directory) : visits env d fuel p t = [] := by
  cases fuel with
  | zero => rfl
  | succ fuel => rw [visits, if_neg (fun hdir => h (Disk.isDirectory_iff.mp hdir))]

lemma below_concat : below env d fuel p (done ++ [n]) =
    below env d fuel p done ++ visits env d fuel (p ++ [n]) (p ++ [n ++ kTempSuffix]) := by
  simp [below]

lemma prefix_of_visits {v : Entered} (h : v ∈ visits env d fuel p t) : p <+: v.path := by
  induction fuel generalizing p t with
  | zero => exact absurd h List.not_mem_nil
  | succ fuel ih =>
    rw [visits] at h
    split at h
    · rcases List.mem_cons.mp h with rfl | h
      · exact List.prefix_rfl
      · obtain ⟨n, -, hv⟩ := List.mem_flatMap.mp h
        exact (List.prefix_append _ _).trans (ih hv)
    · exact absurd h List.not_mem_nil

lemma prefix_of_below {names : List Bytes} {v : Entered} (h : v ∈ below env d fuel p names) :
    ∃ n ∈ names, p ++ [n] <+: v.path := by
  obtain ⟨n, hn, hv⟩ := List.mem_flatMap.mp h
  exact ⟨n, hn, prefix_of_visits hv⟩

lemma visits_congr (hsame : ∀ r, e.node (p ++ r) = d.node (p ++ r)) (hmovable : e.movable p t = d.movable p t) :
    visits env e fuel p t = visits env d fuel p t := by
  induction fuel generalizing p t with
  | zero => rfl
  | succ fuel ih =>
    have hself : e.node p = d.node p := by simpa using hsame []
    have hlist : env.listing.names e p = env.listing.names d p := env.listing.own _ _ _ (fun n => by rw [hsame])
    rw [visits, visits, Disk.isDirectory, hself, ← Disk.isDirectory, hlist, hmovable]
    congr 2
    refine List.flatMap_congr (fun n _ => ih (fun r => ?_) (movable_of_same hsame n))
    rw [List.append_assoc, hsame]

lemma Visited.visits_child (h : Visited d p done e) (hn : n ∉ done) (hpresent : (d.node (p ++ [n])).isSome = true) :
    visits env e fuel (p ++ [n]) (p ++ [n ++ kTempSuffix]) =
      visits env d fuel (p ++ [n]) (p ++ [n ++ kTempSuffix]) := by
  refine visits_congr (fun r => ?_) (h.movable_child hn hpresent)
  rw [List.append_assoc, List.singleton_append]
  exact h.pending n hpresent hn r

end Visits

section Runs

variable {env : Surroundings}

def Asked (env : Surroundings) (s : Scene) (p t : Path) (s' : Scene) : Prop :=
  ∃ more, s'.history = s.history ++ more ∧ ∀ fuel, Deep s.disk p fuel →
    Answered (fun i => env.answers (s.calls + i)) (visits env s.disk fuel p t) more

def Asking (env : Surroundings) (s : Scene) (p _ : Path) (done : List Bytes) (e : Scene) : Prop :=
  env.answers s.calls = true ∧ ∃ more, e.history = s.history ++ .asked p true :: more ∧
    ∀ fuel, Deep s.disk p (fuel + 1) →
      Answered (fun i => env.answers (s.calls + 1 + i)) (below env s.disk fuel p done) more

lemma asking_child {s e e' : Scene} {p t : Path} {done : List Bytes} {n : Bytes} (h : Asking env s p t done e)
    (hvisited : Visited s.disk p done e.disk) (hn : n ∉ done) (hdir : s.disk.node (p ++ [n]) = some .directory)
    (hchild : Asked env e (p ++ [n]) (p ++ [n ++ kTempSuffix]) e') : Asking env s p t (done ++ [n]) e' := by
  have hpresent : (s.disk.node (p ++ [n])).isSome = true := by rw [hdir]; rfl
  obtain ⟨hyes, more, hhistory, h⟩ := h
  obtain ⟨more', hhistory', hchild⟩ := hchild
  refine ⟨hyes, more ++ more', by rw [hhistory', hhistory]; simp, fun fuel hdeep => ?_⟩
  have hanswered := hchild fuel (hdeep.child hpresent (hvisited.pending n hpresent hn))
  rw [hvisited.visits_child hn hpresent] at hanswered
  rw [below_concat]
  refine (h fuel hdeep).append hanswered.quiet (fun hall => ?_) (fun v hv w hw hbegins => ?_)
  · -- every earlier directory has been asked about, so the calls have been counted
    have hcalls : e.calls = s.calls + 1 + (below env s.disk fuel p done).length := by
      rw [Scene.calls, hhistory, List.countP_append, List.countP_cons, ((h fuel hdeep).through hall).1, Scene.calls]
      simp [Happening.isAsked]
      omega
    rw [hcalls] at hanswered
    simpa only [Nat.add_assoc] using hanswered
  · obtain ⟨m, hm, hmv⟩ := prefix_of_below hv
    have hboth := List.prefix_of_prefix_length_le (hmv.trans hbegins) (prefix_of_visits hw) (by simp)
    rw [List.prefix_append_right_inj, List.cons_prefix_cons] at hboth
    exact hn (hboth.1 ▸ hm)

lemma rule_asked : Rule env true (Asking env) (Asked env) where
  other s p t _ hdir := ⟨[], by simp, fun fuel _ => by rw [visits_of_other hdir]; exact .nil _⟩
  refused s p t hdir _ hno := by
    refine ⟨[.asked p false], rfl, fun fuel hdeep => ?_⟩
    obtain ⟨fuel, rfl⟩ := Nat.exists_eq_succ_of_ne_zero hdeep.1.ne'
    rw [visits_of_directory hdir]
    refine .refused hno (fun w hw => ?_)
    obtain ⟨n, -, hn⟩ := prefix_of_below hw
    exact (List.prefix_append _ _).trans hn
  start s p t _ hyes := ⟨hyes rfl, [], rfl, fun _ _ => .nil _⟩
  skip s p t done n e _ hinv _ _ _ hother := by
    obtain ⟨hyes, more, hhistory, h⟩ := hinv
    refine ⟨hyes, more, hhistory, fun fuel hdeep => ?_⟩
    rw [below_concat, visits_of_other hother, List.append_nil]
    exact h fuel hdeep
  child s p t done n e e' _ hinv hvisited hn hdir hpost _ := asking_child hinv hvisited hn hdir hpost
  finish s p t names e s' more' _ hdir hinv hvisited hnames _ hquiet hseen := by
    obtain ⟨hyes, more, hhistory, h⟩ := hinv
    refine ⟨.asked p true :: more ++ more', by rw [hquiet.1, hhistory]; simp, fun fuel hdeep => ?_⟩
    obtain ⟨fuel, rfl⟩ := Nat.exists_eq_succ_of_ne_zero hdeep.1.ne'
    rw [visits_of_directory hdir, ← hnames]
    refine .around hyes (by simpa only [Nat.add_assoc] using h fuel hdeep) (fun w hw => ?_) hquiet.2 ?_
    · obtain ⟨n, -, hn⟩ := prefix_of_below hw
      exact (List.prefix_append _ _).trans hn
    · rw [hseen, Renames, hvisited.movable, ← Bool.not_eq_true', ← Bool.and_eq_true, Bool.not_eq_true]

lemma rule_unwatched : Rule env false (fun s _ _ _ e => ∃ more, Quietly s e more)
    (fun s _ _ s' => ∃ more, Quietly s s' more) where
  other s _ _ _ _ := ⟨[], .refl s⟩
  refused _ _ _ _ hwatched _ := absurd hwatched Bool.false_ne_true
  start s _ _ _ _ := ⟨[], .refl s⟩
  skip _ _ _ _ _ _ _ hinv _ _ _ _ := hinv
  child _ _ _ _ _ _ _ _ hinv _ _ _ hpost _ := by
    obtain ⟨more, hmore⟩ := hinv
    obtain ⟨more', hmore'⟩ := hpost
    exact ⟨_, hmore.trans hmore'⟩
  finish _ _ _ _ _ _ more' _ _ hinv _ _ _ hquiet _ := by
    obtain ⟨more, hmore⟩ := hinv
    exact ⟨_, hmore.trans hquiet⟩

lemma ends_fixArchiveBit_asked {s : Scene} {fuel : ℕ} {rootPath : Bytes} (hd : s.disk.Rooted)
    (hdeep : Deep s.disk (places rootPath) fuel) :
    world.ends env (fixArchiveBit true fuel rootPath) (fun _ s' => (∃ more, s'.history = s.history ++ more ∧
      Answered (fun i => env.answers (s.calls + i)) (visitsFrom env s.disk fuel rootPath) more) ∧
      Contained s.disk (places rootPath) (places (rootPath ++ kTempSuffix)) s'.disk) s := by
  refine World.ends_mono (ends_fixArchiveBit rule_asked hd hdeep) (fun _ s' h => ⟨?_, h.2⟩)
  rw [visitsFrom]
  rcases h.1 with ⟨hempty, rfl⟩ | ⟨hempty, more, hhistory, hanswered⟩
  · rw [if_pos hempty]
    exact ⟨[], by simp, .nil _⟩
  · rw [if_neg (by rw [hempty]; decide)]
    exact ⟨more, hhistory, hanswered fuel hdeep⟩

lemma ends_fixArchiveBit_unwatched {s : Scene} {fuel : ℕ} {rootPath : Bytes} (hd : s.disk.Rooted)
    (hdeep : Deep s.disk (places rootPath) fuel) :
    world.ends env (fixArchiveBit false fuel rootPath) (fun _ s' => (∃ more, Quietly s s' more) ∧
      Contained s.disk (places rootPath) (places (rootPath ++ kTempSuffix)) s'.disk) s := by
  refine World.ends_mono (ends_fixArchiveBit rule_unwatched hd hdeep) (fun _ s' h => ⟨?_, h.2⟩)
  rcases h.1 with ⟨-, rfl⟩ | ⟨-, hquiet⟩
  · exact ⟨[], .refl s'⟩
  · exact hquiet

lemma places_common : places (ascii "/atmosphere") = [ascii "atmosphere"] ∧
    places (ascii "/atmosphere" ++ kTempSuffix) = [ascii "atmosphere.nsx_tmp"] ∧
    places (ascii "/switch") = [ascii "switch"] ∧
    places (ascii "/switch" ++ kTempSuffix) = [ascii "switch.nsx_tmp"] ∧
    (ascii "/atmosphere").isEmpty = false ∧ (ascii "/switch").isEmpty = false ∧
    ascii "atmosphere" ≠ ascii "switch" ∧ ascii "atmosphere.nsx_tmp" ≠ ascii "switch" ∧
    ascii "atmosphere" ≠ ascii "switch.nsx_tmp" ∧ ascii "atmosphere.nsx_tmp" ≠ ascii "switch.nsx_tmp" := by
  decide +kernel

lemma Contained.switch (env : Surroundings) {d e : Disk} (h : Contained d (places (ascii "/atmosphere"))
    (places (ascii "/atmosphere" ++ kTempSuffix)) e) (fuel : ℕ) :
    (Deep d (places (ascii "/switch")) fuel → Deep e (places (ascii "/switch")) fuel) ∧
      visitsFrom env e fuel (ascii "/switch") = visitsFrom env d fuel (ascii "/switch") := by
  obtain ⟨hatm, htmp, hsw, hswtmp, -, -, h₁, h₂, h₃, h₄⟩ := places_common
  rw [hatm, htmp] at h
  rw [visitsFrom, visitsFrom, hsw, hswtmp]
  have hother : ∀ n : Bytes, ascii "atmosphere" ≠ n → ascii "atmosphere.nsx_tmp" ≠ n →
      ∀ r, e.node (n :: r) = d.node (n :: r) := by
    intro n hn hn' r
    refine h.outside _ (fun hbegins => hn ?_) (fun hbegins => hn' ?_)
    · exact (List.cons_prefix_cons.mp hbegins).1
    · exact (List.cons_prefix_cons.mp hbegins).1
  have hsame : ∀ r, e.node ([ascii "switch"] ++ r) = d.node ([ascii "switch"] ++ r) := hother _ h₁ h₂
  refine ⟨fun hdeep => ⟨hdeep.1, fun r hr => hdeep.2 r (hsame r ▸ hr)⟩, ?_⟩
  rw [visits_congr hsame (movable_congr ?_ ?_ (fun _ => ?_))]
  · rw [hother _ h₁ h₂]
  · rw [hother _ h₃ h₄]
  · exact h.outside [] (by simp) (by simp)

lemma ends_fixAll_asked {d : Disk} {fuel : ℕ} (hd : d.Rooted) (hfuel : d.height < fuel) :
    world.ends env (fixAllCommonDirectories true fuel) (fun _ s' => Answered env.answers
      (visitsFrom env d fuel (ascii "/atmosphere") ++ visitsFrom env d fuel (ascii "/switch")) s'.history) ⟨d, []⟩ := by
  refine World.ends_bind (World.ends_mono (ends_fixArchiveBit_asked hd (deep_of_height hfuel _)) ?_)
  rintro _ s ⟨⟨more, hhistory, hanswered⟩, hcontained⟩
  obtain ⟨hdeep, hvisits⟩ := hcontained.switch env fuel
  refine World.ends_bind (World.ends_mono
    (ends_fixArchiveBit_asked hcontained.rooted (hdeep (deep_of_height hfuel _))) ?_)
  rintro _ s' ⟨⟨more', hhistory', hanswered'⟩, -⟩
  rw [hvisits] at hanswered'
  refine World.ends_done ?_
  rw [hhistory', hhistory, List.nil_append]
  have hfirst : Answered env.answers (visitsFrom env d fuel (ascii "/atmosphere")) more := by
    simpa [Scene.calls] using hanswered
  refine hfirst.append hanswered'.quiet (fun hall => ?_) (fun v hv w hw hbegins => ?_)
  · have hcalls : s.calls = (visitsFrom env d fuel (ascii "/atmosphere")).length := by
      rw [Scene.calls, hhistory, List.nil_append, (hfirst.through hall).1]
    rwa [hcalls] at hanswered'
  · obtain ⟨hatm, -, hsw, -, hne, hne', hdiffer, -⟩ := places_common
    rw [visitsFrom, hne, if_neg (by decide), hatm] at hv
    rw [visitsFrom, hne', if_neg (by decide), hsw] at hw
    have hboth := List.prefix_of_prefix_length_le ((prefix_of_visits hv).trans hbegins) (prefix_of_visits hw) le_rfl
    exact hdiffer (List.cons_prefix_cons.mp hboth).1

lemma ends_fixAll_unwatched {d : Disk} {fuel : ℕ} (hd : d.Rooted) (hfuel : d.height < fuel) :
    world.ends env (fixAllCommonDirectories false fuel) (fun _ s' => ∃ more, Quietly ⟨d, []⟩ s' more) ⟨d, []⟩ := by
  refine World.ends_bind (World.ends_mono (ends_fixArchiveBit_unwatched hd (deep_of_height hfuel _)) ?_)
  rintro _ s ⟨⟨more, hquiet⟩, hcontained⟩
  obtain ⟨hdeep, -⟩ := hcontained.switch env fuel
  refine World.ends_bind (World.ends_mono
    (ends_fixArchiveBit_unwatched hcontained.rooted (hdeep (deep_of_height hfuel _))) ?_)
  rintro _ s' ⟨⟨more', hquiet'⟩, -⟩
  exact World.ends_done ⟨_, hquiet.trans hquiet'⟩

lemma Quietly.stops {d : Disk} {s : Scene} (h : ∃ more, Quietly ⟨d, []⟩ s more) : Stops s.history := by
  obtain ⟨more, hhistory, hquiet⟩ := h
  rw [hhistory, List.nil_append]
  exact stops_of_none (not_isRefusal_of_quiet hquiet)

end Runs

theorem refusal_ends_the_repair_iff (tree : Tree) (env : Surroundings) (watched : Bool) (room : ℕ) :
    (∀ rootPath, world.ends env (fixArchiveBit watched (tree.disk.height + 1 + room) rootPath)
        (fun _ s => Stops s.history) ⟨tree.disk, []⟩ ↔
      (watched = true →
        RefusedInTime env.answers (visitsFrom env tree.disk (tree.disk.height + 1 + room) rootPath))) ∧
    (world.ends env (fixAllCommonDirectories watched (tree.disk.height + 1 + room))
        (fun _ s => Stops s.history) ⟨tree.disk, []⟩ ↔
      (watched = true → RefusedInTime env.answers
        (visitsFrom env tree.disk (tree.disk.height + 1 + room) (ascii "/atmosphere") ++
          visitsFrom env tree.disk (tree.disk.height + 1 + room) (ascii "/switch")))) := by
  have hfuel : tree.disk.height < tree.disk.height + 1 + room := by omega
  have hd := tree.isTree.parent
  cases watched with
  | false =>
    refine ⟨fun rootPath => World.ends_iff (World.ends_mono
      (ends_fixArchiveBit_unwatched hd (deep_of_height hfuel _)) (fun _ s h => ?_)),
      World.ends_iff (World.ends_mono (ends_fixAll_unwatched hd hfuel) (fun _ s h => ?_))⟩
    · exact iff_of_true (Quietly.stops h.1) (fun h => absurd h Bool.false_ne_true)
    · exact iff_of_true (Quietly.stops h) (fun h => absurd h Bool.false_ne_true)
  | true =>
    refine ⟨fun rootPath => World.ends_iff (World.ends_mono
      (ends_fixArchiveBit_asked hd (deep_of_height hfuel _)) (fun _ s h => ?_)),
      World.ends_iff (World.ends_mono (ends_fixAll_asked hd hfuel) (fun _ s h => ?_))⟩
    · obtain ⟨more, hhistory, hanswered⟩ := h.1
      rw [hhistory, List.nil_append, hanswered.stops_iff]
      simp [Scene.calls]
    · rw [h.stops_iff]
      simp

namespace Sample

def nested : Tree where
  disk := [([], .directory), ([ascii "switch"], .directory), ([ascii "switch", ascii "a"], .directory)]
  isTree := Disk.isTree_of_entries (by decide +kernel)

def agreesOnce : Surroundings := ⟨.sorted, fun _ => false, fun i => i == 0⟩

end Sample

theorem a_refused_repair_goes_on : world.ends Sample.agreesOnce (fixArchiveBit true 10 (ascii "/switch"))
    (fun _ s => s.history.take 4 = [.asked [ascii "switch"] true, .asked [ascii "switch", ascii "a"] false,
      .renamed true [ascii "switch"] [ascii "switch.nsx_tmp"], .created [ascii "switch"]] ∧ ¬Stops s.history)
    ⟨Sample.nested.disk, []⟩ := by
  have hrun :
      (world.run Sample.agreesOnce (fixArchiveBit true 10 (ascii "/switch")) ⟨Sample.nested.disk, []⟩).1.isSome = true ∧
      (world.run Sample.agreesOnce (fixArchiveBit true 10 (ascii "/switch")) ⟨Sample.nested.disk, []⟩).2.history.take 4 =
        [.asked [ascii "switch"] true, .asked [ascii "switch", ascii "a"] false,
          .renamed true [ascii "switch"] [ascii "switch.nsx_tmp"], .created [ascii "switch"]] := by decide +kernel
  obtain ⟨report, hreport⟩ := Option.isSome_iff_exists.mp hrun.1
  refine ⟨report, _, Prod.ext hreport rfl, hrun.2, fun hstops => ?_⟩
  have hsplit := List.take_append_drop 4
    (world.run Sample.agreesOnce (fixArchiveBit true 10 (ascii "/switch")) ⟨Sample.nested.disk, []⟩).2.history
  rw [hrun.2] at hsplit
  exact absurd (hstops [_] _ _ hsplit.symm _ List.mem_cons_self) Bool.false_ne_true

end NsxManager.Platform
