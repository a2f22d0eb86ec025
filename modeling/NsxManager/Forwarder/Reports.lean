import NsxManager.Forwarder.Faultless
import NsxManager.Lib.Log

/-! Whether the report of a run, whatever failed in it, agrees with the card it leaves. -/

namespace NsxManager.Forwarder

open NsxManager.Core Lib Stdio

abbrev Log := List (Event FileOp FileOp.Reply Fate)

def renamed (source destination : Bytes) (ok : Bool) : Event FileOp FileOp.Reply Fate → Prop
  | ⟨.rename p q, _, r⟩ => p = source ∧ q = destination ∧ ok = r
  | _ => False

def removed (path : Bytes) : Event FileOp FileOp.Reply Fate → Prop
  | ⟨.remove p, _, r⟩ => p = path ∧ true = r
  | _ => False

def unread (path : Bytes) : Event FileOp FileOp.Reply Fate → Prop
  | ⟨.read p, _, r⟩ => p = path ∧ (none : Option Bytes) = r
  | _ => False

def Landed (h : Handoff) (l : Log) : Prop := ∃ ev ∈ l, renamed (incomingNro h) h.targetNro true ev

def Aside (h : Handoff) (l : Log) : Prop := ∃ ev ∈ l, renamed h.targetNro h.backupNro true ev

def Tried (h : Handoff) (l : Log) : Prop := ∃ ev ∈ l, ev.asked = .rename h.backupNro h.targetNro

def Stranded (h : Handoff) (l : Log) : Prop := ∃ ev ∈ l, renamed h.backupNro h.targetNro false ev

def Cleared (h : Handoff) (l : Log) : Prop := ∃ ev ∈ l, removed h.targetNro ev

/-- The new binary landed, and was not deleted again. -/
def Stays (h : Handoff) (l : Log) : Prop :=
  ∃ l₁ ev l₂, l = l₁ ++ ev :: l₂ ∧ renamed (incomingNro h) h.targetNro true ev ∧ ¬Cleared h l₂

def Untouched (h : Handoff) (present : Bool) (l : Log) : Prop :=
  present = true ∧ ¬Aside h l ∧ ¬Cleared h l

/-- A put-back that fails costs nothing that is needed, and one that is not tried is not needed. -/
def Recovers (h : Handoff) (present : Bool) (l : Log) : Prop :=
  (Stranded h l → Stays h l ∨ Untouched h present l) ∧ (¬Tried h l → Landed h l ∨ Untouched h present l)

def swapNames (h : Handoff) (handoffPath : Bytes) : List Bytes :=
  [h.targetNro, h.backupNro, h.stagedNro, handoffPath, handoffPath ++ ascii ".tmp", incomingNro h]

section

variable {h : Handoff} {handoffPath : Bytes} {c c₁ : Card} {l l₁ l₂ : Log} {present : Bool}

/-- While no look at a file fails, this is the card of the other modules. -/
lemma exec_of_answered {α : Type} {prog : FileProgram α} {fates : List Fate}
    (hl : ∀ ev ∈ (fallible.exec prog fates c).log, (∀ p, ev.asked ≠ .probe p) ∨ ev.fate.failing = false) :
    world.exec prog fates c = fallible.exec prog fates c := by
  refine World.exec_agree (fun e fate c₁ c₂ hstep => ?_) (fun ev hev c₁ => (fallible_step (hl ev hev)).symm)
  cases e with
  | probe p => cases fate <;> first | exact hstep | cases congrArg Prod.fst hstep
  | _ => exact hstep ▸ (fallible_step (.inl (by simp))).symm

lemma landed_append : Landed h (l₁ ++ l₂) ↔ Landed h l₁ ∨ Landed h l₂ := by
  simp [Landed, or_and_right, exists_or]

lemma aside_append : Aside h (l₁ ++ l₂) ↔ Aside h l₁ ∨ Aside h l₂ := by
  simp [Aside, or_and_right, exists_or]

lemma tried_append : Tried h (l₁ ++ l₂) ↔ Tried h l₁ ∨ Tried h l₂ := by
  simp [Tried, or_and_right, exists_or]

lemma stranded_append : Stranded h (l₁ ++ l₂) ↔ Stranded h l₁ ∨ Stranded h l₂ := by
  simp [Stranded, or_and_right, exists_or]

lemma cleared_append : Cleared h (l₁ ++ l₂) ↔ Cleared h l₁ ∨ Cleared h l₂ := by
  simp [Cleared, or_and_right, exists_or]

lemma tried_of_stranded (hl : Stranded h l) : Tried h l := by
  obtain ⟨⟨e, fate, r⟩, hev, hrenamed⟩ := hl
  refine ⟨_, hev, ?_⟩
  cases e with
  | rename p q => rw [hrenamed.1, hrenamed.2.1]
  | _ => exact hrenamed.elim

lemma landed_of_stays (hl : Stays h l) : Landed h l := by
  obtain ⟨l₁, ev, l₂, rfl, hev, _⟩ := hl
  exact ⟨ev, by simp, hev⟩

lemma stays_cons {ev : Event FileOp FileOp.Reply Fate} :
    Stays h (ev :: l) ↔ renamed (incomingNro h) h.targetNro true ev ∧ ¬Cleared h l ∨ Stays h l := by
  constructor
  · rintro ⟨_ | ⟨ev₁, l₁⟩, ev', l₂, heq, hev⟩
    · obtain ⟨rfl, rfl⟩ : ev = ev' ∧ l = l₂ := by simpa using heq
      exact .inl hev
    · obtain ⟨rfl, rfl⟩ : ev = ev₁ ∧ l = l₁ ++ ev' :: l₂ := by simpa using heq
      exact .inr ⟨l₁, ev', l₂, rfl, hev⟩
  · rintro (hev | ⟨l₁, ev', l₂, rfl, hev⟩)
    · exact ⟨[], ev, l, rfl, hev⟩
    · exact ⟨ev :: l₁, ev', l₂, rfl, hev⟩

lemma stays_append (hl : ¬Landed h l₁) : Stays h (l₁ ++ l₂) ↔ Stays h l₂ := by
  induction l₁ with
  | nil => rfl
  | cons ev l ih =>
    have hev : ¬renamed (incomingNro h) h.targetNro true ev := fun hev => hl ⟨ev, by simp, hev⟩
    have hrest : ¬Landed h l := fun ⟨ev', hmem, hev'⟩ => hl ⟨ev', List.mem_cons_of_mem _ hmem, hev'⟩
    simp only [List.cons_append, stays_cons, hev, false_and, false_or, ih hrest]

structure Quiet (h : Handoff) (l : Log) : Prop where
  landed : ¬Landed h l
  aside : ¬Aside h l
  tried : ¬Tried h l
  cleared : ¬Cleared h l

lemma quiet_of_spares (hl : ∀ ev ∈ l, ev.asked.Spares h.targetNro) : Quiet h l := by
  refine ⟨?_, ?_, ?_, ?_⟩
  · rintro ⟨⟨_ | _, _, _⟩, hev, hrenamed⟩ <;> try exact hrenamed
    exact (hl _ hev).2 hrenamed.2.1
  · rintro ⟨⟨_ | _, _, _⟩, hev, hrenamed⟩ <;> try exact hrenamed
    exact (hl _ hev).1 hrenamed.1
  · rintro ⟨ev, hev, hasked⟩
    have hspares := hl ev hev
    rw [hasked] at hspares
    exact hspares.2 rfl
  · rintro ⟨⟨_ | _, _, _⟩, hev, hremoved⟩ <;> try exact hremoved
    exact hl _ hev hremoved.1

/-- What a run that may put the backup back, and does nothing else to the target, leaves there. -/
structure PutsBack (h : Handoff) (present : Bool) (c' : Card) (l : Log) : Prop where
  landed : ¬Landed h l
  aside : ¬Aside h l
  idle : ¬Tried h l → ¬Cleared h l ∧ c'.has h.targetNro = present
  tried : Tried h l → (c'.has h.targetNro = true ↔ (Stranded h l → present = true ∧ ¬Cleared h l))

lemma Quiet.putsBack {c' : Card} (hl : Quiet h l) (hsame : c'.has h.targetNro = present) :
    PutsBack h present c' l :=
  ⟨hl.landed, hl.aside, fun _ => ⟨hl.cleared, hsame⟩, fun htried => absurd htried hl.tried⟩

lemma PutsBack.after {c' : Card} (hl : Quiet h l₁) (hp : PutsBack h present c' l₂) :
    PutsBack h present c' (l₁ ++ l₂) := by
  have hstranded : ¬Stranded h l₁ := fun hs => hl.tried (tried_of_stranded hs)
  refine ⟨?_, ?_, ?_, ?_⟩
  · simp only [landed_append, hl.landed, hp.landed, or_self, not_false_eq_true]
  · simp only [aside_append, hl.aside, hp.aside, or_self, not_false_eq_true]
  · simpa only [tried_append, cleared_append, hl.tried, hl.cleared, false_or] using hp.idle
  · simpa only [tried_append, stranded_append, cleared_append, hl.tried, hstranded, hl.cleared, false_or]
      using hp.tried

lemma PutsBack.before {c' c'' : Card} (hp : PutsBack h present c' l₁) (hl : Quiet h l₂)
    (hsame : c''.has h.targetNro = c'.has h.targetNro) : PutsBack h present c'' (l₁ ++ l₂) := by
  have hstranded : ¬Stranded h l₂ := fun hs => hl.tried (tried_of_stranded hs)
  refine ⟨?_, ?_, ?_, ?_⟩
  · simp only [landed_append, hl.landed, hp.landed, or_self, not_false_eq_true]
  · simp only [aside_append, hl.aside, hp.aside, or_self, not_false_eq_true]
  · simpa only [tried_append, cleared_append, hl.tried, hl.cleared, or_false, hsame] using hp.idle
  · simpa only [tried_append, stranded_append, cleared_append, hl.tried, hstranded, hl.cleared, or_false, hsame]
      using hp.tried

lemma PutsBack.recovers {c' : Card} (hp : PutsBack h present c' l) :
    c'.has h.targetNro = true ↔ Recovers h present l := by
  have hstays : ¬Stays h l := fun hs => hp.landed (landed_of_stays hs)
  by_cases htried : Tried h l
  · simp [hp.tried htried, Recovers, Untouched, htried, hstays, hp.aside]
  · have hstranded : ¬Stranded h l := fun hs => htried (tried_of_stranded hs)
    obtain ⟨hcleared, hsame⟩ := hp.idle htried
    simp [hsame, Recovers, Untouched, htried, hstranded, hp.landed, hp.aside, hcleared]

structure Tells (h : Handoff) (present : Bool) (out : SwapOutcome) (c' : Card) (l : Log) : Prop where
  result : out.result ≠ .unrecoverable
  recovers : c'.has h.targetNro = true ↔ Recovers h present l

lemma Quiet.recovers_append (hl : Quiet h l₁) : Recovers h present (l₁ ++ l₂) ↔ Recovers h present l₂ := by
  have hstranded : ¬Stranded h l₁ := fun hs => hl.tried (tried_of_stranded hs)
  simp only [Recovers, Untouched, stranded_append, landed_append, aside_append, cleared_append, tried_append,
    stays_append hl.landed, hl.landed, hl.aside, hl.tried, hl.cleared, hstranded, false_or]

lemma Tells.prepend {out : SwapOutcome} {c' : Card} (hl : Quiet h l₁) (ht : Tells h present out c' l₂) :
    Tells h present out c' (l₁ ++ l₂) :=
  ⟨ht.result, by rw [hl.recovers_append, ht.recovers]⟩

structure Distinct (h : Handoff) (handoffPath : Bytes) : Prop where
  target : ∀ p ∈ [h.backupNro, h.stagedNro, handoffPath, handoffPath ++ ascii ".tmp", incomingNro h],
    p ≠ h.targetNro
  incoming : incomingNro h ≠ h.backupNro

lemma distinct_of_nodup (hnames : (swapNames h handoffPath).Nodup) : Distinct h handoffPath := by
  obtain ⟨htarget, hrest⟩ := List.nodup_cons.mp hnames
  obtain ⟨hbackup, _⟩ := List.nodup_cons.mp hrest
  exact ⟨fun p hp heq => htarget (heq ▸ hp), fun heq => hbackup (heq ▸ by simp)⟩

/-- Once the target is moved aside, it no longer matters that it was there. -/
lemma recovers_aside {fate fate₁ fate₂ : Fate} {r : Bool} (hne : h.backupNro ≠ h.targetNro) :
    Recovers h true ([⟨.probe h.targetNro, fate, true⟩, ⟨.remove h.backupNro, fate₁, r⟩,
      ⟨.rename h.targetNro h.backupNro, fate₂, true⟩] ++ l) ↔ Recovers h false l := by
  set l₁ : Log := [⟨.probe h.targetNro, fate, true⟩, ⟨.remove h.backupNro, fate₁, r⟩,
    ⟨.rename h.targetNro h.backupNro, fate₂, true⟩]
  have hlanded : ¬Landed h l₁ := by simp [l₁, Landed, renamed, hne]
  have htried : ¬Tried h l₁ := by simp [l₁, Tried, hne.symm]
  have hstranded : ¬Stranded h l₁ := fun hs => htried (tried_of_stranded hs)
  have haside : Aside h l₁ := by simp [l₁, Aside, renamed]
  simp only [Recovers, Untouched, stranded_append, landed_append, aside_append, tried_append, stays_append hlanded,
    hlanded, htried, hstranded, haside, false_or, true_or, not_true_eq_false, false_and, and_false, Bool.false_eq_true]

lemma recovers_landing {fate fate' : Fate} {r ok present' : Bool} {c' : Card} (hd : Distinct h handoffPath)
    (hfree : ok = true → present = true → r = true)
    (hthere : present' = true ↔ (ok = false → present = true ∧ r = false)) (hp : PutsBack h present' c' l) :
    c'.has h.targetNro = true ↔ Recovers h present ([⟨.remove h.targetNro, fate, r⟩,
      ⟨.rename (incomingNro h) h.targetNro, fate', ok⟩] ++ l) := by
  set l₁ : Log := [⟨.remove h.targetNro, fate, r⟩, ⟨.rename (incomingNro h) h.targetNro, fate', ok⟩]
  have htried : ¬Tried h l₁ := by simp [l₁, Tried, hd.incoming]
  have hstranded : ¬Stranded h l₁ := fun hs => htried (tried_of_stranded hs)
  have haside : ¬Aside h l₁ := by simp [l₁, Aside, renamed, hd.target]
  have hcleared : Cleared h l₁ ↔ r = true := by simp [l₁, Cleared, removed, eq_comm]
  have hlanded : Landed h l₁ ↔ ok = true := by simp [l₁, Landed, renamed, eq_comm]
  rw [hp.recovers]
  have hstays : ¬Stays h l := fun hs => hp.landed (landed_of_stays hs)
  have hstays₁ : Stays h (l₁ ++ l) ↔ ok = true ∧ ¬Cleared h l := by
    simp [l₁, stays_cons, renamed, hstays, eq_comm]
  simp only [Recovers, Untouched, stranded_append, landed_append, aside_append, tried_append, cleared_append, hstays₁,
    htried, hstranded, haside, hcleared, hlanded, hp.landed, hp.aside, hstays, false_or, or_false, not_false_eq_true,
    true_and, false_or]
  cases ok with
  | false => simp [hthere, and_assoc]
  | true =>
    have hpresent : present' = true := by simpa using hthere
    have huntouched : ¬(present = true ∧ ¬(r = true ∨ Cleared h l)) :=
      fun ⟨hpr, hn⟩ => hn (.inl (hfree rfl hpr))
    by_cases ht : Tried h l
    · simp only [hpresent, ht, huntouched, true_and, or_false, not_true_eq_false, false_implies, and_true]
    · have hs : ¬Stranded h l := fun hs => ht (tried_of_stranded hs)
      simp [hpresent, ht, hs, (hp.idle ht).1]

lemma returns_spared {α : Type} {prog : FileProgram α} (hT : prog.Asks (FileOp.Spares h.targetNro)) :
    fallible.returns prog (fun _ c' l => c'.has h.targetNro = c.has h.targetNro ∧ Quiet h l) c := by
  intro fates a _
  refine ⟨?_, quiet_of_spares (fun ev hev => World.asked_of_mem_log fallible hT hev)⟩
  rw [Card.has, lookup_exec_fallible hT, Card.has]

lemma returns_renameOver {source destination : Bytes} (hne : source ≠ destination) :
    fallible.returns (renameOver source destination) (fun ok c' l =>
      ∃ (fate : Fate) (r : Bool) (fate' : Fate),
        l = [⟨.remove destination, fate, r⟩, ⟨.rename source destination, fate', ok⟩] ∧
        (r = true → c.has destination = true) ∧ (ok = true → c.has destination = true → r = true) ∧
        (c'.has destination = true ↔ (ok = false → c.has destination = true ∧ r = false)) ∧
        (c'.has source = true ↔ ok = false ∧ c.has source = true)) c := by
  refine World.returns_call (fun fate (r : Bool) c₁ h₁ =>
    World.returns_call (fun fate' (ok : Bool) c' h₂ => World.returns_done ?_))
  rw [fallible_step (.inl (by simp))] at h₁ h₂
  refine ⟨fate, r, fate', rfl, ?_⟩
  obtain ⟨hgone, hcleared, hkept⟩ := has_remove h₁
  obtain ⟨hthere, hsource, _⟩ := has_rename hne h₂
  have hsame : c₁.has source = c.has source := by rw [Card.has, hkept _ hne, Card.has]
  refine ⟨hgone, ?_, ?_, ?_⟩
  · rintro rfl hpresent
    have hfree : c₁.has destination = false := by
      rcases step_rename h₂ with ⟨hok, _⟩ | ⟨hok, _⟩
      · simp only [eq_comm (a := true), Bool.and_eq_true, Bool.not_eq_true'] at hok
        exact hok.2
      · cases hok
    by_contra hr
    simp [hcleared.mpr ⟨hpresent, by simpa using hr⟩] at hfree
  · rw [hthere, hcleared]
    cases ok <;> simp
  · rw [hsource, hsame, and_comm]

lemma returns_probe {α : Type} {k : Bool → FileProgram α} {p : Bytes} {Q : α → Card → Log → Prop}
    (hk : ∀ fate r, r = (c.has p && !fate.failing) →
      fallible.returns (k r) (fun a c' l => Q a c' (⟨.probe p, fate, r⟩ :: l)) c) :
    fallible.returns (probe p >>= k) Q c := by
  refine World.returns_call (fun fate (r : Bool) c₁ hstep => ?_)
  obtain ⟨hr, rfl⟩ := fallible_probe hstep
  exact hk fate r hr

lemma returns_read {α : Type} {k : Option Bytes → FileProgram α} {p : Bytes} {Q : α → Card → Log → Prop}
    (hk : ∀ fate raw, raw = c.lookup p ∨ raw = none →
      fallible.returns (k raw) (fun a c' l => Q a c' (⟨.read p, fate, raw⟩ :: l)) c) :
    fallible.returns (Stdio.read p >>= k) Q c := by
  refine World.returns_call (fun fate (raw : Option Bytes) c₁ hstep => ?_)
  have hr : (raw = c.lookup p ∨ raw = none) ∧ c₁ = c := by
    cases fate with
    | torn n => cases congrArg Prod.fst hstep
    | fails n => exact ⟨.inr (Option.some.inj (congrArg Prod.fst hstep)).symm, (congrArg Prod.snd hstep).symm⟩
    | _ => exact ⟨.inl (Option.some.inj (congrArg Prod.fst hstep)).symm, (congrArg Prod.snd hstep).symm⟩
  obtain ⟨hraw, rfl⟩ := hr
  exact hk fate raw hraw

lemma quiet_probe (p : Bytes) (fate : Fate) (r : Bool) : Quiet h [⟨.probe p, fate, r⟩] :=
  quiet_of_spares (by simp [FileOp.Spares])

lemma asks_hash (p q : Bytes) : (Stdio.hash p).Asks (FileOp.Spares q) := ⟨trivial, fun _ => trivial⟩

lemma asks_remove {p q : Bytes} (hne : p ≠ q) : (remove p).Asks (FileOp.Spares q) := ⟨hne, fun _ => trivial⟩

lemma Distinct.asks_cleanUp (hd : Distinct h handoffPath) :
    (cleanUp h handoffPath).Asks (FileOp.Spares h.targetNro) :=
  Forwarder.asks_cleanUp (hd.target _ (by simp)) (hd.target _ (by simp)) (hd.target _ (by simp))

lemma returns_restored (hd : Distinct h handoffPath) :
    fallible.returns (renameOver h.backupNro h.targetNro)
      (fun _ c' l => PutsBack h (c.has h.targetNro) c' l) c := by
  refine World.returns_mono (returns_renameOver (hd.target _ (by simp))) ?_
  rintro ok c' l ⟨fate, r, fate', rfl, _, _, htarget, _⟩
  refine ⟨?_, ?_, fun htried => absurd ?_ htried, fun _ => ?_⟩
  · simp [Landed, renamed, hd.incoming.symm]
  · simp [Aside, renamed, hd.target]
  · simp [Tried]
  · rw [htarget]
    cases r <;> cases ok <;> simp [Stranded, Cleared, renamed, removed]

lemma returns_putBack (hd : Distinct h handoffPath) :
    fallible.returns (putBack h) (fun _ c' l => PutsBack h (c.has h.targetNro) c' l) c := by
  refine returns_probe (fun fate r _ => ?_)
  cases r with
  | false => exact World.returns_done ((quiet_probe _ fate false).putsBack rfl)
  | true =>
    refine World.returns_bind (World.returns_mono (returns_restored hd) (fun ok c' l hp => ?_))
    refine World.returns_done ?_
    rw [List.append_nil]
    exact hp.after (quiet_probe h.backupNro fate true)

lemma returns_cleaned (hd : Distinct h handoffPath) (out : SwapOutcome) :
    fallible.returns (cleanUp h handoffPath >>= fun _ => pure out) (fun out' c' l => out' = out ∧
      c'.has h.targetNro = c.has h.targetNro ∧ Quiet h l) c := by
  refine World.returns_bind (World.returns_mono (returns_spared hd.asks_cleanUp) ?_)
  rintro _ c' l ⟨htarget, hl⟩
  refine World.returns_done ⟨rfl, htarget, ?_⟩
  rwa [List.append_nil]

lemma returns_confirm (hd : Distinct h handoffPath) :
    fallible.returns (confirm h handoffPath) (fun out c' l =>
      out.result ≠ .unrecoverable ∧ PutsBack h (c.has h.targetNro) c' l) c := by
  refine World.returns_bind (World.returns_mono (returns_spared (h := h) (asks_hash _ _)) ?_)
  rintro installed c₁ l₁ ⟨htarget, hl₁⟩
  rw [← htarget]
  cases hv : installed.any (digestsEqual · h.stagedSha256) with
  | true =>
    rw [if_pos rfl]
    refine World.returns_mono (returns_cleaned hd _) ?_
    rintro _ c₂ l₂ ⟨rfl, htarget₂, hl₂⟩
    exact ⟨by simp, (hl₂.putsBack htarget₂).after hl₁⟩
  | false =>
    rw [if_neg (by decide)]
    refine World.returns_bind (World.returns_mono (returns_putBack hd) (fun _ c₂ l₂ hp => ?_))
    refine World.returns_done ⟨by simp [fail], ?_⟩
    rw [List.append_nil]
    exact hp.after hl₁

lemma tells_land (hd : Distinct h handoffPath) :
    fallible.returns (land h handoffPath) (Tells h (c.has h.targetNro)) c := by
  refine World.returns_bind (World.returns_mono (returns_renameOver (hd.target _ (by simp))) ?_)
  rintro ok c₁ l₁ ⟨fate, r, fate', rfl, _, hfree, htarget, _⟩
  cases ok with
  | false =>
    refine World.returns_bind (World.returns_mono (returns_putBack hd) (fun _ c₂ l₂ hp => ?_))
    refine World.returns_bind (World.returns_mono (returns_spared (asks_remove (hd.target _ (by simp)))) ?_)
    rintro _ c₃ l₃ ⟨htarget₃, hl₃⟩
    refine World.returns_done ⟨by simp [fail], ?_⟩
    rw [List.append_nil]
    exact recovers_landing hd hfree htarget (hp.before hl₃ htarget₃)
  | true =>
    refine World.returns_mono (returns_confirm hd) ?_
    rintro out c₂ l₂ ⟨hresult, hp⟩
    exact ⟨hresult, recovers_landing hd hfree htarget hp⟩

lemma tells_exchange (hd : Distinct h handoffPath) :
    fallible.returns (exchange h handoffPath) (Tells h (c.has h.targetNro)) c := by
  have hne : h.backupNro ≠ h.targetNro := hd.target _ (by simp)
  refine returns_probe (fun fate r hr => ?_)
  cases r with
  | false =>
    rw [if_neg (by decide)]
    exact World.returns_mono (tells_land hd) (fun _ _ _ ht => ht.prepend (quiet_probe _ fate false))
  | true =>
    have hT : c.has h.targetNro = true := by
      simp only [eq_comm (a := true), Bool.and_eq_true] at hr
      exact hr.1
    rw [if_pos rfl, hT]
    refine World.returns_bind (World.returns_mono (returns_renameOver hne.symm) ?_)
    rintro ok c₁ l₁ ⟨fate₁, r, fate₂, rfl, _, _, _, htarget⟩
    cases ok with
    | false =>
      have hpresent : c₁.has h.targetNro = true := by simpa [hT] using htarget
      have hquiet : Quiet h (⟨.probe h.targetNro, fate, true⟩ :: [⟨.remove h.backupNro, fate₁, r⟩,
          ⟨.rename h.targetNro h.backupNro, fate₂, false⟩]) := by
        refine ⟨?_, ?_, ?_, ?_⟩ <;> simp [Landed, Aside, Tried, Cleared, renamed, removed, hne, hne.symm]
      refine World.returns_bind (World.returns_mono (returns_spared (asks_remove (hd.target _ (by simp)))) ?_)
      rintro _ c₂ l₂ ⟨htarget₂, hl₂⟩
      refine World.returns_done (Tells.prepend hquiet ⟨by simp [fail], ?_⟩)
      rw [List.append_nil]
      exact (hl₂.putsBack (htarget₂.trans hpresent)).recovers
    | true =>
      have hmissing : c₁.has h.targetNro = false := by simpa using htarget
      refine World.returns_mono (tells_land hd) (fun out c₂ l₂ ht => ⟨ht.result, ?_⟩)
      rw [ht.recovers, hmissing]
      exact (recovers_aside hne).symm

lemma tells_done {out : SwapOutcome} (hout : out.result ≠ .unrecoverable) :
    fallible.returns (pure out : FileProgram SwapOutcome) (Tells h (c.has h.targetNro)) c :=
  World.returns_done ⟨hout, ((quiet_of_spares (by simp)).putsBack rfl).recovers⟩

lemma tells_bind {α : Type} {prog : FileProgram α} {k : α → FileProgram SwapOutcome}
    (hT : prog.Asks (FileOp.Spares h.targetNro))
    (hk : ∀ a c₁, fallible.returns (k a) (Tells h (c₁.has h.targetNro)) c₁) :
    fallible.returns (prog >>= k) (Tells h (c.has h.targetNro)) c := by
  refine World.returns_bind (World.returns_mono (returns_spared hT) ?_)
  rintro a c₁ l ⟨htarget, hl⟩
  rw [← htarget]
  exact World.returns_mono (hk a c₁) (fun _ _ _ ht => ht.prepend hl)

lemma tells_bringIn (hd : Distinct h handoffPath) :
    fallible.returns (bringIn h handoffPath) (Tells h (c.has h.targetNro)) c := by
  refine tells_bind (asks_hash _ _) (fun actual c₁ => ?_)
  cases actual with
  | none => exact tells_done (by decide)
  | some digest =>
    cases hv : digestsEqual digest h.stagedSha256 with
    | false => simpa [hv] using tells_done (by decide)
    | true =>
      simp only [hv, Bool.not_true, Bool.false_eq_true, if_false]
      refine tells_bind (asks_copyFile (hd.target _ (by simp))) (fun copied c₂ => ?_)
      cases copied with
      | false => exact tells_bind (asks_remove (hd.target _ (by simp))) (fun _ c₃ => tells_done (by decide))
      | true => exact tells_exchange hd

lemma tells_swap {J : JsonLibrary} (hd : Distinct h handoffPath) :
    fallible.returns (swap J h handoffPath) (Tells h (c.has h.targetNro)) c := by
  have hd' : Distinct { h with attempts := h.attempts + 1 } handoffPath := ⟨hd.target, hd.incoming⟩
  rw [swap]
  cases serializeHandoff J { h with attempts := h.attempts + 1 } with
  | none => exact World.returns_call (fun _ impossible => Empty.elim impossible)
  | some text =>
    refine tells_bind (asks_writeFileAtomic _ (hd.target _ (by simp)) (hd.target _ (by simp)))
      (fun recorded c₁ => ?_)
    cases recorded with
    | false => exact tells_done (by decide)
    | true => exact World.returns_mono (tells_bringIn hd') (fun out c' l ht => ⟨ht.result, ht.recovers⟩)

lemma tells_restore {out failed : SwapOutcome} (hd : Distinct h handoffPath)
    (hout : out.result ≠ .unrecoverable) (hfailed : failed.result ≠ .unrecoverable) :
    fallible.returns (renameOver h.backupNro h.targetNro >>= fun restored =>
      if !restored then pure failed else cleanUp h handoffPath >>= fun _ => pure out)
      (Tells h (c.has h.targetNro)) c := by
  refine World.returns_bind (World.returns_mono (returns_restored hd) (fun ok c₁ l₁ hp => ?_))
  cases ok with
  | false =>
    refine World.returns_done ⟨hfailed, ?_⟩
    rw [List.append_nil]
    exact hp.recovers
  | true =>
    refine World.returns_mono (returns_cleaned hd out) ?_
    rintro _ c₂ l₂ ⟨rfl, htarget₂, hl₂⟩
    exact ⟨hout, (hp.before hl₂ htarget₂).recovers⟩

lemma tells_cleanUp {out : SwapOutcome} (hd : Distinct h handoffPath) (hout : out.result ≠ .unrecoverable) :
    fallible.returns (cleanUp h handoffPath >>= fun _ => pure out) (Tells h (c.has h.targetNro)) c := by
  refine World.returns_mono (returns_cleaned hd out) ?_
  rintro _ c' l ⟨rfl, htarget, hl⟩
  exact ⟨hout, (hl.putsBack htarget).recovers⟩

lemma tells_probe {p : Bytes} {k : Bool → FileProgram SwapOutcome}
    (hk : ∀ r, fallible.returns (k r) (Tells h present) c) :
    fallible.returns (probe p >>= k) (Tells h present) c :=
  returns_probe (fun fate r _ => World.returns_mono (hk r) (fun _ _ _ ht => ht.prepend (quiet_probe p fate r)))

lemma tells_rollBack (hd : Distinct h handoffPath) (why : Bytes) :
    fallible.returns (rollBack h handoffPath why) (Tells h (c.has h.targetNro)) c := by
  refine tells_probe (fun kept => ?_)
  cases kept with
  | false => exact tells_cleanUp hd (by simp)
  | true =>
    rw [if_pos rfl]
    refine tells_probe (fun inPlace => ?_)
    cases inPlace with
    | true => exact tells_cleanUp hd (by simp)
    | false => exact tells_restore hd (by simp) (by simp [fail])

lemma tells_act {J : JsonLibrary} (hd : Distinct h handoffPath) {found : FilePresence} (hfound : found.handoff = true)
    (hact : (decideRecovery (some h) found).action ≠ .unrecoverable) :
    fallible.returns (act J handoffPath (some h) (decideRecovery (some h) found)) (Tells h (c.has h.targetNro)) c := by
  rcases decideRecovery_cases h found hfound with ⟨ha, _⟩ | ⟨ha, _⟩ | ⟨ha, _⟩ | ⟨ha, _⟩ | ⟨ha | ha, _⟩
  · simpa only [act, ha] using tells_rollBack hd _
  · simp only [act, ha]
    exact tells_restore hd (by simp) (by simp [fail])
  · simpa only [act, ha] using tells_swap hd
  · exact absurd ha hact
  · simpa only [act, ha] using tells_swap hd
  · simpa only [act, ha] using tells_swap hd

/-- The looks at the files before anything is decided are the second to the fourth request. -/
def missed (l : Log) (p : Bytes) : Bool :=
  (l.take 4).any (fun ev => decide (ev.asked = .probe p) && ev.fate.failing)

def found (h : Handoff) (c : Card) (l : Log) : FilePresence :=
  { handoff := true, staged := c.has h.stagedNro && !missed l h.stagedNro,
    target := c.has h.targetNro && !missed l h.targetNro, backup := c.has h.backupNro && !missed l h.backupNro }

def GivesUp (h : Handoff) (handoffPath : Bytes) (c : Card) (l : Log) : Prop :=
  (∃ ev ∈ l.head?, unread handoffPath ev) ∨ (decideRecovery (some h) (found h c l)).action = .unrecoverable

def Honest (h : Handoff) (handoffPath : Bytes) (c : Card) (l : Log) : Prop :=
  (GivesUp h handoffPath c l → c.has h.targetNro = false) ∧
    (¬GivesUp h handoffPath c l → Recovers h (c.has h.targetNro) l)

lemma Tells.honest {out : SwapOutcome} {c' : Card} (ht : Tells h (c.has h.targetNro) out c' l)
    (hgives : ¬GivesUp h handoffPath c l) :
    (out.applicationUsable = true ↔ c'.has h.targetNro = true) ↔ Honest h handoffPath c l := by
  have husable : out.applicationUsable = true := by simpa [SwapOutcome.applicationUsable] using ht.result
  simp [Honest, husable, hgives, ht.recovers]

lemma found_of_probes {e₀ : Event FileOp FileOp.Reply Fate} {fate₁ fate₂ fate₃ : Fate} {r₁ r₂ r₃ : Bool}
    (hread : ∀ p, e₀.asked ≠ .probe p) (hnames : (swapNames h handoffPath).Nodup)
    (h₁ : r₁ = (c.has h.stagedNro && !fate₁.failing)) (h₂ : r₂ = (c.has h.targetNro && !fate₂.failing))
    (h₃ : r₃ = (c.has h.backupNro && !fate₃.failing)) :
    found h c (e₀ :: ⟨.probe h.stagedNro, fate₁, r₁⟩ :: ⟨.probe h.targetNro, fate₂, r₂⟩ ::
      ⟨.probe h.backupNro, fate₃, r₃⟩ :: l) =
      { handoff := true, staged := r₁, target := r₂, backup := r₃ } := by
  simp only [swapNames, List.nodup_cons, List.mem_cons, not_or] at hnames
  obtain ⟨⟨htb, hts, _⟩, ⟨hbs, _⟩, _⟩ := hnames
  simp [found, missed, hread, h₁, h₂, h₃, htb, hts, hbs, Ne.symm htb, Ne.symm hts, Ne.symm hbs]

end

namespace Sample

def spent : Handoff :=
  { fromVersion := ascii "0.1.0", toVersion := ascii "0.2.0", stagedNro := ascii "/s", targetNro := ascii "/m",
    backupNro := ascii "/b", forwarderNro := ascii "/f", attempts := 3 }

def instruction : Bytes := (serializeHandoff JsonCodec.library spent).getD []

lemma parseHandoff_instruction : parseHandoff JsonCodec.library instruction = .ok spent := by
  have hwritten : serializeHandoff JsonCodec.library spent = some instruction := by decide +kernel
  have haccepted : spent.Accepted := by constructor <;> decide
  exact parseHandoff_serializeHandoff haccepted hwritten

def displaced : Card := ((∅ : Card).insert (ascii "/h") instruction).insert (ascii "/b") [1]

def pending : Handoff := { spent with attempts := 0 }

def order : Bytes := (serializeHandoff JsonCodec.library pending).getD []

lemma parseHandoff_order : parseHandoff JsonCodec.library order = .ok pending := by
  have hwritten : serializeHandoff JsonCodec.library pending = some order := by decide +kernel
  have haccepted : pending.Accepted := by constructor <;> decide
  exact parseHandoff_serializeHandoff haccepted hwritten

def unstaged : Card := ((∅ : Card).insert (ascii "/h") order).insert (ascii "/m") [1]

def report (fates : List Fate) (c : Card) : Trace FileOp FileOp.Reply Fate Card SwapOutcome :=
  fallible.exec (runSwap JsonCodec.library (ascii "/h")) fates c

def abandoned : SwapOutcome := ⟨.rolledBack, (decideRecovery (some spent) (presenceOf displaced spent)).reason⟩

def unrestored : List Fate := List.replicate 7 .ok ++ [.fails 0]

end Sample

end NsxManager.Forwarder
