import NsxManager.Forwarder.Faultless
import NsxManager.Lib.Log

/-! The attempt counter: recorded before anything risky, and never spent beyond its budget. -/

namespace NsxManager.Forwarder

open NsxManager.Core Lib Stdio

def isAttempt (h : Handoff) : FileOp → Bool
  | .create p => p = incomingNro h
  | .append p _ => p = incomingNro h
  | .rename p q => p = h.targetNro ∧ q = h.backupNro
  | _ => false

def Keeps (p : Bytes) (e : FileOp) : Prop := e.Spares p ∨ e = .remove p

lemma keeps_remove (p q : Bytes) : Keeps p (.remove q) := by
  by_cases hq : q = p
  · exact .inr (by rw [hq])
  · exact .inl hq

lemma lookup_step_keeps {e : FileOp} {p : Bytes} {fate : Fate} {c : Card} (h : Keeps p e) :
    (world.step e fate c).2.lookup p = c.lookup p ∨ (world.step e fate c).2.lookup p = none := by
  rcases h with h | rfl
  · exact .inl (lookup_step h)
  · cases fate with
    | ok => exact .inr (AList.lookup_erase _ _)
    | fails n => exact .inl rfl
    | torn n => exact .inl rfl
    | corrupt bytes => exact .inr (AList.lookup_erase _ _)

lemma lookup_exec_keeps {α : Type} {prog : FileProgram α} {p : Bytes} {c : Card} (h : prog.Asks (Keeps p))
    (fates : List Fate) :
    (world.exec prog fates c).state.lookup p = c.lookup p ∨ (world.exec prog fates c).state.lookup p = none := by
  refine World.exec_invariant (I := fun c' : Card => c'.lookup p = c.lookup p ∨ c'.lookup p = none)
    (World.wp_of_asks h (.inl rfl) (fun e f c' he hc' => ?_))
  rcases lookup_step_keeps he with hsame | hgone
  · rwa [hsame]
  · exact .inr hgone

structure Spaced (h : Handoff) (handoffPath : Bytes) : Prop where
  target : handoffPath ≠ h.targetNro
  backup : handoffPath ≠ h.backupNro
  incoming : handoffPath ≠ incomingNro h
  temporary : handoffPath ++ ascii ".tmp" ≠ h.targetNro
  copy : handoffPath ++ ascii ".tmp" ≠ incomingNro h
  aside : h.backupNro ≠ h.targetNro

lemma Follows.spaced {L : Layout} {sha : Digest} {h : Handoff} (hf : Follows L sha h) :
    Spaced h (L.name .handoff) := by
  constructor <;> simp only [← L.temporary, hf.incoming, hf.target, hf.backup] <;>
    exact L.distinct.ne (by decide)

section Requests

variable {h : Handoff} {handoffPath : Bytes}

lemma isAttempt_of_spares {e : FileOp} (hnew : e.Spares (incomingNro h)) (htarget : e.Spares h.targetNro) :
    isAttempt h e = false := by
  cases e <;> simp_all [isAttempt, FileOp.Spares]

lemma Spaced.asks_writeFileAtomic (hs : Spaced h handoffPath) (data : Bytes) :
    (writeFileAtomic handoffPath data).Asks (fun e => isAttempt h e = false) :=
  ((Forwarder.asks_writeFileAtomic data hs.incoming hs.copy).and
    (Forwarder.asks_writeFileAtomic data hs.target hs.temporary)).mono
    (fun _ he => isAttempt_of_spares he.1 he.2)

def Harmless (h : Handoff) (handoffPath : Bytes) (e : FileOp) : Prop :=
  isAttempt h e = false ∧ Keeps handoffPath e

lemma harmless_remove (p : Bytes) : Harmless h handoffPath (.remove p) := ⟨rfl, keeps_remove _ _⟩

lemma Spaced.permits (hs : Spaced h handoffPath) : Permits (Harmless h handoffPath) h where
  probe _ := ⟨rfl, .inl trivial⟩
  hash _ := ⟨rfl, .inl trivial⟩
  remove _ := harmless_remove _
  restore := ⟨by simp [isAttempt, hs.aside], .inl ⟨hs.backup.symm, hs.target.symm⟩⟩

lemma Spaced.asks_land (hs : Spaced h handoffPath) : (land h handoffPath).Asks (Harmless h handoffPath) :=
  hs.permits.asks_land ⟨by simp [isAttempt, hs.aside.symm], .inl ⟨hs.incoming.symm, hs.target.symm⟩⟩

lemma Spaced.asks_aside (hs : Spaced h handoffPath) :
    (renameOver h.targetNro h.backupNro).Asks (FileOp.Spares handoffPath) :=
  ⟨hs.backup.symm, fun _ => ⟨⟨hs.target.symm, hs.backup.symm⟩, fun _ => trivial⟩⟩

lemma Spaced.asks_bringIn (hs : Spaced h handoffPath) : (bringIn h handoffPath).Asks (Keeps handoffPath) :=
  (hs.permits.mono (fun _ he => he.2)).asks_bringIn (.inl ⟨hs.incoming.symm, hs.target.symm⟩)
    (.inl ⟨hs.target.symm, hs.backup.symm⟩) ((asks_copyFile hs.incoming.symm).mono (fun _ he => .inl he))

end Requests

section Recorded

variable {A : Event FileOp FileOp.Reply Fate → Prop} {h : Handoff} {handoffPath text : Bytes} {c : Card}

abbrev Guarded (h : Handoff) (handoffPath text : Bytes) (e : FileOp) (c : Card) : Prop :=
  isAttempt h e = true → c.lookup handoffPath = some text

lemma guarded_of_asks {α : Type} {prog : FileProgram α} (hp : prog.Asks (fun e => isAttempt h e = false)) :
    world.asksIn A (Guarded h handoffPath text) prog c := by
  refine World.asksIn_of_asks hp (fun e _ he hattempt => ?_)
  rw [he] at hattempt
  cases hattempt

lemma guarded_bind {α β : Type} {p : FileProgram α} {k : α → FileProgram β}
    (hp : p.Asks (FileOp.Spares handoffPath)) (hc : c.lookup handoffPath = some text)
    (hk : ∀ a c', c'.lookup handoffPath = some text →
      world.asksIn A (Guarded h handoffPath text) (k a) c') :
    world.asksIn A (Guarded h handoffPath text) (p >>= k) c := by
  have hstep : ∀ e f (c' : Card), e.Spares handoffPath → c'.lookup handoffPath = some text →
      (world.step e f c').2.lookup handoffPath = some text := fun e f c' he hc' => (lookup_step he).trans hc'
  refine World.asksIn_bind (C := fun c' : Card => c'.lookup handoffPath = some text)
    (World.asksIn_of_invariant hp hc hstep (fun _ _ hI _ => hI)) ?_
  exact World.wp_post (World.wp_of_asks hp hc hstep) hk

lemma Spaced.guarded_bringIn (hs : Spaced h handoffPath) (hc : c.lookup handoffPath = some text) :
    world.asksIn A (Guarded h handoffPath text) (bringIn h handoffPath) c := by
  have hdrop : ∀ (out : SwapOutcome) (c' : Card), world.asksIn A (Guarded h handoffPath text)
      (Stdio.remove (incomingNro h) >>= fun _ => pure out) c' :=
    fun out c' => guarded_of_asks ⟨rfl, fun _ => trivial⟩
  have hland : ∀ (aside : Bool) (c' : Card), world.asksIn A (Guarded h handoffPath text) (if !aside then do
        let _ ← Stdio.remove (incomingNro h)
        return fail .ioFailed (ascii "could not move the current version aside")
      else land h handoffPath) c' := by
    intro aside c'
    cases aside with
    | false => exact hdrop _ c'
    | true => exact guarded_of_asks (hs.asks_land.mono (fun _ he => he.1))
  refine guarded_bind (p := Stdio.hash h.stagedNro) ⟨trivial, fun _ => trivial⟩ hc (fun actual c₁ hc₁ => ?_)
  cases actual with
  | none => trivial
  | some digest =>
    change world.asksIn A _ (if !digestsEqual digest h.stagedSha256 then _ else _) c₁
    split
    · trivial
    · refine guarded_bind (asks_copyFile hs.incoming.symm) hc₁ (fun copied c₂ hc₂ => ?_)
      cases copied with
      | false => exact hdrop _ c₂
      | true =>
        refine guarded_bind (p := Stdio.probe h.targetNro) ⟨trivial, fun _ => trivial⟩ hc₂ (fun present c₃ hc₃ => ?_)
        cases present with
        | false => exact hland true c₃
        | true => exact guarded_bind hs.asks_aside hc₃ (fun aside c₄ _ => hland aside c₄)

lemma Spaced.guarded_swap {J : JsonLibrary} (hs : Spaced h handoffPath)
    (hA : Faithful A (handoffPath ++ ascii ".tmp"))
    (htext : serializeHandoff J { h with attempts := h.attempts + 1 } = some text) :
    world.asksIn A (Guarded h handoffPath text) (swap J h handoffPath) c := by
  have hs' : Spaced { h with attempts := h.attempts + 1 } handoffPath :=
    ⟨hs.target, hs.backup, hs.incoming, hs.temporary, hs.copy, hs.aside⟩
  simp only [swap, htext]
  refine World.asksIn_bind (C := fun _ => True) (guarded_of_asks (hs.asks_writeFileAtomic text)) ?_
  refine wp_writeFileAtomic hA (fun _ _ _ => ⟨trivial, trivial⟩) (fun c' _ hc' => ?_)
  exact hs'.guarded_bringIn hc'

lemma guarded_prefix {α β : Type} {p : FileProgram α} {k : α → FileProgram β} {R : α → Prop}
    (hp : p.Asks (fun e => isAttempt h e = false)) (hwp : world.wp A (· = c) p (fun a c' => c' = c ∧ R a) c)
    (hk : ∀ a, R a → world.asksIn A (Guarded h handoffPath text) (k a) c) :
    world.asksIn A (Guarded h handoffPath text) (p >>= k) c := by
  refine World.asksIn_bind (guarded_of_asks hp) (World.wp_post hwp ?_)
  rintro a c' ⟨rfl, hR⟩
  exact hk a hR

lemma asks_probe (q : Bytes) : (Stdio.probe q).Asks (fun e => isAttempt h e = false) := ⟨rfl, fun _ => trivial⟩

lemma wp_probing (q : Bytes) : world.wp A (· = c) (Stdio.probe q) (fun a c' => c' = c ∧ a = c.has q) c :=
  Program.bind_done (Stdio.probe q) ▸ wp_probe rfl ⟨rfl, rfl⟩

lemma wp_reading (q : Bytes) :
    world.wp A (· = c) (Stdio.read q) (fun a c' => c' = c ∧ (a = c.lookup q ∨ a = none)) c :=
  Program.bind_done (Stdio.read q) ▸ wp_read rfl ⟨rfl, .inr rfl⟩ ⟨rfl, .inl rfl⟩

lemma Spaced.guarded_runSwap {J : JsonLibrary} {document : Bytes} (hs : Spaced h handoffPath)
    (hA : Faithful A (handoffPath ++ ascii ".tmp")) (hdoc : c.lookup handoffPath = some document)
    (hparse : parseHandoff J document = .ok h)
    (htext : serializeHandoff J { h with attempts := h.attempts + 1 } = some text) :
    world.asksIn A (Guarded h handoffPath text) (runSwap J handoffPath) c := by
  refine guarded_prefix ⟨rfl, fun _ => trivial⟩ (wp_reading handoffPath) ?_
  rintro raw (rfl | rfl)
  · simp only [hdoc, hparse]
    refine guarded_prefix (asks_probe _) (wp_probing _) (fun staged _ => ?_)
    refine guarded_prefix (asks_probe _) (wp_probing _) (fun target _ => ?_)
    refine guarded_prefix (asks_probe _) (wp_probing _) (fun backup _ => ?_)
    rcases decideRecovery_cases h ⟨true, staged, target, backup⟩ rfl with
      ⟨ha, _⟩ | ⟨ha, _⟩ | ⟨ha, _⟩ | ⟨ha, _⟩ | ⟨ha | ha, _⟩ <;> simp only [act, ha]
    · exact guarded_of_asks ((hs.permits.asks_rollBack _).mono (fun _ he => he.1))
    · exact guarded_of_asks ((hs.permits.asks_restoreBackup _).mono (fun _ he => he.1))
    · exact hs.guarded_swap hA htext
    · trivial
    · exact hs.guarded_swap hA htext
    · exact hs.guarded_swap hA htext
  · trivial

end Recorded

section Counting

variable {A : Event FileOp FileOp.Reply Fate → Prop} {J : JsonLibrary} {h : Handoff} {handoffPath : Bytes}
  {c c' : Card}

def Counts (J : JsonLibrary) (h : Handoff) (handoffPath : Bytes) (c c' : Card)
    (l : List (Event FileOp FileOp.Reply Fate)) : Prop :=
  (∀ ev ∈ l, isAttempt h ev.asked = false) ∧
      (c'.lookup handoffPath = c.lookup handoffPath ∨ c'.lookup handoffPath = none) ∨
    h.attemptsExhausted = false ∧ ∀ text, c'.lookup handoffPath = some text →
      serializeHandoff J { h with attempts := h.attempts + 1 } = some text

lemma Counts.prepend {l₁ l₂ : List (Event FileOp FileOp.Reply Fate)}
    (hl : ∀ ev ∈ l₁, isAttempt h ev.asked = false) (hcounts : Counts J h handoffPath c c' l₂) :
    Counts J h handoffPath c c' (l₁ ++ l₂) := by
  rcases hcounts with ⟨hl₂, hkept⟩ | hrecorded
  · refine .inl ⟨fun ev hev => ?_, hkept⟩
    rcases List.mem_append.mp hev with hev | hev
    · exact hl ev hev
    · exact hl₂ ev hev
  · exact .inr hrecorded

lemma counts_of_harmless {α : Type} {p : FileProgram α} (hp : p.Asks (Harmless h handoffPath)) :
    world.traced A p (fun _ => Counts J h handoffPath c) c := by
  intro fates _
  exact .inl ⟨fun ev hev => (World.asked_of_mem_log world hp hev).1,
    lookup_exec_keeps (hp.mono (fun _ he => he.2)) fates⟩

lemma counts_prefix {α β : Type} {p : FileProgram α} {k : α → FileProgram β} {R : α → Prop}
    (hp : p.Asks (fun e => isAttempt h e = false)) (hwp : world.wp A (· = c) p (fun a c' => c' = c ∧ R a) c)
    (hk : ∀ a, R a → world.traced A (k a) (fun _ => Counts J h handoffPath c) c) :
    world.traced A (p >>= k) (fun _ => Counts J h handoffPath c) c := by
  have hall := World.traced_and (World.traced_of_wp hwp) (World.traced_of_asks hp)
  refine World.traced_bind (World.traced_mono hall ?_) (World.traced_mono hall ?_)
  · rintro o c' l ⟨⟨hcut, _⟩, hl⟩ hnone
    obtain rfl := hcut hnone
    exact .inl ⟨hl, .inl rfl⟩
  · rintro o c' l ⟨⟨_, hdone⟩, hl⟩ a ha
    obtain ⟨rfl, hR⟩ := hdone a ha
    exact World.traced_mono (hk a hR) (fun _ _ _ hcounts => hcounts.prepend hl)

lemma Spaced.counts_swap (hs : Spaced h handoffPath) (hA : Faithful A (handoffPath ++ ascii ".tmp"))
    (hbudget : h.attemptsExhausted = false) :
    world.traced A (swap J h handoffPath) (fun _ => Counts J h handoffPath c) c := by
  have hs' : Spaced { h with attempts := h.attempts + 1 } handoffPath :=
    ⟨hs.target, hs.backup, hs.incoming, hs.temporary, hs.copy, hs.aside⟩
  rw [swap]
  cases htext : serializeHandoff J { h with attempts := h.attempts + 1 } with
  | none => exact counts_of_harmless ⟨⟨rfl, .inl trivial⟩, fun impossible => Empty.elim impossible⟩
  | some text =>
    have hwrite : world.wp A
        (fun c' => c'.lookup handoffPath = c.lookup handoffPath ∨ c'.lookup handoffPath = none)
        (writeFileAtomic handoffPath text)
        (fun ok c' => (ok = false → c'.lookup handoffPath = c.lookup handoffPath ∨ c'.lookup handoffPath = none) ∧
          (ok = true → c'.lookup handoffPath = some text)) c :=
      wp_writeFileAtomic hA (fun c' _ hc' => ⟨hc', fun _ => hc', by simp⟩) (fun c' _ hc' => ⟨by simp, fun _ => hc'⟩)
    have hall := World.traced_and (World.traced_of_wp hwrite)
      (World.traced_of_asks (hs.asks_writeFileAtomic text))
    refine World.traced_bind (World.traced_mono hall ?_) (World.traced_mono hall ?_)
    · rintro o c' l ⟨⟨hcut, _⟩, hl⟩ hnone
      exact .inl ⟨hl, hcut hnone⟩
    · rintro o c' l ⟨⟨_, hdone⟩, hl⟩ recorded ha
      obtain ⟨hfalse, htrue⟩ := hdone recorded ha
      cases recorded with
      | false => exact World.traced_done (.inl ⟨by simpa using hl, hfalse rfl⟩)
      | true =>
        -- From here on the handoff is the one just recorded, until it is removed.
        rw [if_neg (by decide)]
        intro fates _
        refine .inr ⟨hbudget, fun text' htext' => ?_⟩
        rcases lookup_exec_keeps hs'.asks_bringIn fates with hend | hend
        · rw [htext, ← htext', hend, htrue rfl]
        · rw [hend] at htext'
          cases htext'

lemma Spaced.counts_runSwap {text : Bytes} (hs : Spaced h handoffPath)
    (hA : Faithful A (handoffPath ++ ascii ".tmp")) (hdoc : c.lookup handoffPath = some text)
    (hparse : parseHandoff J text = .ok h) (hthere : c.has h.targetNro = true ∨ c.has h.backupNro = true) :
    world.traced A (runSwap J handoffPath) (fun _ => Counts J h handoffPath c) c := by
  refine counts_prefix ⟨rfl, fun _ => trivial⟩ (wp_reading handoffPath) ?_
  rintro raw (rfl | rfl)
  · simp only [hdoc, hparse]
    refine counts_prefix (asks_probe _) (wp_probing _) ?_
    rintro _ rfl
    refine counts_prefix (asks_probe _) (wp_probing _) ?_
    rintro _ rfl
    refine counts_prefix (asks_probe _) (wp_probing _) ?_
    rintro _ rfl
    change world.traced A (act J handoffPath (some h) (decideRecovery (some h) (presenceOf c h))) _ c
    rcases decideRecovery_cases h (presenceOf c h) rfl with
      ⟨ha, _⟩ | ⟨ha, _⟩ | ⟨_, hT, hB, _⟩ | ⟨ha, _⟩ | ⟨ha, hbudget, _⟩
    · simp only [act, ha]
      exact counts_of_harmless (hs.permits.asks_rollBack _)
    · simp only [act, ha]
      exact counts_of_harmless (hs.permits.asks_restoreBackup _)
    · have hmissing : c.has h.targetNro = false := hT
      have hbare : c.has h.backupNro = false := hB
      simp [hmissing, hbare] at hthere
    · simp only [act, ha]
      exact counts_of_harmless trivial
    · rcases ha with ha | ha <;> simp only [act, ha] <;> exact hs.counts_swap hA hbudget
  · exact counts_of_harmless trivial

def budget (J : JsonLibrary) (handoffPath : Bytes) (c : Card) : ℕ :=
  match (c.lookup handoffPath).map (parseHandoff J) with
  | some (.ok h) => (h.maxAttempts.toInt - h.attempts.toInt).toNat
  | _ => 0

lemma budget_of_missing (hnone : c.lookup handoffPath = none) : budget J handoffPath c = 0 := by
  rw [budget, hnone]
  rfl

lemma budget_of_parse {text : Bytes} (hdoc : c.lookup handoffPath = some text)
    (hparse : parseHandoff J text = .ok h) :
    budget J handoffPath c = (h.maxAttempts.toInt - h.attempts.toInt).toNat := by
  rw [budget, hdoc, Option.map_some, hparse]

lemma Counts.spends {text : Bytes} {l : List (Event FileOp FileOp.Reply Fate)}
    (hcounts : Counts J h handoffPath c c' l) (hdoc : c.lookup handoffPath = some text)
    (hparse : parseHandoff J text = .ok h) :
    (if l.any (fun ev => isAttempt h ev.asked) then 1 else 0) + budget J handoffPath c' ≤
      budget J handoffPath c := by
  rcases hcounts with ⟨hl, hkept⟩ | ⟨hbudget, hrecorded⟩
  · have hnone : l.any (fun ev => isAttempt h ev.asked) = false := by
      simpa [List.any_eq_false] using hl
    rw [hnone, if_neg (by decide), Nat.zero_add]
    rcases hkept with hkept | hkept
    · rw [budget, hkept, ← budget]
    · rw [budget_of_missing hkept]
      exact Nat.zero_le _
  · have haccepted := (parseHandoff_accepted hparse).1
    have hlt := Handoff.attempts_lt hbudget
    rw [budget_of_parse hdoc hparse]
    have hleft : budget J handoffPath c' + 1 ≤ (h.maxAttempts.toInt - h.attempts.toInt).toNat := by
      cases hdoc' : c'.lookup handoffPath with
      | none =>
        rw [budget_of_missing hdoc']
        omega
      | some text' =>
        have hparse' := parseHandoff_serializeHandoff (haccepted.attempt hbudget) (hrecorded text' hdoc')
        rw [budget_of_parse hdoc' hparse', haccepted.attempts_succ hbudget]
        dsimp only
        omega
    split <;> omega

end Counting

def attemptRuns (J : JsonLibrary) (handoffPath : Bytes) (h : Handoff) : List (List Fate) → Card → ℕ
  | [], _ => 0
  | fates :: rest, c =>
    (if (world.exec (runSwap J handoffPath) fates c).log.any (fun ev => isAttempt h ev.asked) then 1 else 0) +
      attemptRuns J handoffPath h rest (afterRun J handoffPath c fates)

lemma Follows.isAttempt_eq {L : Layout} {sha : Digest} {h h' : Handoff} (hf : Follows L sha h)
    (hf' : Follows L sha h') : isAttempt h = isAttempt h' := by
  funext e
  cases e <;> simp only [isAttempt, hf.incoming, hf'.incoming, hf.target, hf'.target, hf.backup, hf'.backup]

namespace Terms

variable {t : Terms} {A : Event FileOp FileOp.Reply Fate → Prop} {h : Handoff} {c : Card}

lemma Safe.present {text : Bytes} (hsafe : t.Safe (t.L.view c)) (hdoc : c.lookup (t.L.name .handoff) = some text) :
    ∃ read, parseHandoff t.J text = .ok read ∧ Follows t.L t.sha read ∧
      (c.has read.targetNro = true ∨ c.has read.backupNro = true) := by
  obtain ⟨read, hparse, hf⟩ := (hsafe.elim Sound.instructed Displaced.instructed) text hdoc
  refine ⟨read, hparse, hf, ?_⟩
  rw [hf.target, hf.backup]
  rcases hsafe with hs | hd
  · obtain ⟨b, hb, _⟩ := hs.target
    exact .inl ((c.has_eq_true _).mpr ⟨b, hb⟩)
  · obtain ⟨b, hb, _⟩ := hd.backup
    exact .inr ((c.has_eq_true _).mpr ⟨b, hb⟩)

lemma exec_missing (J : JsonLibrary) (h : Handoff) {handoffPath : Bytes} (hnone : c.lookup handoffPath = none)
    (fates : List Fate) :
    afterRun J handoffPath c fates = c ∧
      ∀ ev ∈ (world.exec (runSwap J handoffPath) fates c).log, isAttempt h ev.asked = false := by
  have hread : (Stdio.read handoffPath).Asks (fun e => isAttempt h e = false) := ⟨rfl, fun _ => trivial⟩
  have hall := World.traced_and (World.traced_of_wp (A := fun _ => True) (wp_reading (c := c) handoffPath))
    (World.traced_of_asks hread)
  suffices htraced : world.traced (fun _ => True) (runSwap J handoffPath) (fun _ c' l =>
      c' = c ∧ ∀ ev ∈ l, isAttempt h ev.asked = false) c from htraced fates (fun _ _ => trivial)
  refine World.traced_bind (World.traced_mono hall ?_) (World.traced_mono hall ?_)
  · rintro o c' l ⟨⟨hcut, _⟩, hl⟩ ho
    exact ⟨hcut ho, hl⟩
  · rintro o c' l ⟨⟨_, hdone⟩, hl⟩ raw ho
    obtain ⟨rfl, hraw⟩ := hdone raw ho
    obtain rfl : raw = none := by simpa [hnone] using hraw
    exact World.traced_done ⟨rfl, by simpa using hl⟩

lemma run_spends (ha : t.Admits A) (hf : Follows t.L t.sha h) {fates : List Fate} (hsafe : t.safeOn c)
    (hA : ∀ ev ∈ (world.exec (runSwap t.J (t.L.name .handoff)) fates c).log, A ev) :
    (if (world.exec (runSwap t.J (t.L.name .handoff)) fates c).log.any (fun ev => isAttempt h ev.asked)
        then 1 else 0) + budget t.J (t.L.name .handoff) (afterRun t.J (t.L.name .handoff) c fates) ≤
      budget t.J (t.L.name .handoff) c := by
  cases hdoc : c.lookup (t.L.name .handoff) with
  | none =>
    obtain ⟨hcard, hlog⟩ := exec_missing t.J h hdoc fates
    have hnone : (world.exec (runSwap t.J (t.L.name .handoff)) fates c).log.any
        (fun ev => isAttempt h ev.asked) = false := by
      simpa [List.any_eq_false] using hlog
    rw [hcard, hnone, if_neg (by decide), Nat.zero_add]
  | some text =>
    obtain ⟨read, hparse, hread, hthere⟩ := Safe.present hsafe hdoc
    have hcounts := hread.spaced.counts_runSwap (t.L.temporary ▸ ha.record) hdoc hparse hthere fates hA
    rw [hf.isAttempt_eq hread]
    exact hcounts.spends hdoc hparse

lemma attemptRuns_le (ha : t.Admits A) (hf : Follows t.L t.sha h) (hfresh : ∀ b, t.fresh b → t.good b)
    {runs : List (List Fate)} (hsafe : t.safeOn c)
    (hA : ∀ ev ∈ runLogs t.J (t.L.name .handoff) runs c, A ev) :
    attemptRuns t.J (t.L.name .handoff) h runs c ≤ budget t.J (t.L.name .handoff) c := by
  induction runs generalizing c with
  | nil => exact Nat.zero_le _
  | cons fates rest ih =>
    simp only [runLogs, List.mem_append] at hA
    have hnow : ∀ ev ∈ (world.exec (runSwap t.J (t.L.name .handoff)) fates c).log, A ev :=
      fun ev hev => hA ev (.inl hev)
    have hready : t.ReadyAt c := fun _ _ _ _ _ => hsafe.ready hfresh
    have hlater := ih (safe_afterRun ha hsafe hready hnow) (fun ev hev => hA ev (.inr hev))
    have hspent := run_spends ha hf hsafe hnow
    rw [attemptRuns]
    omega

lemma attempt_recorded (ha : t.Admits A) (hf : Follows t.L t.sha h) {fates : List Fate} {n : ℕ}
    {ev : Event FileOp FileOp.Reply Fate} (hsafe : t.safeOn c)
    (hA : ∀ ev ∈ (world.exec (runSwap t.J (t.L.name .handoff)) fates c).log, A ev)
    (hn : (world.exec (runSwap t.J (t.L.name .handoff)) fates c).log[n]? = some ev)
    (hattempt : isAttempt h ev.asked = true) :
    ∃ text read text' next, c.lookup (t.L.name .handoff) = some text ∧ parseHandoff t.J text = .ok read ∧
      (world.exec (runSwap t.J (t.L.name .handoff)) (fates.take n) c).state.lookup (t.L.name .handoff) =
        some text' ∧ parseHandoff t.J text' = .ok next ∧
      next.attempts.toInt = read.attempts.toInt + 1 := by
  have hmem := List.mem_of_getElem? hn
  have htemporary := t.L.temporary ▸ ha.record
  cases hdoc : c.lookup (t.L.name .handoff) with
  | none =>
    exact absurd hattempt (by simp [(exec_missing t.J h hdoc fates).2 ev hmem])
  | some text =>
    obtain ⟨read, hparse, hread, hthere⟩ := Safe.present hsafe hdoc
    obtain ⟨haccepted, hu⟩ := parseHandoff_accepted hparse
    rw [hf.isAttempt_eq hread] at hattempt
    cases hbudget : read.attemptsExhausted with
    | true =>
      rcases hread.spaced.counts_runSwap htemporary hdoc hparse hthere fates hA with ⟨hl, _⟩ | ⟨hleft, _⟩
      · exact absurd hattempt (by simp [hl ev hmem])
      · simp [hbudget] at hleft
    | false =>
      obtain ⟨text', htext'⟩ := serializeHandoff_isSome (J := t.J) (h := { read with attempts := read.attempts + 1 })
        ⟨hu.fromVersion, hu.toVersion, hu.staged, hu.target, hu.backup, hu.forwarder⟩
      have hguarded := World.exec_asksIn (hread.spaced.guarded_runSwap htemporary hdoc hparse htext') hA hn hattempt
      exact ⟨text, read, text', _, rfl, hparse, hguarded,
        parseHandoff_serializeHandoff (haccepted.attempt hbudget) htext', haccepted.attempts_succ hbudget⟩

lemma run_of_spent {text : Bytes} {read : Handoff} (hsafe : t.safeOn c)
    (hdoc : c.lookup (t.L.name .handoff) = some text) (hparse : parseHandoff t.J text = .ok read)
    (hspent : read.attempts = read.maxAttempts) :
    ∃ out c', world.run .ok (runSwap t.J (t.L.name .handoff)) c = (some out, c') ∧
      out.result = .rolledBack ∧ c'.lookup (t.L.name .handoff) = none := by
  obtain ⟨read', hparse', hf, hthere⟩ := Safe.present hsafe hdoc
  obtain rfl : read = read' := Except.ok.inj (hparse.symm.trans hparse')
  have hexhausted : read.attemptsExhausted = true := by
    simp [Handoff.attemptsExhausted, hspent]
  have hs := hf.spaced
  have hst : read.stagedNro ≠ read.targetNro := by
    rw [hf.staged, hf.target]
    exact t.L.distinct.ne (by decide)
  obtain ⟨c', hrun, _, _, _, hgone⟩ := run_rollBack c hs.aside hst hs.target
    (decideRecovery (some read) (presenceOf c read)).reason
  refine ⟨⟨.rolledBack, (decideRecovery (some read) (presenceOf c read)).reason⟩, c', ?_, rfl, hgone⟩
  rw [run_runSwap c hdoc hparse, ← hrun]
  rcases decideRecovery_cases read (presenceOf c read) rfl with
    ⟨ha, _⟩ | ⟨_, hleft, _⟩ | ⟨_, hT, hB, _⟩ | ⟨_, _, ⟨hT, hB⟩ | ⟨_, hleft⟩⟩ | ⟨_, hleft, _⟩
  · simp only [act, ha]
  · simp [hexhausted] at hleft
  · simp_all [presenceOf]
  · simp_all [presenceOf]
  · simp [hexhausted] at hleft
  · simp [hexhausted] at hleft

end Terms

end NsxManager.Forwarder
