import NsxManager.Forwarder.Reports

/-! A spent budget: what a rollback leaves on the card, whatever fails on the way. -/

namespace NsxManager.Forwarder

open NsxManager.Core Lib Stdio

def Failed (e : FileOp) (l : Log) : Prop := ∃ ev ∈ l, ev.asked = e ∧ ev.fate.failing = true

/-- `rollBack` looks again, and puts the backup back if it then finds it and does not find the target. -/
def FindsGap (h : Handoff) (c : Card) (l : Log) : Prop :=
  ¬Failed (.probe h.backupNro) l ∧ (c.has h.targetNro = false ∨ Failed (.probe h.targetNro) l)

def Restores (h : Handoff) (handoffPath : Bytes) (c : Card) (l : Log) : Prop :=
  (FindsGap h c l ∨ c.lookup h.targetNro = c.lookup h.backupNro ∧ ¬Failed (.remove h.backupNro) l) ∧
    (c.has h.stagedNro = true → ¬Failed (.remove h.stagedNro) l) ∧
    (c.has handoffPath = true → ¬Failed (.remove handoffPath) l)

instance (e : FileOp) (l : Log) : Decidable (Failed e l) := inferInstanceAs (Decidable (∃ ev ∈ l, _))

instance (h : Handoff) (handoffPath : Bytes) (c : Card) (l : Log) : Decidable (Restores h handoffPath c l) :=
  inferInstanceAs (Decidable (((¬_ ∧ (_ ∨ _)) ∨ _ ∧ ¬_) ∧ (_ → ¬_) ∧ (_ → ¬_)))

section

variable {h : Handoff} {handoffPath : Bytes} {c : Card} {l l₁ l₂ : Log}

lemma failed_append {e : FileOp} : Failed e (l₁ ++ l₂) ↔ Failed e l₁ ∨ Failed e l₂ := by
  simp [Failed, or_and_right, exists_or]

lemma failed_cons {e : FileOp} {ev : Event FileOp FileOp.Reply Fate} :
    Failed e (ev :: l) ↔ ev.asked = e ∧ ev.fate.failing = true ∨ Failed e l := by
  simp [Failed]

lemma returns_remove {α : Type} {k : Bool → FileProgram α} {p : Bytes} {Q : α → Card → Log → Prop}
    (hk : ∀ fate r, fallible.returns (k r) (fun a c' l => Q a c' (⟨.remove p, fate, r⟩ :: l))
      (if fate.failing then c else c.erase p)) :
    fallible.returns (remove p >>= k) Q c := by
  refine World.returns_call (fun fate (r : Bool) c₁ hstep => ?_)
  have hstate : c₁ = if fate.failing then c else c.erase p := by
    cases fate with
    | torn n => cases congrArg Prod.fst hstep
    | _ => exact (congrArg Prod.snd hstep).symm
  rw [hstate]
  exact hk fate r

lemma lookup_removal {fate : Fate} {p q : Bytes} :
    (if fate.failing then c else c.erase p).lookup q =
      if q = p ∧ fate.failing = false then none else c.lookup q := by
  cases fate.failing <;> simp [Card.lookup_erase_eq]

structure Swept (h : Handoff) (handoffPath : Bytes) (c c' : Card) (l : Log) : Prop where
  same : ∀ q ∉ [h.backupNro, h.stagedNro, handoffPath], c'.lookup q = c.lookup q
  gone : ∀ p ∈ [h.backupNro, h.stagedNro, handoffPath],
    (c'.lookup p = none ↔ (c.has p = true → ¬Failed (.remove p) l))
  unasked : ∀ p, ¬Failed (.probe p) l

lemma returns_cleanUp (hnames : [h.backupNro, h.stagedNro, handoffPath].Nodup) :
    fallible.returns (cleanUp h handoffPath) (fun _ c' l => Swept h handoffPath c c' l) c := by
  simp only [List.nodup_cons, List.mem_cons, List.not_mem_nil, or_false, not_or, not_false_eq_true, List.nodup_nil,
    and_true] at hnames
  obtain ⟨⟨hbs, hbh⟩, hsh⟩ := hnames
  refine returns_remove (fun fate₁ r₁ => returns_remove (fun fate₂ r₂ => returns_remove (fun fate₃ r₃ =>
    World.returns_done ⟨fun q hq => ?_, fun p hp => ?_, fun p => ?_⟩)))
  · simp only [List.mem_cons, List.not_mem_nil, or_false, not_or] at hq
    simp [lookup_removal, hq]
  · simp only [List.mem_cons, List.not_mem_nil, or_false] at hp
    have hthere : ∀ {failing : Bool}, (¬failing = false → c.lookup p = none) ↔ (c.has p = true → failing = false) := by
      intro failing
      cases failing <;> simp [Card.has]
    rcases hp with rfl | rfl | rfl
    · simpa [lookup_removal, failed_cons, Failed, hbs, hbh, Ne.symm hbs, Ne.symm hbh] using hthere
    · simpa [lookup_removal, failed_cons, Failed, hbs, hsh, Ne.symm hbs, Ne.symm hsh] using hthere
    · simpa [lookup_removal, failed_cons, Failed, hbh, hsh, Ne.symm hbh, Ne.symm hsh] using hthere
  · simp [Failed]

lemma returns_rolled (hnames : [handoffPath, h.stagedNro, h.targetNro, h.backupNro].Nodup) (why : Bytes) :
    fallible.returns (cleanUp h handoffPath >>= fun _ => pure (⟨.rolledBack, why⟩ : SwapOutcome))
      (fun _ c' l => c'.lookup h.targetNro = c.lookup h.targetNro ∧ Swept h handoffPath c c' l) c := by
  simp only [List.nodup_cons, List.mem_cons, List.not_mem_nil, or_false, not_or] at hnames
  refine World.returns_bind (World.returns_mono (returns_cleanUp (by simp; tauto)) (fun _ c' l hl => ?_))
  refine World.returns_done ?_
  rw [List.append_nil]
  exact ⟨hl.same _ (by simp; tauto), hl⟩

/-- The put-back, where it succeeds: only the target and the backup change. -/
lemma returns_moved (hne : h.backupNro ≠ h.targetNro) :
    fallible.returns (renameOver h.backupNro h.targetNro) (fun ok c' l => ok = true →
      c'.lookup h.targetNro = c.lookup h.backupNro ∧ c'.lookup h.backupNro = none ∧
        (∀ q, q ≠ h.backupNro → q ≠ h.targetNro → c'.lookup q = c.lookup q) ∧
        ∀ e, e ≠ .remove h.targetNro → e ≠ .rename h.backupNro h.targetNro → ¬Failed e l) c := by
  refine returns_remove (fun fate r => World.returns_call (fun fate' (ok : Bool) c' hstep =>
    World.returns_done ?_))
  rintro rfl
  rw [fallible_step (.inl (by simp))] at hstep
  rcases step_rename hstep with ⟨hmoved, rfl⟩ | ⟨hmoved, _⟩
  · simp only [eq_comm (a := true), Bool.and_eq_true, Bool.not_eq_true', Card.has_eq_true, Card.has_eq_false] at hmoved
    obtain ⟨⟨bytes, hkept⟩, hfree⟩ := hmoved
    have hold : c.lookup h.backupNro = some bytes := by simpa [lookup_removal, hne] using hkept
    refine ⟨?_, ?_, fun q hb ht => ?_, fun e hremove hrename => ?_⟩
    · rw [Card.lookup_move _ _ hkept hfree, if_pos rfl, hold]
    · rw [Card.lookup_move _ _ hkept hfree, if_neg hne, if_pos rfl]
    · rw [Card.lookup_move_of_ne _ _ hb ht, lookup_removal]
      simp [ht]
    · simp [Failed, hremove.symm, hrename.symm]
  · cases hmoved

lemma restores_in_place {c' : Card} {l l' : Log} (hbackup : c.has h.backupNro = true)
    (hsame : c'.lookup h.targetNro = c.lookup h.targetNro) (hgap : ¬FindsGap h c (l ++ l'))
    (hl : ∀ p, ¬Failed (.remove p) l) (hl' : Swept h handoffPath c c' l') :
    (c'.lookup h.targetNro = c.lookup h.backupNro ∧ ∀ p ∈ [h.backupNro, h.stagedNro, handoffPath],
      c'.lookup p = none) ↔ Restores h handoffPath c (l ++ l') := by
  simp [Restores, hgap, hsame, hl'.gone, failed_append, hl, hbackup, and_assoc]

lemma returns_rollBack (hnames : [handoffPath, h.stagedNro, h.targetNro, h.backupNro].Nodup) (why : Bytes)
    (hbackup : c.has h.backupNro = true) :
    fallible.returns (rollBack h handoffPath why) (fun out c' l => out.result = .rolledBack →
      ((c'.lookup h.targetNro = c.lookup h.backupNro ∧ ∀ p ∈ [h.backupNro, h.stagedNro, handoffPath],
        c'.lookup p = none) ↔ Restores h handoffPath c l)) c := by
  have hne : h.backupNro ≠ h.targetNro ∧ h.stagedNro ≠ h.targetNro ∧ handoffPath ≠ h.targetNro ∧
      h.stagedNro ≠ h.backupNro ∧ handoffPath ≠ h.backupNro := by
    simp only [List.nodup_cons, List.mem_cons, List.not_mem_nil, or_false, not_or] at hnames
    tauto
  obtain ⟨hbt, hst, hht, hsb, hhb⟩ := hne
  refine returns_probe (fun fate kept hkept => ?_)
  rw [hbackup, Bool.true_and] at hkept
  cases kept with
  | false =>
    have hmissed : fate.failing = true := by simpa using hkept
    refine World.returns_mono (returns_rolled hnames why) ?_
    rintro _ c' l ⟨hsame, hl⟩ _
    exact restores_in_place (l := [⟨.probe h.backupNro, fate, false⟩]) hbackup hsame
      (by simp [FindsGap, failed_cons, hmissed]) (by simp [Failed]) hl
  | true =>
    have hseen : fate.failing = false := by simpa using hkept
    rw [if_pos rfl]
    refine returns_probe (fun fate₂ inPlace hplace => ?_)
    cases inPlace with
    | true =>
      obtain ⟨hpresent, hseen₂⟩ : c.has h.targetNro = true ∧ fate₂.failing = false := by
        simpa [eq_comm (a := true)] using hplace
      refine World.returns_mono (returns_rolled hnames why) ?_
      rintro _ c' l ⟨hsame, hl⟩ _
      exact restores_in_place (l := [⟨.probe h.backupNro, fate, true⟩, ⟨.probe h.targetNro, fate₂, true⟩])
        hbackup hsame (by simp [FindsGap, failed_cons, hpresent, hseen₂, hl.unasked, hbt]) (by simp [Failed]) hl
    | false =>
      have hgap : c.has h.targetNro = false ∨ fate₂.failing = true := by
        cases hT : c.has h.targetNro with
        | false => exact .inl rfl
        | true => exact .inr (by simpa [hT] using hplace)
      refine World.returns_bind (World.returns_mono (returns_moved hbt) (fun ok c₁ l₁ hmoved => ?_))
      cases ok with
      | false => exact World.returns_done (by simp [fail])
      | true =>
        obtain ⟨htarget, hgone, hsame, hl₁⟩ := hmoved rfl
        refine World.returns_mono (returns_rolled hnames why) ?_
        rintro _ c' l₂ ⟨hsame₂, hl₂⟩ _
        have hfinds : FindsGap h c (⟨.probe h.backupNro, fate, true⟩ :: ⟨.probe h.targetNro, fate₂, false⟩ ::
            (l₁ ++ l₂)) := by
          refine ⟨?_, hgap.imp_right (fun hf => ?_)⟩
          · simp [failed_cons, failed_append, hseen, hbt.symm, hl₁, hl₂.unasked]
          · simp [failed_cons, hf]
        have hunmoved : ∀ q, q ≠ h.targetNro → ¬Failed (.remove q) l₁ :=
          fun q hq => hl₁ _ (by simpa using hq) (by simp)
        have hstaged : c₁.has h.stagedNro = c.has h.stagedNro := by rw [Card.has, hsame _ hsb hst, Card.has]
        have hhandoff : c₁.has handoffPath = c.has handoffPath := by rw [Card.has, hsame _ hhb hht, Card.has]
        simp [Restores, hfinds, hsame₂, htarget, hl₂.gone, failed_cons, failed_append, hunmoved,
          (c₁.has_eq_false _).mpr hgone, hst, hht, hstaged, hhandoff]

def SwapOutcome.Forward (out : SwapOutcome) : Prop := out.result ≠ .rolledBack

lemma yields_land : (land h handoffPath).Yields SwapOutcome.Forward := by
  refine .bind (fun landed => ?_)
  cases landed with
  | false => exact .bind (fun _ => .bind (fun _ => SwapResult.noConfusion))
  | true =>
    refine .bind (fun installed => ?_)
    split
    · exact .bind (fun _ => SwapResult.noConfusion)
    · exact .bind (fun _ => SwapResult.noConfusion)

lemma yields_exchange : (exchange h handoffPath).Yields SwapOutcome.Forward := by
  have hgo : ∀ aside : Bool, Program.Yields SwapOutcome.Forward
      (if !aside then do
        let _ ← remove (incomingNro h)
        pure (fail .ioFailed (ascii "could not move the current version aside"))
      else land h handoffPath) := by
    intro aside
    cases aside with
    | false => exact .bind (fun _ => SwapResult.noConfusion)
    | true => exact yields_land
  refine .bind (fun present => ?_)
  cases present with
  | false => exact hgo true
  | true => exact .bind hgo

lemma yields_bringIn : (bringIn h handoffPath).Yields SwapOutcome.Forward := by
  refine .bind (fun actual => ?_)
  cases actual with
  | none => exact SwapResult.noConfusion
  | some digest =>
    dsimp only
    split
    · exact SwapResult.noConfusion
    · refine .bind (fun copied => ?_)
      cases copied with
      | false => exact .bind (fun _ => SwapResult.noConfusion)
      | true => exact yields_exchange

lemma yields_swap {J : JsonLibrary} : (swap J h handoffPath).Yields SwapOutcome.Forward := by
  rw [swap]
  cases serializeHandoff J { h with attempts := h.attempts + 1 } with
  | none => exact fun impossible => Empty.elim impossible
  | some text =>
    refine .bind (fun recorded => ?_)
    cases recorded with
    | false => exact SwapResult.noConfusion
    | true => exact yields_bringIn

lemma yields_restoreBackup (reason : Bytes) : (restoreBackup h handoffPath reason).Yields SwapOutcome.Forward := by
  refine .bind (fun restored => ?_)
  cases restored with
  | false => exact SwapResult.noConfusion
  | true => exact .bind (fun _ => SwapResult.noConfusion)

end

theorem rollBack_restores_iff (J : JsonLibrary) (handoffPath text old : Bytes) (h : Handoff) (c : Card)
    (fates : List Fate) (out : SwapOutcome) (hdoc : c.lookup handoffPath = some text)
    (hparse : parseHandoff J text = .ok h)
    (hdistinct : [handoffPath, h.stagedNro, h.targetNro, h.backupNro].Nodup)
    (hbackup : c.lookup h.backupNro = some old)
    (hout : (fallible.exec (runSwap J handoffPath) fates c).outcome = some out) (hresult : out.result = .rolledBack) :
    let t := fallible.exec (runSwap J handoffPath) fates c
    (t.state.lookup h.targetNro = some old ∧ t.state.lookup h.backupNro = none ∧
        t.state.lookup h.stagedNro = none ∧ t.state.lookup handoffPath = none) ↔
      Restores h handoffPath c (t.log.drop 4) := by
  suffices hreturns : fallible.returns (runSwap J handoffPath) (fun out c' l => out.result = .rolledBack →
      ((c'.lookup h.targetNro = c.lookup h.backupNro ∧ ∀ p ∈ [h.backupNro, h.stagedNro, handoffPath],
        c'.lookup p = none) ↔ Restores h handoffPath c (l.drop 4))) c by
    simpa [hbackup] using hreturns fates out hout hresult
  refine returns_read (fun fate raw hraw => ?_)
  rw [hdoc] at hraw
  rcases hraw with rfl | rfl
  · simp only [hparse]
    refine returns_probe (fun fate₁ staged h₁ => returns_probe (fun fate₂ target h₂ =>
      returns_probe (fun fate₃ backup h₃ => ?_)))
    have hforward : ∀ {prog : FileProgram SwapOutcome}, prog.Yields SwapOutcome.Forward →
        fallible.returns prog (fun out c' l => out.result = .rolledBack →
          ((c'.lookup h.targetNro = c.lookup h.backupNro ∧ ∀ p ∈ [h.backupNro, h.stagedNro, handoffPath],
            c'.lookup p = none) ↔ Restores h handoffPath c l)) c :=
      fun hy => World.returns_mono (World.returns_of_yields hy) (fun _ _ _ hne hrolled => absurd hrolled hne)
    rcases decideRecovery_cases h { handoff := true, staged := staged, target := target, backup := backup } rfl with
      ⟨ha, _⟩ | ⟨ha, _⟩ | ⟨ha, _⟩ | ⟨ha, _⟩ | ⟨ha | ha, _⟩ <;> simp only [act, ha]
    · exact returns_rollBack hdistinct _ ((c.has_eq_true _).mpr ⟨old, hbackup⟩)
    · exact hforward (yields_restoreBackup _)
    · exact hforward yields_swap
    · exact World.returns_done SwapResult.noConfusion
    · exact hforward yields_swap
    · exact hforward yields_swap
  · exact World.returns_done SwapResult.noConfusion

namespace Sample

def unverified : Card := displaced.insert (ascii "/m") [9]

/-- The second look at the target fails, so that the backup is put back over it. -/
def overlooked : List Fate := List.replicate 5 .ok ++ [.fails 0] ++ List.replicate 5 .ok

end Sample

theorem rollBack_restores_over_unverified :
    (Sample.report Sample.overlooked Sample.unverified).state.lookup (ascii "/m") = some [1] ∧
      (Sample.report Sample.overlooked Sample.unverified).state.lookup (ascii "/b") = none ∧
      (Sample.report Sample.overlooked Sample.unverified).state.lookup (ascii "/s") = none ∧
      (Sample.report Sample.overlooked Sample.unverified).state.lookup (ascii "/h") = none :=
  (rollBack_restores_iff JsonCodec.library (ascii "/h") Sample.instruction [1] Sample.spent Sample.unverified
    Sample.overlooked Sample.abandoned (by decide +kernel) Sample.parseHandoff_instruction (by decide)
    (by decide +kernel) (by decide +kernel) rfl).mpr (by decide +kernel)

theorem rollBack_keeps_unverified :
    parseHandoff JsonCodec.library Sample.instruction = .ok Sample.spent ∧
      Sample.spent.maxAttempts ≤ Sample.spent.attempts ∧
      Sample.unverified.lookup (ascii "/h") = some Sample.instruction ∧
      Sample.unverified.lookup Sample.spent.backupNro = some [1] ∧
      (Sample.report (List.replicate 9 .ok) Sample.unverified).outcome.map SwapOutcome.result = some .rolledBack ∧
      (Sample.report (List.replicate 9 .ok) Sample.unverified).state.lookup Sample.spent.targetNro = some [9] ∧
      (Sample.report (List.replicate 9 .ok) Sample.unverified).state.lookup Sample.spent.backupNro = none :=
  ⟨Sample.parseHandoff_instruction, by decide +kernel⟩

end NsxManager.Forwarder
