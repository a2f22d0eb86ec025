import NsxManager.Forwarder.Safety

/-! Any number of forwarder runs, each stopped wherever its fates end. -/

namespace NsxManager.Forwarder

open NsxManager.Core Lib Stdio

def afterRun (J : JsonLibrary) (handoffPath : Bytes) (c : Card) (fates : List Fate) : Card :=
  (world.exec (runSwap J handoffPath) fates c).state

def afterRuns (J : JsonLibrary) (handoffPath : Bytes) (runs : List (List Fate)) (c : Card) : Card :=
  runs.foldl (afterRun J handoffPath) c

def runLogs (J : JsonLibrary) (handoffPath : Bytes) :
    List (List Fate) → Card → List (Event FileOp FileOp.Reply Fate)
  | [], _ => []
  | fates :: rest, c =>
    (world.exec (runSwap J handoffPath) fates c).log ++
      runLogs J handoffPath rest (afterRun J handoffPath c fates)

lemma fate_of_mem_runLogs {J : JsonLibrary} {handoffPath : Bytes} {runs : List (List Fate)} {c : Card}
    {ev : Event FileOp FileOp.Reply Fate} (h : ev ∈ runLogs J handoffPath runs c) :
    ∃ fates ∈ runs, ev.fate ∈ fates := by
  induction runs generalizing c with
  | nil => simp [runLogs] at h
  | cons fates rest ih =>
    simp only [runLogs, List.mem_append] at h
    rcases h with h | h
    · exact ⟨fates, List.mem_cons_self, world.fate_mem_of_mem_log h⟩
    · obtain ⟨fs, hfs, hev⟩ := ih h
      exact ⟨fs, List.mem_cons_of_mem _ hfs, hev⟩

namespace Terms

variable {t : Terms} {A : Event FileOp FileOp.Reply Fate → Prop}

def ReadyAt (t : Terms) (c : Card) : Prop :=
  ∀ text h, t.L.view c .handoff = some text → parseHandoff t.J text = .ok h →
    (decideRecovery (some h) (presenceOf c h)).action ≠ .unrecoverable → t.Ready (t.L.view c)

lemma safe_afterRun (ha : t.Admits A) {c : Card} {fates : List Fate} (hsafe : t.safeOn c)
    (hready : t.ReadyAt c) (hA : ∀ ev ∈ (world.exec (runSwap t.J (t.L.name .handoff)) fates c).log, A ev) :
    t.safeOn (afterRun t.J (t.L.name .handoff) c fates) := by
  have hends := World.exec_ends (wp_runSwap ha hsafe hready) hA
  unfold Trace.Ends at hends
  unfold afterRun
  split at hends <;> exact hends

lemma safe_afterRuns (ha : t.Admits A) {runs : List (List Fate)} {c : Card} (hsafe : t.safeOn c)
    (hready : ∀ before fates after, runs = before ++ fates :: after →
      t.safeOn (afterRuns t.J (t.L.name .handoff) before c) →
      t.ReadyAt (afterRuns t.J (t.L.name .handoff) before c))
    (hA : ∀ ev ∈ runLogs t.J (t.L.name .handoff) runs c, A ev) :
    t.safeOn (afterRuns t.J (t.L.name .handoff) runs c) := by
  induction runs generalizing c with
  | nil => exact hsafe
  | cons fates rest ih =>
    simp only [runLogs, List.mem_append] at hA
    refine ih (safe_afterRun ha hsafe (hready [] fates rest rfl hsafe) (fun ev hev => hA ev (.inl hev))) ?_
      (fun ev hev => hA ev (.inr hev))
    intro before fs after hsplit
    exact hready (fates :: before) fs after (by rw [hsplit, List.cons_append])

end Terms

end NsxManager.Forwarder
