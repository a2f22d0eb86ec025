import NsxManager.SelfUpdate.Informed

/-! Writing by way of a temporary, and the moment at which neither the old file nor the new one has its name. -/

namespace NsxManager

open NsxManager.Core Lib Stdio

namespace SelfUpdate

def taken (path : Bytes) : Event FileOp FileOp.Reply Fate → Bool
  | ⟨.remove p, _, done⟩ => p == path && done
  | _ => false

def placed (path : Bytes) : Event FileOp FileOp.Reply Fate → Bool
  | ⟨.rename _ p, _, done⟩ => p == path && done
  | _ => false

def Bare (path : Bytes) (log : List (Event FileOp FileOp.Reply Fate)) : Prop :=
  log.any (taken path) = true ∧ log.any (placed path) = false

instance (path : Bytes) (log : List (Event FileOp FileOp.Reply Fate)) : Decidable (Bare path log) :=
  inferInstanceAs (Decidable (_ ∧ _))

def Whole (path old data : Bytes) (c : Card) : Prop := c.lookup path = some old ∨ c.lookup path = some data

def Truthful (ev : Event FileOp FileOp.Reply Fate) : Prop := ∀ bytes, ev.fate ≠ .corrupt bytes

section Story

variable {path tmp old data : Bytes} {c : Card}

lemma taken_of_spares {ev : Event FileOp FileOp.Reply Fate} (h : ev.asked.Spares path) : taken path ev = false := by
  obtain ⟨e, fate, reply⟩ := ev
  cases e with
  | remove p =>
    rw [taken, beq_eq_false_iff_ne.mpr h]
    rfl
  | _ => rfl

lemma placed_of_spares {ev : Event FileOp FileOp.Reply Fate} (h : ev.asked.Spares path) : placed path ev = false := by
  obtain ⟨e, fate, reply⟩ := ev
  cases e with
  | rename source p =>
    rw [placed, beq_eq_false_iff_ne.mpr h.2]
    rfl
  | _ => rfl

def Story (path old data : Bytes) (p : FileProgram Bool) (c : Card) : Prop :=
  world.traced Truthful p (fun _ c' log => Whole path old data c' ↔ ¬Bare path log) c

lemma story_done (h : c.lookup path = some old) (b : Bool) : Story path old data (pure b) c :=
  World.traced_done (iff_of_true (.inl h) (by simp [Bare]))

lemma story_call {e : FileOp} {next : e.Reply → FileProgram Bool} (hspares : e.Spares path)
    (hold : c.lookup path = some old)
    (hnext : ∀ fate r c', Truthful ⟨e, fate, r⟩ → world.step e fate c = (some r, c') → c'.lookup path = some old →
      Story path old data (next r) c') : Story path old data (.call e next) c := by
  refine World.traced_call (iff_of_true (.inl hold) (by simp [Bare])) (fun fate => ?_)
  have hkept : (world.step e fate c).2.lookup path = some old := (lookup_step hspares).trans hold
  rcases hstep : world.step e fate c with ⟨r | r, c'⟩
  · rw [hstep] at hkept
    exact iff_of_true (.inl hkept) (by simp [Bare])
  · rw [hstep] at hkept
    refine fun hhonest => World.traced_mono (hnext fate r c' hhonest hstep hkept) (fun _ _ log hlog => ?_)
    rw [hlog, Bare, Bare, List.any_cons, List.any_cons, taken_of_spares hspares, placed_of_spares hspares,
      Bool.false_or, Bool.false_or]

lemma story_drop (data : Bytes) (hne : path ≠ tmp) (hold : c.lookup path = some old) :
    Story path old data (remove tmp >>= fun _ => pure false) c :=
  story_call hne.symm hold (fun _ _ _ _ _ hkept => story_done hkept false)

lemma step_cut {e : FileOp} {fate : Fate} {c' : Card} (he : ∀ p bytes, e ≠ .append p bytes)
    (hstep : world.step e fate c = (none, c')) : c' = c := by
  cases fate with
  | torn n =>
    have htorn : tear e n c = c' := congrArg Prod.snd hstep
    cases e with
    | append p bytes => exact absurd rfl (he p bytes)
    | _ => exact htorn.symm
  | ok | fails n | corrupt bytes =>
    cases e with
    | abort => exact (congrArg Prod.snd hstep).symm
    | _ => cases congrArg Prod.fst hstep

abbrev finish (path tmp : Bytes) : FileProgram Bool := do
  let renamed ← rename tmp path
  if !renamed then
    let _ ← remove tmp
    return false
  return true

lemma traced_finish_bare (old : Bytes) (hne : path ≠ tmp) (hgone : c.lookup path = none)
    (htmp : c.lookup tmp = some data) : world.traced Truthful (finish path tmp)
      (fun _ c' log => Whole path old data c' ↔ log.any (placed path) = true) c := by
  have hnot : ∀ {c' : Card}, c'.lookup path = none → ¬Whole path old data c' := by
    intro c' hnone hwhole
    rcases hwhole with h | h <;> rw [hnone] at h <;> cases h
  refine World.traced_call (iff_of_false (hnot hgone) (by simp)) (fun fate => ?_)
  rcases hstep : world.step (.rename tmp path) fate c with ⟨r | r, c'⟩
  · obtain rfl := step_cut (fun _ _ => FileOp.noConfusion) hstep
    exact iff_of_false (hnot hgone) (by simp)
  · refine fun _ => ?_
    rcases step_rename hstep with ⟨rfl, rfl⟩ | ⟨rfl, rfl⟩
    · have hdone : (c.has tmp && !c.has path) = true := by simp [Card.has, hgone, htmp]
      rw [hdone]
      refine World.traced_done (iff_of_true (.inr ?_) (by simp [placed]))
      rw [c.lookup_move _ htmp hgone, if_pos rfl]
    · have hasks : (remove tmp >>= fun _ => pure false : FileProgram Bool).Asks (FileOp.Spares path) :=
        ⟨hne.symm, fun _ => trivial⟩
      intro fates _
      refine iff_of_false (hnot ((lookup_exec hasks fates).trans hgone)) ?_
      rw [List.any_cons, List.any_eq_false.mpr (fun ev hev => ?_)]
      · simp [placed]
      · rw [placed_of_spares (World.asked_of_mem_log _ hasks hev)]
        exact Bool.false_ne_true

lemma story_finish (data : Bytes) (hne : path ≠ tmp) (hold : c.lookup path = some old) :
    Story path old data (finish path tmp) c := by
  have hstart : Whole path old data c ↔ ¬Bare path [] := iff_of_true (.inl hold) (by simp [Bare])
  refine World.traced_call hstart (fun fate => ?_)
  rcases hstep : world.step (.rename tmp path) fate c with ⟨r | r, c'⟩
  · obtain rfl := step_cut (fun _ _ => FileOp.noConfusion) hstep
    exact hstart
  · obtain ⟨rfl, rfl⟩ : r = false ∧ c' = c := by
      have hthere : c.has path = true := (c.has_eq_true _).mpr ⟨old, hold⟩
      rcases step_rename hstep with ⟨rfl, rfl⟩ | hsame
      · exact ⟨by rw [hthere, Bool.not_true, Bool.and_false], c.move_onto _ _ hthere⟩
      · exact hsame
    refine fun _ => World.traced_mono (story_drop data hne hold) (fun _ _ log hlog => ?_)
    rw [hlog, Bare, Bare, List.any_cons, List.any_cons]
    simp [taken, placed]

lemma story_promote {written : Bool} (hne : path ≠ tmp) (hold : c.lookup path = some old)
    (htmp : written = true → c.lookup tmp = some data) : Story path old data (promote written path tmp) c := by
  refine story_call trivial hold (fun fate flushed c' _ hstep hkept => ?_)
  obtain rfl : c' = c := by cases fate <;> simp_all [world, step, perform, refuse, falsify]
  cases written with
  | false => exact story_drop data hne hkept
  | true =>
    cases flushed with
    | false => exact story_drop data hne hkept
    | true =>
      have hstart : Whole path old data c' ↔ ¬Bare path [] := iff_of_true (.inl hold) (by simp [Bare])
      refine World.traced_call hstart (fun fate => ?_)
      rcases hremove : world.step (.remove path) fate c' with ⟨r | r, d⟩
      · obtain rfl := step_cut (fun _ _ => FileOp.noConfusion) hremove
        exact hstart
      · refine fun _ => ?_
        rcases step_remove hremove with ⟨rfl, rfl⟩ | ⟨rfl, rfl⟩
        · have hthere : c'.has path = true := (c'.has_eq_true _).mpr ⟨old, hold⟩
          have hgone : (c'.erase path).lookup path = none := AList.lookup_erase _ _
          have hready : (c'.erase path).lookup tmp = some data := (AList.lookup_erase_ne hne.symm).trans (htmp rfl)
          rw [hthere]
          refine World.traced_mono (traced_finish_bare old hne hgone hready) (fun _ _ log hlog => ?_)
          rw [hlog, Bare, List.any_cons, List.any_cons]
          simp [taken, placed]
        · refine World.traced_mono (story_finish data hne hold) (fun _ _ log hlog => ?_)
          rw [hlog, Bare, Bare, List.any_cons, List.any_cons]
          simp [taken, placed]

lemma lookup_appended {fate : Fate} {written : Bool} {c' : Card} (hempty : c.lookup tmp = some [])
    (hhonest : Truthful ⟨.append tmp data, fate, written⟩)
    (hstep : world.step (.append tmp data) fate c = (some written, c')) (hwritten : written = true) :
    c'.lookup tmp = some data := by
  cases fate with
  | ok =>
    obtain rfl : extend c tmp data = c' := congrArg Prod.snd hstep
    simpa using Stdio.lookup_extended data hempty
  | fails n =>
    subst hwritten
    cases congrArg Prod.fst hstep
  | torn n => cases congrArg Prod.fst hstep
  | corrupt bytes => exact absurd rfl (hhonest bytes)

lemma lookup_created {fate : Fate} {c' : Card} (hstep : world.step (.create tmp) fate c = (some true, c')) :
    c'.lookup tmp = some [] := by
  cases fate with
  | ok | corrupt bytes =>
    obtain rfl : c.insert tmp [] = c' := congrArg Prod.snd hstep
    exact AList.lookup_insert _
  | fails n => cases congrArg Prod.fst hstep
  | torn n => cases congrArg Prod.fst hstep

lemma story_writeFileAtomic (hold : c.lookup path = some old) :
    Story path old data (Forwarder.writeFileAtomic path data) c := by
  have hne := ne_tmp path
  refine story_call hne.symm hold (fun _ opened c _ hcreated hold => ?_)
  cases opened with
  | false => exact story_done hold false
  | true =>
    refine story_call hne.symm hold (fun _ written c' hhonest hstep hold => ?_)
    exact story_promote hne hold (lookup_appended (lookup_created hcreated) hhonest hstep)

lemma story_writeAtomic (hold : c.lookup path = some old) :
    Story path old data (SdFileStore.writeAtomic path data) c := by
  have hne := ne_tmp path
  refine story_call hne.symm hold (fun _ opened c _ hcreated hold => ?_)
  cases opened with
  | false => exact story_done hold false
  | true =>
    cases data with
    | nil => exact story_promote hne hold (fun _ => lookup_created hcreated)
    | cons b bytes =>
      refine story_call hne.symm hold (fun _ written c' hhonest hstep hold => ?_)
      exact story_promote hne hold (lookup_appended (lookup_created hcreated) hhonest hstep)

end Story

theorem atomic_write_survives_iff (path old data : Bytes) (c : Card) (write : FileProgram Bool) (fates : List Fate)
    (hwrite : write = SdFileStore.writeAtomic path data ∨ write = Forwarder.writeFileAtomic path data)
    (hold : c.lookup path = some old) (hhonest : ∀ ev ∈ (world.exec write fates c).log, Truthful ev) :
    Whole path old data (world.exec write fates c).state ↔ ¬Bare path (world.exec write fates c).log := by
  rcases hwrite with rfl | rfl
  · exact story_writeAtomic hold fates hhonest
  · exact story_writeFileAtomic hold fates hhonest

namespace Sample

def occupied : Card := AList.insert (ascii "/h") [1] ∅

end Sample

theorem a_torn_write_keeps_the_old_file :
    Whole (ascii "/h") [1] [2, 3]
      (world.exec (SdFileStore.writeAtomic (ascii "/h") [2, 3]) [.ok, .torn 1] Sample.occupied).state := by
  refine (atomic_write_survives_iff (ascii "/h") [1] [2, 3] Sample.occupied _ _ (.inl rfl) rfl ?_).mpr
    (by decide +kernel)
  intro ev hev bytes heq
  have hfate := World.fate_mem_of_mem_log _ hev
  rw [heq] at hfate
  simp at hfate

theorem an_interrupted_write_leaves_nothing :
    Sample.occupied.lookup (ascii "/h") = some [1] ∧
      (world.exec (SdFileStore.writeAtomic (ascii "/h") [2, 3]) (List.replicate 4 .ok) Sample.occupied).state.lookup
        (ascii "/h") = none ∧
      (world.exec (Forwarder.writeFileAtomic (ascii "/h") [2, 3]) (List.replicate 4 .ok) Sample.occupied).state.lookup
        (ascii "/h") = none := by
  decide +kernel

end SelfUpdate

end NsxManager
