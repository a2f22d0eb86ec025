import NsxManager.Core.Text
import NsxManager.Lib.Interference

/-! One long operation off the UI thread: the flags the two threads share, one step per access. -/

namespace NsxManager.Ui

open NsxManager.Core Lib Shared

structure Status where
  headline : Bytes := []
  detail : Bytes := []
  current : Int32 := 0
  total : Int32 := 0
  deriving DecidableEq

inductive Worker (W : Type) where
  | none
  | working (work : W)
  | returned (work : W)
  | stopped (work : W)
  | exited (work : W)
  deriving DecidableEq

inductive Note where
  | created (n : ℕ)
  | asked (n : ℕ) (told : Bool)
  | returned (n : ℕ)
  | completed (n : ℕ)
  | reported (n : ℕ)
  | discarded (n : ℕ)
  | cancelled (n : ℕ)
  deriving DecidableEq

/-- The job and the results its work leaves for the UI. The history, newest first, is not in the source. -/
structure Memory (W R : Type) where
  running : Bool := false
  finished : Bool := false
  cancel : Bool := false
  status : Status := {}
  thread : Worker W := .none
  results : R
  serial : ℕ := 0
  history : List Note := []

inductive Flag where
  | running
  | finished
  | cancel
  deriving DecidableEq

inductive JobOp (W : Type) where
  | load (flag : Flag)
  | store (flag : Flag) (value : Bool)
  | exchangeFinished
  | status
  | join
  | create (work : W)

def JobOp.Reply {W : Type} : JobOp W → Type
  | .load _ => Bool
  | .exchangeFinished => Bool
  | .status => Status
  | _ => Unit

/-- The body of a job: what it does next to the results and the status, and whether it has come to its end. -/
structure Duties (W A R : Type) where
  act : A → W → R → Status → Option (W × R × Status)
  ended : W → Bool

inductive WorkerTurn (A : Type) where
  | cancelRequested
  | act (a : A)
  | leave
  | clearRunning
  | setFinished

section Machine

variable {W A R : Type}

def Memory.flag (s : Memory W R) : Flag → Bool
  | .running => s.running
  | .finished => s.finished
  | .cancel => s.cancel

def Memory.noted (s : Memory W R) (note : Note) : Memory W R := { s with history := note :: s.history }

def Memory.joined (s : Memory W R) : Memory W R := { s with thread := .none }

def Memory.store (s : Memory W R) : Flag → Bool → Memory W R
  | .running, value => { s with running := value }
  | .finished, value =>
    if s.finished && !value then { s.noted (.discarded s.serial) with finished := value }
    else { s with finished := value }
  | .cancel, true => { s.noted (.cancelled s.serial) with cancel := true }
  | .cancel, false => { s with cancel := false }

/-- A thread object that still holds a thread cannot be given another: the program ends there. -/
def Memory.own : (e : JobOp W) → Memory W R → Option (e.Reply × Memory W R)
  | .load flag, s => some (s.flag flag, s)
  | .store flag value, s => some ((), s.store flag value)
  | .exchangeFinished, s =>
    some (s.finished, if s.finished then { s.noted (.reported s.serial) with finished := false } else s)
  | .status, s => some (s.status, s)
  | .join, s =>
    match s.thread with
    | .none => some ((), s)
    | .exited _ => some ((), s.joined)
    | _ => none
  | .create work, s =>
    match s.thread with
    | .none => some ((), { s.noted (.created (s.serial + 1)) with thread := .working work, serial := s.serial + 1 })
    | _ => none

def Memory.workerTurn (D : Duties W A R) (turn : WorkerTurn A) (s : Memory W R) : Option (Memory W R) :=
  match turn, s.thread with
  | .cancelRequested, .working _ => some (s.noted (.asked s.serial s.cancel))
  | .act a, .working work =>
    (D.act a work s.results s.status).map (fun (w, r, t) => { s with thread := .working w, results := r, status := t })
  | .leave, .working work =>
    if D.ended work then some { s.noted (.returned s.serial) with thread := .returned work } else none
  | .clearRunning, .returned work => some { s with running := false, thread := .stopped work }
  | .setFinished, .stopped work =>
    some { s.noted (.completed s.serial) with finished := true, thread := .exited work }
  | _, _ => none

def job (D : Duties W A R) : Shared (JobOp W) JobOp.Reply (WorkerTurn A) (Memory W R) :=
  ⟨Memory.own, Memory.workerTurn D⟩

end Machine

abbrev JobProgram (W α : Type) := Program (JobOp W) JobOp.Reply α

namespace BackgroundJob

variable {W : Type}

def running : JobProgram W Bool := .call (.load .running) .done

def store (flag : Flag) (value : Bool) : JobProgram W Unit := .call (.store flag value) .done

def create (work : W) : JobProgram W Unit := .call (.create work) .done

def join : JobProgram W Unit := .call .join .done

def start (work : W) : JobProgram W Bool := do
  if ← running then
    return false
  join
  store .cancel false
  store .finished false
  store .running true
  create work
  return true

def poll : JobProgram W Status := .call .status .done

def takeFinished : JobProgram W Bool := .call .exchangeFinished .done

def requestCancel : JobProgram W Unit := store .cancel true

end BackgroundJob

inductive Stage where
  | idle
  | starting
  | working
  | returned
  | completed
  deriving DecidableEq

structure Phase where
  stage : Stage := .idle
  serial : ℕ := 0
  cancelled : Bool := false
  deriving DecidableEq

/-- The protocol: one thread after the other, each completion reported or discarded once, and a cancel told to the
thread it was meant for. -/
inductive Follows : Phase → Note → Phase → Prop
  | created {n : ℕ} {c : Bool} : Follows ⟨.idle, n, c⟩ (.created (n + 1)) ⟨.working, n + 1, false⟩
  | recreated {n : ℕ} {c : Bool} : Follows ⟨.starting, n, c⟩ (.created (n + 1)) ⟨.working, n + 1, false⟩
  | asked {n : ℕ} {c : Bool} : Follows ⟨.working, n, c⟩ (.asked n c) ⟨.working, n, c⟩
  | returned {n : ℕ} {c : Bool} : Follows ⟨.working, n, c⟩ (.returned n) ⟨.returned, n, c⟩
  | completed {n : ℕ} {c : Bool} : Follows ⟨.returned, n, c⟩ (.completed n) ⟨.completed, n, c⟩
  | reported {n : ℕ} {c : Bool} : Follows ⟨.completed, n, c⟩ (.reported n) ⟨.idle, n, c⟩
  | discarded {n : ℕ} {c : Bool} : Follows ⟨.completed, n, c⟩ (.discarded n) ⟨.starting, n, c⟩
  | cancelled {n : ℕ} {c : Bool} {stage : Stage} (h : stage ≠ .starting) :
    Follows ⟨stage, n, c⟩ (.cancelled n) ⟨stage, n, true⟩

inductive Accepts : List Note → Phase → Prop
  | nil : Accepts [] {}
  | cons {early : List Note} {q q' : Phase} {note : Note} (h : Accepts early q) (hnote : Follows q note q') :
    Accepts (note :: early) q'

namespace Accepts

variable {q : Phase} {n : ℕ} {note : Note} {late early history : List Note}

lemma of_append (h : Accepts (late ++ early) q) : ∃ q', Accepts early q' := by
  induction late generalizing q with
  | nil => exact ⟨q, h⟩
  | cons note late ih =>
    cases h with
    | cons h _ => exact ih h

lemma serial_le (h : Accepts history q) (hn : .cancelled n ∈ history) : n ≤ q.serial := by
  induction h with
  | nil => cases hn
  | cons h hnote ih =>
    cases hnote with
    | cancelled _ =>
      rcases List.mem_cons.mp hn with heq | hn
      · cases heq
        exact le_rfl
      · exact ih hn
    | created | recreated => exact (ih ((List.mem_cons.mp hn).resolve_left nofun)).trans (Nat.le_succ _)
    | _ => exact ih ((List.mem_cons.mp hn).resolve_left nofun)

lemma cancelled_iff (h : Accepts history q) : q.cancelled = true ↔ .cancelled q.serial ∈ history := by
  induction h with
  | nil => simp
  | cons h hnote ih =>
    cases hnote with
    | created | recreated =>
      -- the notes so far are about earlier threads
      simpa using fun hn => Nat.not_succ_le_self _ (serial_le h hn)
    | cancelled _ => simp
    | _ => simpa using ih

lemma returned_mem (h : Accepts history q) (hstage : q.stage = .returned ∨ q.stage = .completed) :
    .returned q.serial ∈ history := by
  induction h with
  | nil => simp at hstage
  | cons h hnote ih =>
    cases hnote with
    | returned => exact List.mem_cons_self
    | completed => exact List.mem_cons_of_mem _ (ih (.inl rfl))
    | cancelled _ => exact List.mem_cons_of_mem _ (ih hstage)
    | _ => simp at hstage

lemma completed_mem (h : Accepts history q) (hstage : q.stage ≠ .working ∧ q.stage ≠ .returned) :
    q.serial = 0 ∨ .completed q.serial ∈ history := by
  induction h with
  | nil => exact .inl rfl
  | cons h hnote ih =>
    cases hnote with
    | completed => exact .inr List.mem_cons_self
    | reported | discarded => exact (ih ⟨nofun, nofun⟩).imp_right (List.mem_cons_of_mem _)
    | cancelled _ => exact (ih hstage).imp_right (List.mem_cons_of_mem _)
    | created | recreated | asked => exact absurd rfl hstage.1
    | returned => exact absurd rfl hstage.2

def waiting (q : Phase) (n : ℕ) : ℕ := if q.stage = .completed ∧ q.serial = n then 1 else 0

lemma balance (h : Accepts history q) :
    history.count (.reported n) + history.count (.discarded n) + waiting q n = history.count (.completed n) := by
  induction h with
  | nil => rfl
  | cons h hnote ih =>
    cases hnote with
    | completed | reported | discarded =>
      simp only [waiting, List.count_cons] at ih ⊢
      grind
    | _ => simpa [waiting] using ih

lemma completed_once (h : Accepts history q) : history.count (.completed n) ≤ 1 ∧
    (q.serial < n ∨ q.serial = n ∧ (q.stage = .working ∨ q.stage = .returned) → history.count (.completed n) = 0) := by
  induction h with
  | nil => simp
  | cons h hnote ih =>
    cases hnote with
    | completed =>
      simp only [List.count_cons] at ih ⊢
      grind
    | _ => grind

lemma after_discarded (h : Accepts (late ++ .discarded n :: early) q) :
    late = [] ∨ ∃ later, late = later ++ [.created (n + 1)] := by
  rcases List.eq_nil_or_concat late with rfl | ⟨later, note, rfl⟩
  · exact .inl rfl
  · obtain ⟨q', h⟩ := of_append (by simpa using h : Accepts (later ++ note :: .discarded n :: early) q)
    rcases h with _ | ⟨_ | ⟨_, hdiscarded⟩, hnote⟩
    cases hdiscarded with
    | discarded =>
      cases hnote with
      | recreated => exact .inr ⟨later, by simp⟩
      | cancelled hstage => exact absurd rfl hstage

lemma idle_after_reported (h : Accepts (late ++ .reported n :: early) q) (hlate : ∀ m, .created m ∉ late) :
    q.stage = .idle := by
  induction late generalizing q with
  | nil =>
    rcases h with _ | ⟨_, hnote⟩
    cases hnote
    rfl
  | cons note late ih =>
    rcases h with _ | ⟨h, hnote⟩
    have hidle := ih h (fun m hm => hlate m (List.mem_cons_of_mem _ hm))
    cases hnote with
    | created | recreated => exact absurd List.mem_cons_self (hlate _)
    | cancelled _ => exact hidle
    | _ => cases hidle

end Accepts

section Lawful

variable {W A R α : Type}

def Worker.busy : Worker W → Bool
  | .working _ | .returned _ => true
  | _ => false

def Worker.gone : Worker W → Bool
  | .none | .exited _ => true
  | _ => false

def Worker.stage (finished : Bool) : Worker W → Stage
  | .working _ => .working
  | .returned _ | .stopped _ => .returned
  | .none | .exited _ => if finished then .completed else .idle

structure Memory.Accepted (s : Memory W R) (q : Phase) : Prop where
  accepts : Accepts s.history q
  serial : q.serial = s.serial
  finished : q.stage = .completed ↔ s.finished = true
  gone : q.stage = .idle → s.thread.gone = true

structure Lawful (s : Memory W R) : Prop where
  accepts : Accepts s.history ⟨s.thread.stage s.finished, s.serial, s.cancel⟩
  running : s.running = s.thread.busy
  finished : s.finished = true → s.thread.gone = true

def Proper (e : JobOp W) (s : Memory W R) : Prop :=
  (∃ q, s.Accepted q) ∧ ∀ work, e = .create work → s.thread = .none

variable {s s' : Memory W R} {D : Duties W A R}

lemma Lawful.accepted (h : Lawful s) : s.Accepted ⟨s.thread.stage s.finished, s.serial, s.cancel⟩ := by
  refine ⟨h.accepts, rfl, ⟨fun hstage => ?_, fun hfinished => ?_⟩, fun hstage => ?_⟩
  · cases hthread : s.thread <;> simp_all [Worker.stage]
  · have hgone := h.finished hfinished
    cases hthread : s.thread <;> simp_all [Worker.stage, Worker.gone]
  · cases hthread : s.thread <;> simp_all [Worker.stage, Worker.gone]

inductive Moves (D : Duties W A R) (s : Memory W R) : Memory W R → Prop
  | ask {work : W} (h : s.thread = .working work) : Moves D s (s.noted (.asked s.serial s.cancel))
  | act {work work' : W} {a : A} {r : R} {t : Status} (h : s.thread = .working work)
    (hact : D.act a work s.results s.status = some (work', r, t)) :
    Moves D s { s with thread := .working work', results := r, status := t }
  | leave {work : W} (h : s.thread = .working work) (hended : D.ended work = true) :
    Moves D s { s.noted (.returned s.serial) with thread := .returned work }
  | clearRunning {work : W} (h : s.thread = .returned work) :
    Moves D s { s with running := false, thread := .stopped work }
  | setFinished {work : W} (h : s.thread = .stopped work) :
    Moves D s { s.noted (.completed s.serial) with finished := true, thread := .exited work }

lemma moves_of_workerTurn {turn : WorkerTurn A} (h : s.workerTurn D turn = some s') : Moves D s s' := by
  obtain ⟨running, finished, cancel, status, thread, results, serial, history⟩ := s
  cases turn <;> cases thread <;> simp only [Memory.workerTurn, reduceCtorEq] at h
  case cancelRequested.working work => exact Option.some.inj h ▸ .ask rfl
  case act.working a work =>
    obtain ⟨⟨work', r, t⟩, hact, rfl⟩ := Option.map_eq_some_iff.mp h
    exact .act rfl hact
  case leave.working work =>
    obtain ⟨hended, heq⟩ := Option.ite_none_right_eq_some.mp h
    exact Option.some.inj heq ▸ .leave rfl hended
  case clearRunning.returned work => exact Option.some.inj h ▸ .clearRunning rfl
  case setFinished.stopped work => exact Option.some.inj h ▸ .setFinished rfl

lemma still_of_gone (h : s.thread.gone = true) (turn : WorkerTurn A) : s.workerTurn D turn = none := by
  cases hturn : s.workerTurn D turn with
  | none => rfl
  | some s' =>
    cases moves_of_workerTurn hturn with
    | ask hthread | act hthread | leave hthread | clearRunning hthread | setFinished hthread =>
      rw [hthread] at h
      cases h

lemma later_gone (hgone : s.thread.gone = true) (h : (job D).Later s s') : s' = s := by
  induction h with
  | refl => rfl
  | tail _ hturn ih =>
    obtain ⟨turn, hturn⟩ := hturn
    subst ih
    exact absurd ((still_of_gone (D := D) hgone turn).symm.trans hturn) nofun

lemma stable_lawful : (job D).Stable Lawful := by
  rintro turn ⟨running, finished, cancel, status, thread, results, serial, history⟩ s' hturn h
  obtain ⟨haccepts, hrunning, hfinished⟩ := h
  cases moves_of_workerTurn hturn with
  | ask hthread =>
    cases hthread
    exact ⟨haccepts.cons .asked, hrunning, hfinished⟩
  | act hthread hact =>
    cases hthread
    exact ⟨haccepts, hrunning, hfinished⟩
  | leave hthread hended =>
    cases hthread
    exact ⟨haccepts.cons .returned, hrunning, hfinished⟩
  | clearRunning hthread =>
    cases hthread
    exact ⟨haccepts, rfl, hfinished⟩
  | setFinished hthread =>
    cases hthread
    exact ⟨haccepts.cons .completed, hrunning, fun _ => rfl⟩

lemma lawful_reported (h : Lawful s) (hfinished : s.finished = true) :
    Lawful { s.noted (.reported s.serial) with finished := false } := by
  obtain ⟨running, finished, cancel, status, thread, results, serial, history⟩ := s
  cases hfinished
  have hgone := h.finished rfl
  have haccepts := h.accepts
  cases thread with
  | none | exited => exact ⟨haccepts.cons .reported, h.running, nofun⟩
  | working | returned | stopped => cases hgone

lemma lawful_cancelled (h : Lawful s) : Lawful (s.store .cancel true) := by
  have hstage : s.thread.stage s.finished ≠ .starting := by
    cases s.thread <;> cases s.finished <;> simp [Worker.stage]
  exact ⟨h.accepts.cons (.cancelled hstage), h.running, h.finished⟩

lemma joined_of_own {reply : Unit} (hown : s.own .join = some (reply, s')) :
    s.thread.gone = true ∧ s' = s.joined := by
  obtain ⟨running, finished, cancel, status, thread, results, serial, history⟩ := s
  cases thread with
  | none | exited => exact ⟨rfl, (Prod.mk.inj (Option.some.inj hown)).2.symm⟩
  | working | returned | stopped => cases hown

lemma Lawful.joined (h : Lawful s) (hgone : s.thread.gone = true) : Lawful s.joined := by
  obtain ⟨running, finished, cancel, status, thread, results, serial, history⟩ := s
  cases thread with
  | none => exact h
  | exited work => exact ⟨h.accepts, h.running, fun _ => rfl⟩
  | working | returned | stopped => cases hgone

def JobOp.Free : JobOp W → Prop
  | .load _ | .exchangeFinished | .status | .join | .store .cancel true => True
  | _ => False

lemma Lawful.own {e : JobOp W} {reply : e.Reply} (h : Lawful s) (he : e.Free) (hown : s.own e = some (reply, s')) :
    Lawful s' := by
  cases e with
  | load | status =>
    obtain ⟨-, rfl⟩ := Prod.mk.inj (Option.some.inj hown)
    exact h
  | store flag value =>
    obtain ⟨-, rfl⟩ := Prod.mk.inj (Option.some.inj hown)
    cases flag <;> cases value <;> first | exact he.elim | exact lawful_cancelled h
  | exchangeFinished =>
    obtain ⟨-, rfl⟩ := Prod.mk.inj (Option.some.inj hown)
    split
    · exact lawful_reported h ‹_›
    · exact h
  | join =>
    obtain ⟨hgone, rfl⟩ := joined_of_own hown
    exact h.joined hgone
  | create work => exact he.elim

variable {Q : α → Memory W R → Prop}

lemma keeps_free {e : JobOp W} {next : e.Reply → JobProgram W α} (he : e.Free) (h : Lawful s)
    (hnext : ∀ reply s', Lawful s' → (job D).keeps Proper (next reply) Q s') :
    (job D).keeps Proper (.call e next) Q s := by
  refine keeps_call stable_lawful h (fun s h => ⟨⟨_, h.accepted⟩, ?_⟩) fun s r s' h hown => hnext r s' (h.own he hown)
  rintro work rfl
  exact he.elim

lemma keeps_join {P : Memory W R → Prop} {next : Unit → JobProgram W α} (hP : (job D).Stable P) (h : P s)
    (hlawful : ∀ s, P s → Lawful s)
    (hnext : ∀ s, P s → Lawful s.joined → (job D).keeps Proper (next ()) Q s.joined) :
    (job D).keeps Proper (.call .join next) Q s := by
  refine keeps_call hP h (fun s h => ⟨⟨_, (hlawful s h).accepted⟩, nofun⟩) fun s reply s' h hown => ?_
  obtain ⟨hgone, rfl⟩ := joined_of_own hown
  exact hnext s h ((hlawful s h).joined hgone)

lemma keeps_alone {e : JobOp W} {next : e.Reply → JobProgram W α} {reply : e.Reply} (hnone : s.thread = .none)
    {q : Phase} (haccepted : s.Accepted q) (hown : s.own e = some (reply, s'))
    (hnext : (job D).keeps Proper (next reply) Q s') : (job D).keeps Proper (.call e next) Q s := by
  intro t hlater
  obtain rfl := later_gone (by rw [hnone]; rfl) hlater
  refine ⟨⟨⟨q, haccepted⟩, fun _ _ => hnone⟩, fun r t' hown' => ?_⟩
  obtain ⟨rfl, rfl⟩ := Prod.mk.inj (Option.some.inj (hown.symm.trans hown'))
  exact hnext

lemma cleared (h : Lawful s) (hnone : s.thread = .none) : ∃ history stage,
    (s.store .cancel false).store .finished false = { s with cancel := false, finished := false, history := history } ∧
      (stage = .idle ∨ stage = .starting) ∧ Accepts history ⟨stage, s.serial, s.cancel⟩ := by
  obtain ⟨running, finished, cancel, status, thread, results, serial, history⟩ := s
  cases hnone
  have haccepts := h.accepts
  cases finished with
  | true => exact ⟨_, .starting, rfl, .inr rfl, haccepts.cons .discarded⟩
  | false => exact ⟨_, .idle, rfl, .inl rfl, haccepts⟩

lemma keeps_start {work : W} {k : Bool → JobProgram W α} (h : Lawful s)
    (hk : ∀ started s, Lawful s → (job D).keeps Proper (k started) Q s) :
    (job D).keeps Proper (BackgroundJob.start work >>= k) Q s := by
  refine keeps_free trivial h fun (busy : Bool) s h => ?_
  cases busy with
  | true => exact hk false s h
  | false =>
    refine keeps_join stable_lawful h (fun _ h => h) fun s h hjoined => ?_
    obtain ⟨history, stage, hcleared, hstage, haccepts⟩ := cleared hjoined rfl
    have haccepted (running : Bool) : Memory.Accepted
        { s.joined with running := running, cancel := false, finished := false, history := history }
        ⟨stage, s.serial, s.cancel⟩ := by
      refine ⟨haccepts, rfl, ⟨fun h => ?_, nofun⟩, fun _ => rfl⟩
      rcases hstage with rfl | rfl <;> cases h
    have hasked := hjoined.accepted
    refine keeps_alone rfl hasked rfl (keeps_alone rfl ⟨hasked.accepts, rfl, hasked.finished, fun _ => rfl⟩ rfl ?_)
    rw [hcleared]
    refine keeps_alone rfl (haccepted _) rfl (keeps_alone rfl (haccepted _) rfl (hk true _ ⟨?_, rfl, nofun⟩))
    rcases hstage with rfl | rfl
    · exact haccepts.cons .created
    · exact haccepts.cons .recreated

end Lawful

section Waiting

variable {W A R H : Type} {D : Duties W A R} {s : Memory W R}

def Duties.run (D : Duties W A R) : List A → W → R → Status → Option (W × R × Status)
  | [], work, r, t => some (work, r, t)
  | a :: rest, work, r, t => (D.act a work r t).bind (fun (work, r, t) => D.run rest work r t)

def Duties.Finishing (D : Duties W A R) : Prop :=
  ∀ work r t, ∃ acts work' r' t', D.run acts work r t = some (work', r', t') ∧ D.ended work' = true

lemma later_acts {acts : List A} {work work' : W} {r' : R} {t' : Status} (hthread : s.thread = .working work)
    (hacts : D.run acts work s.results s.status = some (work', r', t')) :
    (job D).Later s { s with thread := .working work', results := r', status := t' } := by
  induction acts generalizing s work with
  | nil =>
    obtain ⟨running, finished, cancel, status, thread, results, serial, history⟩ := s
    cases hthread
    cases hacts
    exact .refl
  | cons a rest ih =>
    obtain ⟨⟨mid, r, t⟩, hact, hrest⟩ := Option.bind_eq_some_iff.mp hacts
    have hturn : (job D).other (.act a) s = some { s with thread := .working mid, results := r, status := t } := by
      simp only [job, Memory.workerTurn, hthread]
      simp only [hact, Option.map_some]
    exact .head ⟨_, hturn⟩ (ih rfl hrest)

lemma worker_ends (hfinishing : D.Finishing) (s : Memory W R) : ∃ s', (job D).Later s s' ∧ s'.thread.gone = true := by
  have hstopped {s : Memory W R} {work : W} (hthread : s.thread = .stopped work) :
      ∃ s', (job D).Later s s' ∧ s'.thread.gone = true := by
    refine ⟨{ s.noted (.completed s.serial) with finished := true, thread := .exited work },
      .single ⟨.setFinished, ?_⟩, rfl⟩
    simp [job, Memory.workerTurn, hthread]
  have hreturned {s : Memory W R} {work : W} (hthread : s.thread = .returned work) :
      ∃ s', (job D).Later s s' ∧ s'.thread.gone = true := by
    obtain ⟨s', hlater, hgone⟩ := hstopped (s := { s with running := false, thread := .stopped work }) rfl
    refine ⟨s', .head ⟨.clearRunning, ?_⟩ hlater, hgone⟩
    simp [job, Memory.workerTurn, hthread]
  cases hthread : s.thread with
  | none => exact ⟨s, .refl, by rw [hthread]; rfl⟩
  | exited work => exact ⟨s, .refl, by rw [hthread]; rfl⟩
  | stopped work => exact hstopped hthread
  | returned work => exact hreturned hthread
  | working work =>
    obtain ⟨acts, work', r', t', hacts, hended⟩ := hfinishing work s.results s.status
    obtain ⟨s', hlater, hgone⟩ := hreturned
      (s := { s.noted (.returned s.serial) with thread := .returned work', results := r', status := t' }) rfl
    refine ⟨s', (later_acts hthread hacts).trans (.head ⟨.leave, ?_⟩ hlater), hgone⟩
    simp [job, Memory.workerTurn, hended, Memory.noted]

lemma answered (hfinishing : D.Finishing) {e : JobOp W} (hproper : Proper e s) :
    ∃ s₁ reply s₂, (job D).Later s s₁ ∧ s₁.own e = some (reply, s₂) := by
  cases e with
  | load | store | exchangeFinished | status => exact ⟨s, _, _, .refl, rfl⟩
  | join =>
    obtain ⟨s₁, hlater, hgone⟩ := worker_ends hfinishing s
    refine ⟨s₁, (), s₁.joined, hlater, ?_⟩
    obtain ⟨running, finished, cancel, status, thread, results, serial, history⟩ := s₁
    cases thread with
    | none | exited => rfl
    | working | returned | stopped => cases hgone
  | create work =>
    obtain ⟨running, finished, cancel, status, thread, results, serial, history⟩ := s
    cases hproper.2 work rfl
    exact ⟨_, (), _, .refl, rfl⟩

lemma returns_of_keeps (handler : H → JobProgram W Unit) (hfinishing : D.Finishing) {p : JobProgram W Unit}
    {Q : Unit → Memory W R → Prop} (h : (job D).keeps Proper p Q s) :
    ∃ choices s', (job D).loop handler choices (p, s) = some (.done (), s') := by
  induction p generalizing s with
  | done a => exact ⟨[], s, rfl⟩
  | call e next ih =>
    obtain ⟨s₁, reply, s₂, hlater, hown⟩ := answered hfinishing (keeps_asked h)
    obtain ⟨choices, hwait⟩ := loop_of_later handler (.call e next) hlater
    obtain ⟨rest, s', hrest⟩ := ih reply ((h s₁ hlater).2 reply s₂ hown)
    refine ⟨choices ++ .own :: rest, s', loop_trans hwait ?_⟩
    simpa only [loop, turn, job, hown, Option.map_some, Option.bind_some] using hrest

end Waiting

inductive Call (W : Type) where
  | start (work : W)
  | running
  | poll
  | takeFinished
  | requestCancel
  | join

section Users

variable {W A R : Type} {D : Duties W A R} {s : Memory W R} {r : R} {n : ℕ} {late early : List Note}
  {choices : List (Choice (WorkerTurn A) (Call W))} {p : JobProgram W Unit}

def Call.program : Call W → JobProgram W Unit
  | .start work => do let _ ← BackgroundJob.start work
  | .running => do let _ ← BackgroundJob.running
  | .poll => do let _ ← BackgroundJob.poll
  | .takeFinished => do let _ ← BackgroundJob.takeFinished
  | .requestCancel => BackgroundJob.requestCancel
  | .join => BackgroundJob.join

lemma keeps_program (call : Call W) (h : Lawful s) : (job D).keeps Proper call.program (fun _ => Lawful) s := by
  have hdone (s : Memory W R) (h : Lawful s) : (job D).keeps Proper (.done ()) (fun _ => Lawful) s :=
    keeps_done stable_lawful h
  cases call with
  | start work => exact keeps_start h (fun _ => hdone)
  | running | poll | takeFinished | requestCancel | join => exact keeps_free trivial h (fun _ => hdone)

lemma keeps_of_loop (hloop : (job D).loop Call.program choices (.done (), { results := r }) = some (p, s)) :
    (job D).keeps Proper p (fun _ => Lawful) s := by
  have hinitial : Lawful ({ results := r } : Memory W R) := ⟨.nil, rfl, nofun⟩
  exact keeps_loop (fun call _ h => keeps_program call h) hloop (keeps_done stable_lawful hinitial)

lemma accepted_of_loop (hloop : (job D).loop Call.program choices (.done (), { results := r }) = some (p, s)) :
    ∃ q, s.Accepted q := by
  have hkeeps := keeps_of_loop hloop
  cases p with
  | done a => exact ⟨_, (keeps_returned hkeeps).accepted⟩
  | call e next => exact (keeps_asked hkeeps).1

theorem completion_is_reported_once
    (hloop : (job D).loop Call.program choices (.done (), { results := r }) = some (p, s)) :
    s.history.count (.completed n) ≤ 1 ∧
      s.history.count (.reported n) + s.history.count (.discarded n) + (if s.finished = true ∧ s.serial = n then 1 else 0) =
        s.history.count (.completed n) ∧
      (∀ late early, s.history = late ++ .reported n :: early → .returned n ∈ early) ∧
      ∀ late early, s.history = late ++ .discarded n :: early →
        late = [] ∨ ∃ later, late = later ++ [.created (n + 1)] := by
  obtain ⟨q, haccepts, hserial, hfinished, -⟩ := accepted_of_loop hloop
  refine ⟨haccepts.completed_once.1, ?_, fun late early heq => ?_, fun late early heq => ?_⟩
  · simpa [Accepts.waiting, hserial, hfinished] using haccepts.balance (n := n)
  · rw [heq] at haccepts
    obtain ⟨q', h⟩ := haccepts.of_append
    rcases h with _ | ⟨h, hnote⟩
    cases hnote with
    | reported => exact h.returned_mem (.inr rfl)
  · rw [heq] at haccepts
    exact haccepts.after_discarded

namespace Sample

def idleBody : Duties Unit Empty Unit := ⟨(fun a => nomatch a), fun _ => true⟩

abbrev idleRun (choices : List (Choice (WorkerTurn Empty) (Call Unit))) :=
  (job idleBody).loop Call.program choices (.done (), { results := () })

def startsOnce : List (Choice (WorkerTurn Empty) (Call Unit)) :=
  .handle (.start ()) :: List.replicate 6 .own

def runsToItsEnd : List (Choice (WorkerTurn Empty) (Call Unit)) :=
  [.other .leave, .other .clearRunning, .other .setFinished]

def isTaken : List (Choice (WorkerTurn Empty) (Call Unit)) := [.handle .takeFinished, .own]

lemma finishing_idleBody : idleBody.Finishing := fun work r t => ⟨[], work, r, t, rfl, rfl⟩

end Sample

theorem a_completion_is_reported : ∃ s,
    Sample.idleRun (Sample.startsOnce ++ Sample.runsToItsEnd ++ Sample.isTaken) = some (.done (), s) ∧
    s.history.count (.reported 1) = 1 ∧ s.history.count (.completed 1) ≤ 1 := by
  have hloop : Sample.idleRun (Sample.startsOnce ++ Sample.runsToItsEnd ++ Sample.isTaken) = some (.done (),
      { results := (), thread := .exited (), serial := 1,
        history := [.reported 1, .completed 1, .returned 1, .created 1] }) := rfl
  exact ⟨_, hloop, rfl, (completion_is_reported_once hloop).1⟩

theorem reported_results_are_final
    (hloop : (job D).loop Call.program choices (.done (), { results := r }) = some (p, s))
    (hreported : s.history = late ++ .reported n :: early) (hlate : ∀ m, .created m ∉ late) (turn : WorkerTurn A) :
    s.workerTurn D turn = none := by
  obtain ⟨q, haccepts, -, -, hgone⟩ := accepted_of_loop hloop
  rw [hreported] at haccepts
  exact still_of_gone (hgone (haccepts.idle_after_reported hlate)) turn

theorem results_are_final_during_a_start : ∃ p s,
    Sample.idleRun (Sample.startsOnce ++ Sample.runsToItsEnd ++ Sample.isTaken ++ Sample.startsOnce.take 4) = some (p, s) ∧
      ∀ turn, s.workerTurn Sample.idleBody turn = none := by
  have hloop : ∃ p, Sample.idleRun (Sample.startsOnce ++ Sample.runsToItsEnd ++ Sample.isTaken ++
      Sample.startsOnce.take 4) = some (p,
      { results := (), serial := 1, history := [.reported 1, .completed 1, .returned 1, .created 1] }) := ⟨_, rfl⟩
  obtain ⟨p, hloop⟩ := hloop
  exact ⟨p, _, hloop, reported_results_are_final hloop (List.nil_append _).symm (by simp)⟩

theorem jobs_never_overlap (hloop : (job D).loop Call.program choices (.done (), { results := r }) = some (p, s)) :
    (∀ late early, s.history = late ++ .created (n + 1) :: early → n = 0 ∨ .completed n ∈ early) ∧
      ∀ work next, p = .call (.create work) next → s.thread = .none := by
  obtain ⟨q, haccepts, -⟩ := accepted_of_loop hloop
  refine ⟨fun late early heq => ?_, ?_⟩
  · rw [heq] at haccepts
    obtain ⟨q', h⟩ := haccepts.of_append
    rcases h with _ | ⟨h, hnote⟩
    cases hnote with
    | created | recreated => exact h.completed_mem ⟨nofun, nofun⟩
  · rintro work next rfl
    exact (keeps_asked (keeps_of_loop hloop)).2 work rfl

theorem a_second_job_waits_for_the_first : ∃ s,
    Sample.idleRun (Sample.startsOnce ++ Sample.runsToItsEnd ++ Sample.startsOnce) = some (.done (), s) ∧
    ∀ late early, s.history = late ++ .created 2 :: early → 1 = 0 ∨ .completed 1 ∈ early := by
  have hloop : Sample.idleRun (Sample.startsOnce ++ Sample.runsToItsEnd ++ Sample.startsOnce) = some (.done (),
      { results := (), thread := .working (), running := true, serial := 2,
        history := [.created 2, .discarded 1, .completed 1, .returned 1, .created 1] }) := rfl
  exact ⟨_, hloop, (jobs_never_overlap hloop).1⟩

theorem cancel_is_told_to_its_job {told : Bool}
    (hloop : (job D).loop Call.program choices (.done (), { results := r }) = some (p, s))
    (hasked : s.history = late ++ .asked n told :: early) : told = true ↔ .cancelled n ∈ early := by
  obtain ⟨q, haccepts, -⟩ := accepted_of_loop hloop
  rw [hasked] at haccepts
  obtain ⟨q', h⟩ := haccepts.of_append
  rcases h with _ | ⟨h, hnote⟩
  cases hnote with
  | asked => exact h.cancelled_iff

theorem an_old_cancel_is_not_told : ∃ s,
    Sample.idleRun (Sample.startsOnce ++ [.handle .requestCancel, .own] ++ Sample.runsToItsEnd ++ Sample.startsOnce ++
        [.other .cancelRequested]) = some (.done (), s) ∧
      s.history.count (.cancelled 1) = 1 ∧ (false = true ↔ .cancelled 2 ∈ s.history.tail) := by
  have hloop : Sample.idleRun (Sample.startsOnce ++ [.handle .requestCancel, .own] ++ Sample.runsToItsEnd ++
      Sample.startsOnce ++ [.other .cancelRequested]) = some (.done (),
      { results := (), thread := .working (), running := true, serial := 2,
        history := [.asked 2 false, .created 2, .discarded 1, .completed 1, .returned 1, .cancelled 1, .created 1] }) := rfl
  exact ⟨_, hloop, rfl, cancel_is_told_to_its_job hloop (List.nil_append _).symm⟩

theorem every_call_returns (hfinishing : D.Finishing)
    (hloop : (job D).loop Call.program choices (.done (), { results := r }) = some (p, s)) :
    ∃ more s', (job D).loop Call.program (choices ++ more) (.done (), { results := r }) = some (.done (), s') := by
  obtain ⟨more, s', hmore⟩ := returns_of_keeps Call.program hfinishing (keeps_of_loop hloop)
  exact ⟨more, s', loop_trans hloop hmore⟩

theorem a_start_waits_and_returns : ∃ next s,
    Sample.idleRun (Sample.startsOnce ++ Sample.runsToItsEnd.take 2 ++ Sample.startsOnce.take 2) =
        some (.call .join next, s) ∧
      s.own .join = none ∧ ∃ more s', Sample.idleRun (Sample.startsOnce ++ Sample.runsToItsEnd.take 2 ++
        Sample.startsOnce.take 2 ++ more) = some (.done (), s') := by
  have hloop : ∃ next, Sample.idleRun (Sample.startsOnce ++ Sample.runsToItsEnd.take 2 ++
      Sample.startsOnce.take 2) = some (.call .join next,
      { results := (), thread := .stopped (), serial := 1, history := [.returned 1, .created 1] }) := ⟨_, rfl⟩
  obtain ⟨next, hloop⟩ := hloop
  exact ⟨next, _, hloop, rfl, every_call_returns Sample.finishing_idleBody hloop⟩

def teardown : JobProgram W Unit := do
  BackgroundJob.requestCancel
  BackgroundJob.join

structure Ceased (s : Memory W R) : Prop where
  thread : s.thread = .none
  cancelled : .cancelled s.serial ∈ s.history
  completed : s.serial = 0 ∨ .completed s.serial ∈ s.history

lemma keeps_teardown (h : Lawful s) : (job D).keeps Proper teardown (fun _ => Ceased) s := by
  have hstable : (job D).Stable (fun s => Lawful s ∧ s.cancel = true) := by
    intro turn s s' hturn h
    refine ⟨stable_lawful turn s s' hturn h.1, ?_⟩
    cases moves_of_workerTurn hturn with
    | ask | act | leave | clearRunning | setFinished => exact h.2
  refine keeps_call stable_lawful h (fun s h => ⟨⟨_, h.accepted⟩, nofun⟩) fun s reply s' h hown => ?_
  obtain ⟨-, rfl⟩ := Prod.mk.inj (Option.some.inj hown)
  refine keeps_join hstable ⟨lawful_cancelled h, rfl⟩ (fun _ h => h.1) fun s h hjoined => ?_
  intro t hlater
  obtain rfl := later_gone rfl hlater
  refine ⟨rfl, hjoined.accepts.cancelled_iff.mp h.2, hjoined.accepts.completed_mem ?_⟩
  cases hfinished : s.joined.finished <;> simp [Memory.joined, Worker.stage]

theorem destroyed_job_has_no_thread {turns : List (Choice (WorkerTurn A) Empty)} {s' : Memory W R}
    (hloop : (job D).loop Call.program choices (.done (), { results := r }) = some (.done (), s))
    (hturns : (job D).loop Empty.elim turns (teardown, s) = some (p, s')) :
    (p = .done () → (∀ turn, s'.workerTurn D turn = none) ∧ .cancelled s'.serial ∈ s'.history ∧
        (s'.serial = 0 ∨ .completed s'.serial ∈ s'.history)) ∧
      (D.Finishing → ∃ more s'', (job D).loop Empty.elim (turns ++ more) (teardown, s) = some (.done (), s'')) := by
  have hkeeps : (job D).keeps Proper p (fun _ => Ceased) s' :=
    keeps_loop (fun event : Empty => event.elim) hturns (keeps_teardown (keeps_returned (keeps_of_loop hloop)))
  refine ⟨?_, fun hfinishing => ?_⟩
  · rintro rfl
    obtain ⟨hnone, hcancelled, hcompleted⟩ := keeps_returned hkeeps
    exact ⟨still_of_gone (by rw [hnone]; rfl), hcancelled, hcompleted⟩
  · obtain ⟨more, s'', hmore⟩ := returns_of_keeps Empty.elim hfinishing hkeeps
    exact ⟨more, s'', loop_trans hturns hmore⟩

theorem a_job_at_work_is_destroyed : ∃ s s', Sample.idleRun Sample.startsOnce = some (.done (), s) ∧
    s.thread = .working () ∧
    (job Sample.idleBody).loop Empty.elim [.own, .other .leave, .other .clearRunning, .other .setFinished, .own]
      (teardown, s) = some (.done (), s') ∧ ∀ turn, s'.workerTurn Sample.idleBody turn = none := by
  have hloop : Sample.idleRun Sample.startsOnce = some (.done (),
      { results := (), thread := .working (), running := true, serial := 1, history := [.created 1] }) := rfl
  have hturns : (job Sample.idleBody).loop Empty.elim
      [.own, .other .leave, .other .clearRunning, .other .setFinished, .own]
      (teardown, { results := (), thread := .working (), running := true, serial := 1, history := [.created 1] }) =
      some (.done (),
        { results := (), cancel := true, finished := true, serial := 1,
          history := [.completed 1, .returned 1, .cancelled 1, .created 1] }) := rfl
  exact ⟨_, _, hloop, rfl, hturns, ((destroyed_job_has_no_thread hloop hturns).1 rfl).1⟩

end Users

end NsxManager.Ui
