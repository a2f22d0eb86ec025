import NsxManager.Stdio

/-! The log file and its backup, over whole histories of calls that fail or are cut off anywhere. -/

namespace NsxManager.Core

open Lib Stdio

inductive LogLevel where
  | debug
  | info
  | warn
  | error
  deriving DecidableEq

def levelToString : LogLevel → Bytes
  | .debug => ascii "DEBUG"
  | .info => ascii "INFO"
  | .warn => ascii "WARN"
  | .error => ascii "ERROR"

structure FileLogger where
  path : Bytes
  maxSizeBytes : ℕ

structure LogEntry where
  time : Bytes
  thread : Bytes
  level : LogLevel
  message : Bytes

/-- The header is printed into a buffer of 128 characters. -/
def LogEntry.line (entry : LogEntry) : Bytes :=
  (ascii "[" ++ entry.time ++ ascii "] [" ++ levelToString entry.level ++ ascii "] [" ++ entry.thread ++
    ascii "] ").take 127 ++ entry.message ++ ascii "\n"

namespace FileLogger

variable (logger : FileLogger)

def backup : Bytes := logger.path ++ ascii ".1"

/-- The size of a file is asked for by reading it. -/
def rotateIfNeededLocked : FileProgram Unit := do
  if logger.maxSizeBytes = 0 then return
  if !(← probe logger.path) then return
  match ← read logger.path with
  | none => return
  | some contents =>
    if contents.length < logger.maxSizeBytes then return
    let _ ← remove logger.backup
    let _ ← rename logger.path logger.backup

def log (entry : LogEntry) : FileProgram Unit := do
  rotateIfNeededLocked logger
  let _ ← append logger.path entry.line
  let _ ← flush logger.path

def history (calls : List (LogEntry × List Fate)) (c : Card) : Card :=
  calls.foldl (fun c call => (world.exec (log logger call.1) call.2 c).state) c

def current (c : Card) : Bytes := (c.lookup logger.path).getD []

def retained (c : Card) : Bytes := (c.lookup logger.backup).getD [] ++ logger.current c

structure Keeps (stream : Bytes) (c : Card) : Prop where
  suffix : logger.retained c <:+ stream
  enough : min logger.maxSizeBytes stream.length ≤ (logger.retained c).length
  whole : logger.maxSizeBytes = 0 → logger.retained c = stream

variable {logger} {stream : Bytes} {c : Card} {entry : LogEntry}

lemma backup_ne : logger.backup ≠ logger.path := by simp [backup, ascii]

lemma retained_extend (data : Bytes) : logger.retained (extend c logger.path data) = logger.retained c ++ data := by
  simp [retained, current, lookup_extend, backup_ne]

lemma Keeps.extend (h : logger.Keeps stream c) (data : Bytes) :
    logger.Keeps (stream ++ data) (Stdio.extend c logger.path data) := by
  refine ⟨?_, ?_, fun hmax => ?_⟩
  · obtain ⟨dropped, hdropped⟩ := h.suffix
    exact ⟨dropped, by rw [retained_extend, ← List.append_assoc, hdropped]⟩
  · have henough := h.enough
    simp only [retained_extend, List.length_append]
    omega
  · rw [retained_extend, h.whole hmax]

lemma Keeps.erase (h : logger.Keeps stream c) (hmax : logger.maxSizeBytes ≠ 0)
    (hsize : logger.maxSizeBytes ≤ (logger.current c).length) : logger.Keeps stream (c.erase logger.backup) := by
  have hretained : logger.retained (c.erase logger.backup) = logger.current c := by
    simp [retained, current, backup_ne.symm]
  refine ⟨?_, ?_, fun h => absurd h hmax⟩
  · rw [hretained]
    exact (List.suffix_append _ _).trans h.suffix
  · rw [hretained]
    omega

lemma Keeps.move (h : logger.Keeps stream c) {contents : Bytes} (hcontents : c.lookup logger.path = some contents)
    (hfree : c.lookup logger.backup = none) : logger.Keeps stream (c.move logger.path logger.backup) := by
  have hretained : logger.retained (c.move logger.path logger.backup) = logger.retained c := by
    simp [retained, current, c.lookup_move _ hcontents hfree, hcontents, hfree, backup_ne.symm]
  exact ⟨hretained ▸ h.suffix, hretained ▸ h.enough, fun hmax => hretained ▸ h.whole hmax⟩

variable {A : Event FileOp FileOp.Reply Fate → Prop}

lemma rotateIfNeededLocked_wp (h : logger.Keeps stream c) :
    world.wp A (logger.Keeps stream) (rotateIfNeededLocked logger) (fun _ => logger.Keeps stream) c := by
  have hrename (c : Card) (h : logger.Keeps stream c) : world.wp A (logger.Keeps stream)
      (rename logger.path logger.backup >>= fun _ => pure ()) (fun _ => logger.Keeps stream) c :=
    wp_rename h h (fun contents hcontents hfree => h.move hcontents hfree)
  unfold rotateIfNeededLocked
  split
  · exact h
  next hmax =>
  refine wp_probe h ?_
  split
  · exact h
  refine wp_read h h ?_
  cases hcontents : c.lookup logger.path with
  | none => exact h
  | some contents =>
    dsimp only
    split
    · exact h
    · refine wp_remove h (fun _ => hrename c h) (fun _ => hrename _ (h.erase hmax ?_))
      rw [current, hcontents]
      exact not_lt.mp ‹_›

lemma log_wp (h : logger.Keeps stream c) (hA : Faithful A logger.path) :
    world.wp A (fun c' => ∃ written, written <+: entry.line ∧ logger.Keeps (stream ++ written) c') (log logger entry)
      (fun _ c' => ∃ written, written <+: entry.line ∧ logger.Keeps (stream ++ written) c') c := by
  have hnothing (c' : Card) (h : logger.Keeps stream c') :
      ∃ written, written <+: entry.line ∧ logger.Keeps (stream ++ written) c' :=
    ⟨[], List.nil_prefix, by rwa [List.append_nil]⟩
  refine (World.wp_bind _ _ _).mpr
    (World.wp_mono (rotateIfNeededLocked_wp h) (fun _ hev => hev) hnothing fun _ c' h => ?_)
  have hwritten (bytes : Bytes) (hbytes : bytes <+: entry.line) :
      ∃ written, written <+: entry.line ∧ logger.Keeps (stream ++ written) (Stdio.extend c' logger.path bytes) :=
    ⟨bytes, hbytes, h.extend bytes⟩
  refine wp_append (hnothing c' h) hwritten (fun bytes hbytes => ?_) (fun bytes hbytes => ?_)
  · exact wp_flush (hwritten bytes hbytes) (fun _ => hwritten bytes hbytes)
  · obtain rfl := hbytes hA
    exact wp_flush (hwritten _ List.prefix_rfl) (fun _ => hwritten _ List.prefix_rfl)

lemma keeps_history {calls : List (LogEntry × List Fate)} (hfaithful : ∀ call ∈ calls, ∀ bytes, .corrupt bytes ∉ call.2)
    (h : logger.Keeps stream c) : ∃ written, List.Forall₂ (fun w call => w <+: LogEntry.line call.1) written calls ∧
      logger.Keeps (stream ++ written.flatten) (history logger calls c) := by
  induction calls generalizing stream c with
  | nil => exact ⟨[], .nil, by simpa [history] using h⟩
  | cons call rest ih =>
    have hA : Faithful (· ∈ (world.exec (log logger call.1) call.2 c).log) logger.path :=
      fun data bytes hev => hfaithful call List.mem_cons_self bytes (world.fate_mem_of_mem_log hev)
    obtain ⟨w, hw, hkeeps⟩ := World.exec_invariant (log_wp h hA)
    obtain ⟨written, hwritten, hrest⟩ := ih (fun other hother => hfaithful other (List.mem_cons_of_mem _ hother)) hkeeps
    exact ⟨w :: written, .cons hw hwritten, by simpa [history] using hrest⟩

lemma run_rotateIfNeededLocked (logger : FileLogger) (c : Card) :
    ∃ c', world.run .ok (rotateIfNeededLocked logger) c = (some (), c') ∧
    (logger.maxSizeBytes ≠ 0 → (logger.current c').length < logger.maxSizeBytes) := by
  unfold rotateIfNeededLocked
  split
  · exact ⟨c, rfl, fun hmax => absurd ‹_› hmax⟩
  next hmax =>
  cases hcontents : c.lookup logger.path with
  | none =>
    exact ⟨c, by simp [Card.has, hcontents], fun _ => by simpa [current, hcontents, Nat.pos_iff_ne_zero] using hmax⟩
  | some contents =>
    by_cases hsize : contents.length < logger.maxSizeBytes
    · exact ⟨c, by simp [Card.has, hcontents, hsize], fun _ => by simpa [current, hcontents] using hsize⟩
    · have hgone : (c.erase logger.backup).lookup logger.backup = none := AList.lookup_erase _ _
      have hkept : (c.erase logger.backup).lookup logger.path = some contents := by
        rw [AList.lookup_erase_ne backup_ne.symm, hcontents]
      refine ⟨Card.move (c.erase logger.backup) logger.path logger.backup,
        by simp [Card.has, hcontents, hsize], fun _ => ?_⟩
      rw [current, Card.lookup_move _ _ hkept hgone, if_neg backup_ne.symm, if_pos rfl]
      exact Nat.pos_of_ne_zero hmax

lemma run_log (c : Card) : ∃ c' old, world.run .ok (log logger entry) c = (some (), c') ∧
    logger.current c' = old ++ entry.line ∧ (logger.maxSizeBytes ≠ 0 → old.length < logger.maxSizeBytes) := by
  obtain ⟨c₁, hrun, hsize⟩ := run_rotateIfNeededLocked logger c
  refine ⟨Stdio.extend c₁ logger.path entry.line, logger.current c₁, ?_, ?_, hsize⟩
  · rw [log, World.run_bind_of_some _ hrun]
    rfl
  · simp [current, lookup_extend]

theorem rotation_drops_only_the_oldest (logger : FileLogger) (c : Card) (calls : List (LogEntry × List Fate))
    (entry : LogEntry) (hfaithful : ∀ call ∈ calls, ∀ bytes, .corrupt bytes ∉ call.2) :
    (∃ written, List.Forall₂ (fun w call => w <+: LogEntry.line call.1) written calls ∧
      logger.Keeps (logger.retained c ++ written.flatten) (history logger calls c)) ∧
    ∃ c' old, world.run .ok (log logger entry) (history logger calls c) = (some (), c') ∧
      logger.current c' = old ++ entry.line ∧ (logger.maxSizeBytes ≠ 0 → old.length < logger.maxSizeBytes) :=
  ⟨keeps_history hfaithful ⟨List.suffix_rfl, by omega, fun _ => rfl⟩, run_log _⟩

theorem rotation_is_cut_off :
    let logger : FileLogger := ⟨[1], 2⟩
    let c := ((∅ : Card).insert logger.path [7, 8]).insert logger.backup [5, 6]
    let calls := [((⟨[], [], .info, []⟩ : LogEntry), [Fate.ok, .ok, .ok, .torn 0])]
    (history logger calls c).lookup logger.backup = none ∧ logger.current (history logger calls c) = [7, 8] ∧
      ∃ written, List.Forall₂ (fun w call => w <+: LogEntry.line call.1) written calls ∧
        logger.Keeps (logger.retained c ++ written.flatten) (history logger calls c) :=
  ⟨by decide, by decide, (rotation_drops_only_the_oldest _ _ _ ⟨[], [], .info, []⟩ (by simp)).1⟩

end FileLogger

end NsxManager.Core
