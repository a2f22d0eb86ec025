import NsxManager.Forwarder.Reports

/-! A handoff may name one file twice, under one path or under two that lead to it: when the forwarder
still leaves an application behind. -/

namespace NsxManager.Forwarder

open NsxManager.Core Lib Stdio

def verified (h : Handoff) (bytes : Option Bytes) : Bool :=
  (bytes.map Sha256.of).any (digestsEqual · h.stagedSha256)

section

variable (names : Bytes → Bytes) {h : Handoff} (handoffPath : Bytes) {c : Card}

/-- What step 6 renames onto the target. Backed up under the name of the copy, the target itself comes
back; staged under that name, the copy is of an empty file. -/
def landing (h : Handoff) (c : Card) : Option Bytes :=
  if file names h.backupNro = file names (incomingNro h) ∧ c.has (file names h.targetNro) then
    c.lookup (file names h.targetNro)
  else if file names h.stagedNro = file names (incomingNro h) then some []
  else c.lookup (file names h.stagedNro)

def SparesTarget (h : Handoff) : Prop :=
  file names h.targetNro ≠ file names h.stagedNro ∧ file names h.targetNro ≠ file names handoffPath

variable {names}

/-- Where every path leads to the file of that name, this is the card of the other modules. -/
lemma exec_named {α : Type} {prog : FileProgram α} (hp : prog.Asks (fun e => ∀ p ∈ e.paths, file names p = p))
    (fates : List Fate) : (named names).exec prog fates c = world.exec prog fates c :=
  World.exec_congr hp (fun _ he => named_step names he) fates c

lemma has_of_lookup {c' : Card} {p q : Bytes} (h : c'.lookup p = c.lookup q) : c'.has p = c.has q := by
  rw [Card.has, Card.has, h]

lemma run_named_renameOver {source destination bytes : Bytes} (hne : file names source ≠ file names destination)
    (hsource : c.lookup (file names source) = some bytes) :
    (named names).run .ok (renameOver source destination) c =
      (some true, Card.move (c.erase (file names destination)) (file names source) (file names destination)) :=
  run_renameOver c hne hsource

lemma run_named_renameOver_self {source destination : Bytes} (hsame : file names source = file names destination) :
    (named names).run .ok (renameOver source destination) c = (some false, c.erase (file names destination)) := by
  have hgone : (c.erase (file names destination)).lookup (file names source) = none := by
    rw [hsame, AList.lookup_erase]
  rw [renameOver, ← Program.bind_done (rename source destination)]
  simp [Card.has, hgone, Card.move_of_missing]

lemma run_named_writeChunks (destination : Bytes) (l : List Bytes) :
    (named names).run .ok (writeChunks destination l) c =
      world.run .ok (writeChunks (file names destination) l) c := by
  induction l generalizing c with
  | nil => rfl
  | cons chunk rest ih => simpa [writeChunks] using ih

lemma run_named_copyFile (source destination : Bytes) :
    (named names).run .ok (copyFile source destination) c =
      world.run .ok (copyFile (file names source) (file names destination)) c := by
  simp only [copyFile, run_named_open, run_open]
  cases c.has (file names source) with
  | false => rfl
  | true =>
    simp only [run_named_create, run_create, run_named_read, run_read, Bool.not_true, Bool.false_eq_true, if_false]
    cases (c.insert (file names destination) []).lookup (file names source) with
    | none => rfl
    | some bytes =>
      simp only [World.run_bind, run_named_writeChunks]
      rcases world.run .ok (writeChunks (file names destination) (chunks bytes)) _ with ⟨_ | _ | _, c'⟩ <;> rfl

lemma run_named_cleanUp : (named names).run .ok (cleanUp h handoffPath) c =
    (some (), ((c.erase (file names h.backupNro)).erase (file names h.stagedNro)).erase (file names handoffPath)) := by
  rfl

variable (names) in
/-- Where the temporary file is the file itself, clearing the way deletes what was written. -/
lemma run_named_writeFileAtomic (path data : Bytes) :
    ∃ c', (named names).run .ok (writeFileAtomic path data) c =
        (some (decide (file names path ≠ file names (path ++ ascii ".tmp"))), c') ∧
      ∀ q, c'.lookup q =
        if q = file names (path ++ ascii ".tmp") then none
        else if q = file names path then some data else c.lookup q := by
  let c₁ : Card := (extend (c.insert (file names (path ++ ascii ".tmp")) []) (file names (path ++ ascii ".tmp")) data).erase
    (file names path)
  have hwritten : c₁.lookup (file names (path ++ ascii ".tmp")) =
      if file names (path ++ ascii ".tmp") = file names path then none else some data := by
    rw [Card.lookup_erase_eq, lookup_extend, if_pos rfl, AList.lookup_insert]
    rfl
  have hfree : c₁.lookup (file names path) = none := AList.lookup_erase _ _
  by_cases hsame : file names (path ++ ascii ".tmp") = file names path
  · rw [if_pos hsame] at hwritten
    refine ⟨c₁.erase (file names (path ++ ascii ".tmp")), ?_, fun q => ?_⟩
    · rw [decide_eq_false (not_not_intro hsame.symm)]
      simp [writeFileAtomic, Card.has, c₁, hwritten, Card.move_of_missing]
    · simp only [c₁, Card.lookup_erase_eq, lookup_extend, Card.lookup_insert_eq, hsame]
      split_ifs <;> rfl
  · rw [if_neg hsame] at hwritten
    refine ⟨c₁.move (file names (path ++ ascii ".tmp")) (file names path), ?_, fun q => ?_⟩
    · simp [writeFileAtomic, Card.has, c₁, hwritten, hfree, Ne.symm hsame]
    · rw [Card.lookup_move _ _ hwritten hfree, Card.lookup_erase_eq, lookup_extend, Card.lookup_insert_eq]
      split_ifs <;> simp_all

lemma run_putBack_has (hT : c.has (file names h.targetNro) = true) :
    ∃ c', (named names).run .ok (putBack h) c = (some (), c') ∧
      (c'.has (file names h.targetNro) = true ↔ file names h.backupNro ≠ file names h.targetNro) := by
  by_cases hne : file names h.backupNro = file names h.targetNro
  · refine ⟨c.erase (file names h.targetNro), ?_, ?_⟩
    · simp [putBack, hne, hT, World.run_bind_of_some _ (run_named_renameOver_self hne)]
    · simp [hne, Card.has]
  · cases hB : c.lookup (file names h.backupNro) with
    | none =>
      have hkept : c.has (file names h.backupNro) = false := (c.has_eq_false _).mpr hB
      exact ⟨c, by simp [putBack, hkept], by simp [hT, hne]⟩
    | some b =>
      have hkept : c.has (file names h.backupNro) = true := (c.has_eq_true _).mpr ⟨b, hB⟩
      refine ⟨Card.move (c.erase (file names h.targetNro)) (file names h.backupNro) (file names h.targetNro), ?_, ?_⟩
      · simp [putBack, hkept, World.run_bind_of_some _ (run_named_renameOver hne hB)]
      · simp [Card.has, Card.lookup_replace c _ hne, hB, hne]

lemma has_cleanUp (hT : c.has (file names h.targetNro) = true) :
    Card.has (((c.erase (file names h.backupNro)).erase (file names h.stagedNro)).erase (file names handoffPath))
        (file names h.targetNro) = true ↔
      file names h.backupNro ≠ file names h.targetNro ∧ SparesTarget names handoffPath h := by
  rw [Card.has, Option.isSome_iff_exists] at hT ⊢
  simp only [Card.lookup_erase_eq, SparesTarget]
  split_ifs with hhandoff hstaged hbackup
  · simp [hhandoff]
  · simp [hstaged]
  · simp [hbackup]
  · simpa [hhandoff, hstaged, Ne.symm hbackup] using hT

lemma run_confirm_has (hT : c.has (file names h.targetNro) = true) :
    ∃ out c', (named names).run .ok (confirm h handoffPath) c = (some out, c') ∧
      (c'.has (file names h.targetNro) = true ↔ file names h.backupNro ≠ file names h.targetNro ∧
        (verified h (c.lookup (file names h.targetNro)) = true → SparesTarget names handoffPath h)) := by
  cases hv : verified h (c.lookup (file names h.targetNro)) with
  | true =>
    refine ⟨⟨.installed, ascii "updated to " ++ h.toVersion⟩, _, ?_, by simpa using has_cleanUp handoffPath hT⟩
    rw [verified] at hv
    simp only [confirm, run_named_hash, hv, if_true]
    rw [World.run_bind_of_some _ (run_named_cleanUp handoffPath)]
    rfl
  | false =>
    obtain ⟨c', hrun, hhas⟩ := run_putBack_has hT
    refine ⟨fail .ioFailed (ascii "the installed binary did not verify; the previous version was restored"),
      c', ?_, by simpa using hhas⟩
    rw [verified] at hv
    simp only [confirm, run_named_hash, hv, Bool.false_eq_true, if_false]
    rw [World.run_bind_of_some _ hrun, Program.pure_eq, World.run_done]

lemma run_land_has (hne : file names (incomingNro h) ≠ file names h.targetNro)
    (hN : c.has (file names (incomingNro h)) = true) :
    ∃ out c', (named names).run .ok (land h handoffPath) c = (some out, c') ∧
      (c'.has (file names h.targetNro) = true ↔ file names h.backupNro ≠ file names h.targetNro ∧
        (verified h (c.lookup (file names (incomingNro h))) = true → SparesTarget names handoffPath h)) := by
  obtain ⟨n, hn⟩ := (c.has_eq_true _).mp hN
  have hmoved : (Card.move (c.erase (file names h.targetNro)) (file names (incomingNro h))
      (file names h.targetNro)).lookup (file names h.targetNro) = c.lookup (file names (incomingNro h)) := by
    rw [Card.lookup_replace _ _ hne, if_pos rfl]
  obtain ⟨out, c', hrun, hhas⟩ := run_confirm_has (h := h) handoffPath ((has_of_lookup hmoved).trans hN)
  rw [hmoved] at hhas
  refine ⟨out, c', ?_, hhas⟩
  rw [land, World.run_bind_of_some _ (run_named_renameOver hne hn)]
  exact hrun

variable (names) in
/-- The target moved aside under the name of the copy replaces the copy. -/
def arriving (h : Handoff) (c : Card) : Option Bytes :=
  if file names h.backupNro = file names (incomingNro h) ∧ c.has (file names h.targetNro) then
    c.lookup (file names h.targetNro)
  else c.lookup (file names (incomingNro h))

lemma run_exchange_has (hne : file names (incomingNro h) ≠ file names h.targetNro)
    (hN : c.has (file names (incomingNro h)) = true) :
    ∃ out c', (named names).run .ok (exchange h handoffPath) c = (some out, c') ∧
      (c'.has (file names h.targetNro) = true ↔ file names h.backupNro ≠ file names h.targetNro ∧
        (verified h (arriving names h c) = true → SparesTarget names handoffPath h)) := by
  cases hT : c.lookup (file names h.targetNro) with
  | none =>
    have hmissing : c.has (file names h.targetNro) = false := (c.has_eq_false _).mpr hT
    obtain ⟨out, c', hrun, hhas⟩ := run_land_has handoffPath hne hN
    refine ⟨out, c', ?_, by simpa [arriving, hmissing] using hhas⟩
    simpa [exchange, hmissing] using hrun
  | some b =>
    have hpresent : c.has (file names h.targetNro) = true := (c.has_eq_true _).mpr ⟨b, hT⟩
    by_cases hbackup : file names h.targetNro = file names h.backupNro
    · refine ⟨fail .ioFailed (ascii "could not move the current version aside"),
        (c.erase (file names h.backupNro)).erase (file names (incomingNro h)), ?_, ?_⟩
      · simp [exchange, hpresent, World.run_bind_of_some _ (run_named_renameOver_self hbackup)]
      · simp [hbackup, Card.has, Card.lookup_erase_eq]
    · have hmoved : (Card.move (c.erase (file names h.backupNro)) (file names h.targetNro)
          (file names h.backupNro)).lookup (file names (incomingNro h)) = arriving names h c := by
        rw [Card.lookup_replace _ _ hbackup, if_neg hne, arriving]
        simp only [hpresent, and_true, eq_comm]
      have harrives : (arriving names h c).isSome = true := by
        unfold arriving
        split_ifs
        · exact hpresent
        · exact hN
      obtain ⟨out, c', hrun, hhas⟩ := run_land_has (h := h) handoffPath hne
        (c := Card.move (c.erase (file names h.backupNro)) (file names h.targetNro) (file names h.backupNro))
        (by rw [Card.has, hmoved, harrives])
      rw [hmoved] at hhas
      refine ⟨out, c', ?_, hhas⟩
      simpa [exchange, hpresent, World.run_bind_of_some _ (run_named_renameOver hbackup hT)] using hrun

/-- A copy that is made onto the target goes with it: moved aside, put back, and deleted as the copy. -/
lemma run_exchange_onto (hsame : file names (incomingNro h) = file names h.targetNro)
    (hT : c.has (file names h.targetNro) = true) :
    ∃ out c', (named names).run .ok (exchange h handoffPath) c = (some out, c') ∧
      c'.has (file names h.targetNro) = false := by
  obtain ⟨b, hb⟩ := (c.has_eq_true _).mp hT
  by_cases hbackup : file names h.targetNro = file names h.backupNro
  · refine ⟨fail .ioFailed (ascii "could not move the current version aside"),
      (c.erase (file names h.backupNro)).erase (file names (incomingNro h)), ?_, ?_⟩
    · simp [exchange, hT, World.run_bind_of_some _ (run_named_renameOver_self hbackup)]
    · simp [hsame, Card.has]
  · let c₁ : Card := Card.move (c.erase (file names h.backupNro)) (file names h.targetNro) (file names h.backupNro)
    let c₂ : Card := c₁.erase (file names h.targetNro)
    have hkept : c₂.lookup (file names h.backupNro) = some b := by
      rw [AList.lookup_erase_ne (Ne.symm hbackup), Card.lookup_replace _ _ hbackup, if_pos rfl, hb]
    have hthere : c₂.has (file names h.backupNro) = true := (c₂.has_eq_true _).mpr ⟨b, hkept⟩
    refine ⟨fail .ioFailed (ascii "could not move the new version into place"),
      (Card.move (c₂.erase (file names h.targetNro)) (file names h.backupNro) (file names h.targetNro)).erase
        (file names (incomingNro h)), ?_, ?_⟩
    · have hland : (named names).run .ok (renameOver (incomingNro h) h.targetNro) c₁ = (some false, c₂) :=
        run_named_renameOver_self hsame
      have hback : (named names).run .ok (putBack h) c₂ = (some (), Card.move (c₂.erase (file names h.targetNro))
          (file names h.backupNro) (file names h.targetNro)) := by
        simp [putBack, hthere, World.run_bind_of_some _ (run_named_renameOver (Ne.symm hbackup) hkept)]
      simp only [exchange, run_named_probe, hT, if_true, World.run_bind_of_some _ (run_named_renameOver hbackup hb),
        Bool.not_true, Bool.false_eq_true, if_false, land]
      rw [World.run_bind_of_some _ hland]
      simp [World.run_bind_of_some _ hback]
    · simp [hsame, Card.has]

lemma run_bringIn_has :
    ∃ out c', (named names).run .ok (bringIn h handoffPath) c = (some out, c') ∧
      (c'.has (file names h.targetNro) = true ↔
        if verified h (c.lookup (file names h.stagedNro)) then
          file names (incomingNro h) ≠ file names h.targetNro ∧ file names h.backupNro ≠ file names h.targetNro ∧
            (verified h (landing names h c) = true → SparesTarget names handoffPath h)
        else c.has (file names h.targetNro) = true) := by
  cases hS : c.lookup (file names h.stagedNro) with
  | none =>
    exact ⟨fail .ioFailed (ascii "could not read the staged binary"), c, by simp [bringIn, hS], by simp [verified]⟩
  | some bytes =>
    cases hv : digestsEqual (Sha256.of bytes) h.stagedSha256 with
    | false => exact ⟨mismatched, c, by simp [bringIn, hS, hv], by simp [verified, hv]⟩
    | true =>
      obtain ⟨c₁, hcopy, hlook⟩ := run_copyFile_lookup c (file names h.stagedNro) (file names (incomingNro h)) hS
      rw [← run_named_copyFile] at hcopy
      have hN : c₁.has (file names (incomingNro h)) = true := by
        rw [Card.has, hlook, if_pos rfl]
        rfl
      have hgo : ∀ {out c'}, (named names).run .ok (exchange h handoffPath) c₁ = (some out, c') →
          (named names).run .ok (bringIn h handoffPath) c = (some out, c') := by
        intro out c' hrun
        simpa [bringIn, hS, hv, World.run_bind_of_some _ hcopy] using hrun
      by_cases hne : file names (incomingNro h) = file names h.targetNro
      · obtain ⟨out, c', hrun, hhas⟩ := run_exchange_onto handoffPath hne (hne ▸ hN)
        exact ⟨out, c', hgo hrun, by simp [verified, hv, hhas, hne]⟩
      · have htarget : c₁.lookup (file names h.targetNro) = c.lookup (file names h.targetNro) := by
          rw [hlook, if_neg (Ne.symm hne)]
        have harrives : arriving names h c₁ = landing names h c := by
          rw [arriving, landing, htarget, has_of_lookup htarget, hlook (file names (incomingNro h)), if_pos rfl, hS]
          split_ifs <;> rfl
        obtain ⟨out, c', hrun, hhas⟩ := run_exchange_has handoffPath hne hN
        rw [harrives] at hhas
        exact ⟨out, c', hgo hrun, by simpa [verified, hv, hne] using hhas⟩

variable (names)

def recorded (text : Bytes) (c : Card) : Card :=
  (c.erase (file names (handoffPath ++ ascii ".tmp"))).insert (file names handoffPath) text

/-- With the attempt recorded: the swap goes through and leaves what landed, or it puts something
back, or it ends before it reaches the target. -/
def SwapKeeps (h : Handoff) (c : Card) : Prop :=
  if verified h (c.lookup (file names h.stagedNro)) then
    file names (incomingNro h) ≠ file names h.targetNro ∧ file names h.backupNro ≠ file names h.targetNro ∧
      (verified h (landing names h c) = true → SparesTarget names handoffPath h)
  else file names h.targetNro ≠ file names (handoffPath ++ ascii ".tmp")

def KeepsTarget (J : JsonLibrary) (h : Handoff) (c : Card) : Prop :=
  if h.attemptsExhausted then
    file names h.backupNro ≠ file names h.targetNro ∧ SparesTarget names handoffPath h
  else c.has (file names h.stagedNro) = true →
    ∀ text, serializeHandoff J { h with attempts := h.attempts + 1 } = some text →
      if file names handoffPath = file names (handoffPath ++ ascii ".tmp") then
        file names h.targetNro ≠ file names handoffPath
      else SwapKeeps names handoffPath h (recorded names handoffPath text c)

variable {names}

lemma recorded_has {text : Bytes} (hne : file names handoffPath ≠ file names (handoffPath ++ ascii ".tmp"))
    (hT : c.has (file names h.targetNro) = true) :
    (recorded names handoffPath text c).has (file names h.targetNro) = true ↔
      file names h.targetNro ≠ file names (handoffPath ++ ascii ".tmp") := by
  rw [Card.has] at hT
  rw [recorded, Card.has, Card.lookup_insert_eq, Card.lookup_erase_eq]
  split_ifs with hhandoff htmp
  · simpa [hhandoff] using hne
  · simp [htmp]
  · simpa [htmp] using hT

lemma run_swap_has {J : JsonLibrary} {text : Bytes} (hT : c.has (file names h.targetNro) = true)
    (htext : serializeHandoff J { h with attempts := h.attempts + 1 } = some text) :
    ∃ out c', (named names).run .ok (swap J h handoffPath) c = (some out, c') ∧
      (c'.has (file names h.targetNro) = true ↔
        if file names handoffPath = file names (handoffPath ++ ascii ".tmp") then
          file names h.targetNro ≠ file names handoffPath
        else SwapKeeps names handoffPath h (recorded names handoffPath text c)) := by
  obtain ⟨c₁, hwrite, hlook⟩ := run_named_writeFileAtomic names (c := c) handoffPath text
  by_cases hne : file names handoffPath = file names (handoffPath ++ ascii ".tmp")
  · rw [decide_eq_false (not_not_intro hne)] at hwrite
    refine ⟨fail .ioFailed (ascii "could not record the attempt counter"), c₁, ?_, ?_⟩
    · simp only [swap, htext, World.run_bind_of_some _ hwrite]
      rfl
    · rw [if_pos hne, Card.has, hlook, ← hne]
      rw [Card.has] at hT
      split_ifs with hhandoff
      · simp [hhandoff]
      · simp [hhandoff, hT]
  · rw [decide_eq_true hne] at hwrite
    have hsame : ∀ q, c₁.lookup q = (recorded names handoffPath text c).lookup q := by
      intro q
      rw [hlook, recorded, Card.lookup_insert_eq, Card.lookup_erase_eq]
      split_ifs with htmp hpath
      · exact absurd (hpath.symm.trans htmp) hne
      · rfl
      · rfl
      · rfl
    obtain ⟨out, c', hrun, hhas⟩ := run_bringIn_has (h := { h with attempts := h.attempts + 1 }) handoffPath (c := c₁)
    refine ⟨out, c', ?_, ?_⟩
    · simp only [swap, htext, World.run_bind_of_some _ hwrite]
      exact hrun
    · have hlanding : landing names { h with attempts := h.attempts + 1 } c₁ =
          landing names h (recorded names handoffPath text c) := by
        simp only [landing, hsame, Card.has]
        rfl
      rw [hlanding, hsame, has_of_lookup (hsame _), recorded_has handoffPath hne hT] at hhas
      rw [if_neg hne]
      exact hhas

lemma run_rollBack_has (why : Bytes) (hT : c.has (file names h.targetNro) = true) :
    ∃ out c', (named names).run .ok (rollBack h handoffPath why) c = (some out, c') ∧
      (c'.has (file names h.targetNro) = true ↔
        file names h.backupNro ≠ file names h.targetNro ∧ SparesTarget names handoffPath h) := by
  refine ⟨⟨.rolledBack, why⟩, _, ?_, has_cleanUp handoffPath hT⟩
  have hclean : (named names).run .ok
      (cleanUp h handoffPath >>= fun _ => pure (⟨.rolledBack, why⟩ : SwapOutcome)) c = (some ⟨.rolledBack, why⟩,
        ((c.erase (file names h.backupNro)).erase (file names h.stagedNro)).erase (file names handoffPath)) := by
    rw [World.run_bind_of_some _ (run_named_cleanUp handoffPath)]
    rfl
  cases hB : c.has (file names h.backupNro) with
  | false => simpa [rollBack, hB] using hclean
  | true => simpa [rollBack, hB, hT] using hclean

variable (names) in
def foundOn (c : Card) (h : Handoff) : FilePresence :=
  { handoff := true, staged := c.has (file names h.stagedNro), target := c.has (file names h.targetNro),
    backup := c.has (file names h.backupNro) }

lemma run_named_runSwap {J : JsonLibrary} {text : Bytes} (hdoc : c.lookup (file names handoffPath) = some text)
    (hparse : parseHandoff J text = .ok h) :
    (named names).run .ok (runSwap J handoffPath) c =
      (named names).run .ok (act J handoffPath (some h) (decideRecovery (some h) (foundOn names c h))) c := by
  simp [runSwap, hdoc, hparse, foundOn]

end

/-- For whatever the file system makes of a path. -/
theorem application_kept_iff (names : Bytes → Bytes) (J : JsonLibrary) (handoffPath text : Bytes) (h : Handoff)
    (c : Card) (hdoc : c.lookup (file names handoffPath) = some text) (hparse : parseHandoff J text = .ok h)
    (htarget : c.has (file names h.targetNro) = true) :
    ∃ out c', (named names).run .ok (runSwap J handoffPath) c = (some out, c') ∧
      (c'.has (file names h.targetNro) = true ↔ KeepsTarget names handoffPath J h c) := by
  rw [run_named_runSwap handoffPath hdoc hparse]
  have hthere : (foundOn names c h).target = true := htarget
  rcases decideRecovery_cases h (foundOn names c h) rfl with
    ⟨hd, hspent, _⟩ | ⟨_, _, hmissing, _⟩ | ⟨_, hmissing, _⟩ | ⟨hd, hgone, hp⟩ | ⟨hd, hbudget, _, hs⟩
  · obtain ⟨out, c', hrun, hhas⟩ := run_rollBack_has handoffPath
      (decideRecovery (some h) (foundOn names c h)).reason htarget
    refine ⟨out, c', ?_, by simpa [KeepsTarget, hspent] using hhas⟩
    simpa only [act, hd] using hrun
  · simp [hthere] at hmissing
  · simp [hthere] at hmissing
  · have hbudget : h.attemptsExhausted = false := by simpa [hthere] using hp
    refine ⟨fail .unrecoverable (decideRecovery (some h) (foundOn names c h)).reason, c, ?_, ?_⟩
    · simp only [act, hd]
      rfl
    · have hmissing : c.has (file names h.stagedNro) = false := hgone
      simp [KeepsTarget, hbudget, hmissing, htarget]
  · have hu := (parseHandoff_accepted hparse).2
    obtain ⟨text', htext'⟩ := serializeHandoff_isSome (J := J) (h := { h with attempts := h.attempts + 1 })
      ⟨hu.fromVersion, hu.toVersion, hu.staged, hu.target, hu.backup, hu.forwarder⟩
    obtain ⟨out, c', hrun, hhas⟩ := run_swap_has handoffPath htarget htext'
    refine ⟨out, c', ?_, ?_⟩
    · rcases hd with hd | hd <;> simpa only [act, hd] using hrun
    · have hstaged : c.has (file names h.stagedNro) = true := hs
      simp [hhas, KeepsTarget, hbudget, hstaged, htext']

namespace Sample

/-- Its staged file is the target, with a NUL behind the name. -/
def aliased : Handoff := { spent with stagedNro := ascii "/m" ++ [0] }

def aliasing : Bytes := (serializeHandoff JsonCodec.library aliased).getD []

lemma parseHandoff_aliasing : parseHandoff JsonCodec.library aliasing = .ok aliased := by
  have hwritten : serializeHandoff JsonCodec.library aliased = some aliasing := by decide +kernel
  have haccepted : aliased.Accepted := by constructor <;> decide
  exact parseHandoff_serializeHandoff haccepted hwritten

def present (document : Bytes) : Card := ((∅ : Card).insert (ascii "/h") document).insert (ascii "/m") [1]

end Sample

theorem application_kept_by_spent_handoff :
    ∃ out c', (named id).run .ok (runSwap JsonCodec.library (ascii "/h")) (Sample.present Sample.instruction) =
        (some out, c') ∧ c'.has (ascii "/m") = true := by
  have hkeeps : KeepsTarget id (ascii "/h") JsonCodec.library Sample.spent (Sample.present Sample.instruction) := by
    rw [KeepsTarget, if_pos (by decide)]
    exact ⟨by decide, by decide, by decide⟩
  obtain ⟨out, c', hrun, hiff⟩ := application_kept_iff id JsonCodec.library (ascii "/h") Sample.instruction Sample.spent
    (Sample.present Sample.instruction) (by decide +kernel) Sample.parseHandoff_instruction (by decide +kernel)
  exact ⟨out, c', hrun, hiff.mpr hkeeps⟩

theorem application_deleted_as_staged :
    parseHandoff JsonCodec.library Sample.aliasing = .ok Sample.aliased ∧
      (Sample.present Sample.aliasing).lookup (ascii "/h") = some Sample.aliasing ∧
      (Sample.present Sample.aliasing).lookup Sample.aliased.targetNro = some [1] ∧
      ((named id).run .ok (runSwap JsonCodec.library (ascii "/h")) (Sample.present Sample.aliasing)).1.map
        SwapOutcome.result = some .rolledBack ∧
      ((named id).run .ok (runSwap JsonCodec.library (ascii "/h")) (Sample.present Sample.aliasing)).2.lookup
        Sample.aliased.targetNro = none :=
  ⟨Sample.parseHandoff_aliasing, by decide +kernel⟩

end NsxManager.Forwarder
