import NsxManager.Core.JsonCodec
import NsxManager.Forwarder.Runs

/-! The forwarder on a card that obeys: what each helper and each branch leaves behind. -/

namespace NsxManager.Forwarder

open NsxManager.Core Lib Stdio

section Helpers

variable (c : Card)

lemma run_writeFileAtomic_lookup (path data : Bytes) :
    ∃ c', world.run .ok (writeFileAtomic path data) c = (some true, c') ∧
      ∀ q, c'.lookup q =
        if q = path then some data else if q = path ++ ascii ".tmp" then none else c.lookup q := by
  have hne : path ≠ path ++ ascii ".tmp" := by
    intro h
    simpa [ascii] using congrArg List.length h
  unfold writeFileAtomic
  generalize path ++ ascii ".tmp" = tmp at *
  have hsource : ((extend (c.insert tmp []) tmp data).erase path).lookup tmp = some data := by
    simp [lookup_extend, hne.symm]
  have hfree : ((extend (c.insert tmp []) tmp data).erase path).lookup path = none :=
    AList.lookup_erase _ _
  refine ⟨Card.move ((extend (c.insert tmp []) tmp data).erase path) tmp path, ?_, fun q => ?_⟩
  · simp [Card.has, hsource, hfree]
  · rw [Card.lookup_move _ _ hsource hfree]
    split_ifs with hpath htmp
    · rfl
    · rfl
    · rw [Card.lookup_erase_eq, if_neg hpath, lookup_extend, if_neg htmp, Card.lookup_insert_eq, if_neg htmp]

lemma run_writeFileAtomic (path data : Bytes) :
    ∃ c', world.run .ok (writeFileAtomic path data) c = (some true, c') ∧
      Card.Agree [path, path ++ ascii ".tmp"] c c' ∧ c'.lookup path = some data := by
  obtain ⟨c', hrun, hlook⟩ := run_writeFileAtomic_lookup c path data
  refine ⟨c', hrun, fun q hq => ?_, by rw [hlook, if_pos rfl]⟩
  simp only [List.mem_cons, List.not_mem_nil, or_false, not_or] at hq
  rw [hlook, if_neg hq.1, if_neg hq.2]

lemma run_writeChunks {destination old : Bytes} (l : List Bytes) (hold : c.lookup destination = some old) :
    ∃ c', world.run .ok (writeChunks destination l) c = (some true, c') ∧
      Card.Agree [destination] c c' ∧ c'.lookup destination = some (old ++ l.flatten) := by
  induction l generalizing c old with
  | nil => exact ⟨c, rfl, .refl _ _, by simpa using hold⟩
  | cons chunk rest ih =>
    obtain ⟨c', hrun, hagree, hlook⟩ := ih (extend c destination chunk)
      (lookup_extended chunk hold)
    refine ⟨c', by simpa [writeChunks] using hrun, ?_, by simpa using hlook⟩
    exact (agree_extend (.refl _ c) (by simp) chunk).trans hagree

/-- A file copied onto itself is empty afterwards: it is opened for writing before it is read. -/
lemma run_copyFile_lookup (source destination : Bytes) {bytes : Bytes} (hsource : c.lookup source = some bytes) :
    ∃ c', world.run .ok (copyFile source destination) c = (some true, c') ∧
      ∀ q, c'.lookup q = if q = destination then some (if source = destination then [] else bytes)
        else c.lookup q := by
  have hempty : (c.insert destination []).lookup destination = some [] := AList.lookup_insert _
  have hread : (c.insert destination []).lookup source =
      some (if source = destination then [] else bytes) := by
    rw [Card.lookup_insert_eq, hsource]
    split_ifs <;> rfl
  obtain ⟨c', hrun, hagree, hlook⟩ := run_writeChunks _
    (chunks (if source = destination then [] else bytes)) hempty
  refine ⟨c', ?_, fun q => ?_⟩
  · simp [copyFile, Card.has, hsource, hread, World.run_bind_of_some _ hrun]
  · split_ifs with hq hsame
    · rw [hq, hlook, if_pos hsame, List.nil_append, flatten_chunks]
    · rw [hq, hlook, if_neg hsame, List.nil_append, flatten_chunks]
    · rw [hagree q (by simpa using hq), AList.lookup_insert_ne hq]

lemma run_copyFile {source destination bytes : Bytes} (hne : source ≠ destination)
    (hsource : c.lookup source = some bytes) :
    ∃ c', world.run .ok (copyFile source destination) c = (some true, c') ∧
      Card.Agree [destination] c c' ∧ c'.lookup destination = some bytes := by
  obtain ⟨c', hrun, hlook⟩ := run_copyFile_lookup c source destination hsource
  refine ⟨c', hrun, fun q hq => ?_, by rw [hlook, if_pos rfl, if_neg hne]⟩
  rw [hlook, if_neg (by simpa using hq)]

lemma run_renameOver {source destination bytes : Bytes} (hne : source ≠ destination)
    (hsource : c.lookup source = some bytes) :
    world.run .ok (renameOver source destination) c =
      (some true, Card.move (c.erase destination) source destination) := by
  have hkept : (c.erase destination).lookup source = some bytes := by
    rw [AList.lookup_erase_ne hne, hsource]
  have hfree : (c.erase destination).lookup destination = none := AList.lookup_erase _ _
  rw [renameOver, ← Program.bind_done (rename source destination)]
  simp [Card.has, hkept, hfree]

lemma run_cleanUp (h : Handoff) (handoffPath : Bytes) :
    world.run .ok (cleanUp h handoffPath) c =
      (some (), ((c.erase h.backupNro).erase h.stagedNro).erase handoffPath) := by
  rfl

lemma run_cleaned {h : Handoff} {handoffPath : Bytes} (hbackup : h.backupNro ≠ h.targetNro)
    (hstaged : h.stagedNro ≠ h.targetNro) (hhandoff : handoffPath ≠ h.targetNro) (out : SwapOutcome) :
    ∃ c', world.run .ok (cleanUp h handoffPath >>= fun _ => pure out) c = (some out, c') ∧
      c'.lookup h.targetNro = c.lookup h.targetNro ∧ c'.lookup h.backupNro = none ∧
      c'.lookup h.stagedNro = none ∧ c'.lookup handoffPath = none := by
  refine ⟨((c.erase h.backupNro).erase h.stagedNro).erase handoffPath, ?_, ?_⟩
  · rw [World.run_bind_of_some _ (run_cleanUp c h handoffPath)]
    rfl
  · simp only [Card.lookup_erase_eq, hbackup.symm, hstaged.symm, hhandoff.symm, if_false, true_and]
    refine ⟨?_, ?_, ?_⟩ <;> split_ifs <;> rfl

lemma run_rollBack {h : Handoff} {handoffPath : Bytes} (hbackup : h.backupNro ≠ h.targetNro)
    (hstaged : h.stagedNro ≠ h.targetNro) (hhandoff : handoffPath ≠ h.targetNro) (why : Bytes) :
    ∃ c', world.run .ok (rollBack h handoffPath why) c = (some ⟨.rolledBack, why⟩, c') ∧
      c'.lookup h.targetNro = (c.lookup h.targetNro <|> c.lookup h.backupNro) ∧
      c'.lookup h.backupNro = none ∧ c'.lookup h.stagedNro = none ∧ c'.lookup handoffPath = none := by
  cases hT : c.lookup h.targetNro with
  | some b =>
    have hpresent : c.has h.targetNro = true := (c.has_eq_true _).mpr ⟨b, hT⟩
    obtain ⟨c', hrun, htarget, hgone⟩ := run_cleaned c hbackup hstaged hhandoff ⟨.rolledBack, why⟩
    refine ⟨c', ?_, by simpa [hT] using htarget, hgone⟩
    cases hB : c.has h.backupNro with
    | false => simpa [rollBack, hB] using hrun
    | true => simpa [rollBack, hB, hpresent] using hrun
  | none =>
    have hmissing : c.has h.targetNro = false := (c.has_eq_false _).mpr hT
    cases hB : c.lookup h.backupNro with
    | none =>
      obtain ⟨c', hrun, htarget, hgone⟩ := run_cleaned c hbackup hstaged hhandoff ⟨.rolledBack, why⟩
      have hkept : c.has h.backupNro = false := (c.has_eq_false _).mpr hB
      exact ⟨c', by simpa [rollBack, hkept] using hrun, by simpa [hT] using htarget, hgone⟩
    | some b =>
      have hkept : c.has h.backupNro = true := (c.has_eq_true _).mpr ⟨b, hB⟩
      obtain ⟨c', hrun, htarget, hgone⟩ := run_cleaned (Card.move (c.erase h.targetNro) h.backupNro h.targetNro)
        hbackup hstaged hhandoff ⟨.rolledBack, why⟩
      refine ⟨c', ?_, ?_, hgone⟩
      · simpa [rollBack, hkept, hmissing, World.run_bind_of_some _ (run_renameOver c hbackup hB)] using hrun
      · have hkept' : (c.erase h.targetNro).lookup h.backupNro = some b := by
          rw [AList.lookup_erase_ne hbackup, hB]
        rw [htarget, Card.lookup_move _ _ hkept' (AList.lookup_erase _ _), if_pos rfl]
        rfl

lemma run_restoreBackup {h : Handoff} {handoffPath b : Bytes} (hbackup : h.backupNro ≠ h.targetNro)
    (hstaged : h.stagedNro ≠ h.targetNro) (hhandoff : handoffPath ≠ h.targetNro) (reason : Bytes)
    (hB : c.lookup h.backupNro = some b) :
    ∃ c', world.run .ok (restoreBackup h handoffPath reason) c = (some ⟨.restored, reason⟩, c') ∧
      c'.lookup h.targetNro = some b := by
  obtain ⟨c', hrun, htarget, _⟩ := run_cleaned (Card.move (c.erase h.targetNro) h.backupNro h.targetNro)
    hbackup hstaged hhandoff ⟨.restored, reason⟩
  refine ⟨c', ?_, ?_⟩
  · simpa [restoreBackup, World.run_bind_of_some _ (run_renameOver c hbackup hB)] using hrun
  · have hkept : (c.erase h.targetNro).lookup h.backupNro = some b := by
      rw [AList.lookup_erase_ne hbackup, hB]
    rw [htarget, Card.lookup_move _ _ hkept (AList.lookup_erase _ _), if_pos rfl]

lemma run_runSwap {J : JsonLibrary} {handoffPath text : Bytes} {h : Handoff}
    (hdoc : c.lookup handoffPath = some text) (hparse : parseHandoff J text = .ok h) :
    world.run .ok (runSwap J handoffPath) c =
      world.run .ok (act J handoffPath (some h) (decideRecovery (some h) (presenceOf c h))) c := by
  simp [runSwap, hdoc, hparse, presenceOf]

end Helpers

section Branches

variable {L : Layout} {sha : Digest} {h : Handoff} {c : Card}

lemma view_cleanUp (hf : Follows L sha h) :
    L.view (((c.erase h.backupNro).erase h.stagedNro).erase (L.name .handoff)) =
      Function.update (Function.update (Function.update (L.view c) .backup none) .staged none)
        .handoff none := by
  rw [hf.backup, hf.staged, L.view_erase, L.view_erase, L.view_erase]

lemma view_renameOver {r s : Role} (hne : r ≠ s) {bytes : Bytes} (hr : L.view c r = some bytes) :
    world.run .ok (renameOver (L.name r) (L.name s)) c =
        (some true, Card.move (c.erase (L.name s)) (L.name r) (L.name s)) ∧
      L.view (Card.move (c.erase (L.name s)) (L.name r) (L.name s)) =
        Function.update (Function.update (L.view c) r none) s (some bytes) := by
  refine ⟨run_renameOver c (L.distinct.ne hne) hr, ?_⟩
  have hkept : L.view (c.erase (L.name s)) r = some bytes := by
    rw [L.view_erase, Function.update_of_ne hne, hr]
  have hfree : L.view (c.erase (L.name s)) s = none := by
    rw [L.view_erase, Function.update_self]
  rw [L.view_move hkept hfree, L.view_erase, Function.update_comm hne.symm, Function.update_idem]

def Installed (v : View) (new : Bytes) : View
  | .target => some new
  | .temporary => v .temporary
  | _ => none

lemma run_confirm (hf : Follows L sha h) {new : Bytes} (hT : L.view c .target = some new)
    (hN : L.view c .incoming = none) (hsha : Sha256.of new = sha) :
    ∃ c', world.run .ok (confirm h (L.name .handoff)) c =
        (some ⟨.installed, ascii "updated to " ++ h.toVersion⟩, c') ∧
      L.view c' = Installed (L.view c) new := by
  refine ⟨((c.erase h.backupNro).erase h.stagedNro).erase (L.name .handoff), ?_, ?_⟩
  · have hlook : c.lookup h.targetNro = some new := hf.target ▸ hT
    have hv : digestsEqual (Sha256.of new) h.stagedSha256 = true :=
      (digestsEqual_iff _ _).mpr (hsha.trans hf.digest.symm)
    simp only [confirm, run_hash, hlook, Option.map_some, Option.any_some, hv, if_true]
    rw [World.run_bind_of_some _ (run_cleanUp c h (L.name .handoff))]
    rfl
  · rw [view_cleanUp hf]
    funext r
    cases r <;> simp [Installed, hT, hN]

lemma run_exchange (hf : Follows L sha h) {old new : Bytes} (hT : L.view c .target = some old)
    (hN : L.view c .incoming = some new) (hsha : Sha256.of new = sha) :
    ∃ c', world.run .ok (exchange h (L.name .handoff)) c =
        (some ⟨.installed, ascii "updated to " ++ h.toVersion⟩, c') ∧
      L.view c' = Installed (L.view c) new := by
  obtain ⟨haside, hview₁⟩ := view_renameOver (L := L) (c := c) (s := .backup) (by decide) hT
  generalize hc₁ : Card.move (c.erase (L.name .backup)) (L.name .target) (L.name .backup) = c₁ at *
  have hN₁ : L.view c₁ .incoming = some new := by simp [hview₁, hN]
  obtain ⟨hland, hview₂⟩ := view_renameOver (L := L) (c := c₁) (s := .target) (by decide) hN₁
  generalize hc₂ : Card.move (c₁.erase (L.name .target)) (L.name .incoming) (L.name .target) = c₂ at *
  have hT₂ : L.view c₂ .target = some new := by simp [hview₂]
  have hN₂ : L.view c₂ .incoming = none := by simp [hview₂]
  obtain ⟨c', hrun, hview⟩ := run_confirm hf hT₂ hN₂ hsha
  refine ⟨c', ?_, ?_⟩
  · have hpresent : c.has (L.name .target) = true := (c.has_eq_true _).mpr ⟨old, hT⟩
    simp only [exchange, run_probe, hf.target, hf.backup, hpresent, if_true,
      World.run_bind_of_some _ haside, Bool.not_true, Bool.false_eq_true, if_false, land, hf.incoming,
      World.run_bind_of_some _ hland]
    exact hrun
  · rw [hview]
    funext r
    cases r <;> simp [Installed, hview₂, hview₁]

lemma run_bringIn (hf : Follows L sha h) {old new : Bytes} (hT : L.view c .target = some old)
    (hS : L.view c .staged = some new) (hsha : Sha256.of new = sha) :
    ∃ c', world.run .ok (bringIn h (L.name .handoff)) c =
        (some ⟨.installed, ascii "updated to " ++ h.toVersion⟩, c') ∧
      L.view c' = Installed (L.view c) new := by
  have hv : digestsEqual (Sha256.of new) h.stagedSha256 = true :=
    (digestsEqual_iff _ _).mpr (hsha.trans hf.digest.symm)
  obtain ⟨c₁, hcopy, hagree, hN⟩ := run_copyFile c (L.distinct.ne (by decide : Role.staged ≠ .incoming)) hS
  have hsame : ∀ r, r ≠ .incoming → L.view c₁ r = L.view c r :=
    fun r hr => L.view_agree [.incoming] hagree (by simpa using hr)
  obtain ⟨c', hrun, hview⟩ := run_exchange hf ((hsame _ (by decide)).trans hT) hN hsha
  refine ⟨c', ?_, ?_⟩
  · have hlook : c.lookup h.stagedNro = some new := hf.staged ▸ hS
    simp only [bringIn, run_hash, hlook, Option.map_some, hv, Bool.not_true, Bool.false_eq_true, if_false]
    rw [hf.staged, hf.incoming, World.run_bind_of_some _ hcopy]
    exact hrun
  · rw [hview]
    funext r
    cases r <;> simp [Installed, hsame]

lemma run_swap {J : JsonLibrary} (hf : Follows L sha h)
    (hu : ({ h with attempts := h.attempts + 1 } : Handoff).Utf8) {old new : Bytes}
    (hT : L.view c .target = some old) (hS : L.view c .staged = some new) (hsha : Sha256.of new = sha) :
    ∃ c', world.run .ok (swap J h (L.name .handoff)) c =
        (some ⟨.installed, ascii "updated to " ++ h.toVersion⟩, c') ∧
      ∀ r, r ≠ .temporary → L.view c' r = Installed (L.view c) new r := by
  obtain ⟨text, htext⟩ := serializeHandoff_isSome (J := J) hu
  obtain ⟨c₁, hwrite, hagree, _⟩ := run_writeFileAtomic c (L.name .handoff) text
  rw [← L.temporary] at hagree
  have hsame : ∀ r, r ≠ .handoff → r ≠ .temporary → L.view c₁ r = L.view c r :=
    fun r hr hr' => L.view_agree [.handoff, .temporary] hagree (by simp [hr, hr'])
  have hf' : Follows L sha { h with attempts := h.attempts + 1 } :=
    ⟨hf.staged, hf.target, hf.backup, hf.digest⟩
  obtain ⟨c', hrun, hview⟩ := run_bringIn hf' ((hsame _ (by decide) (by decide)).trans hT)
    ((hsame _ (by decide) (by decide)).trans hS) hsha
  refine ⟨c', ?_, ?_⟩
  · simp only [swap, htext, World.run_bind_of_some _ hwrite]
    exact hrun
  · intro r hr
    rw [hview]
    cases r <;> simp_all [Installed]

lemma run_swap_target {J : JsonLibrary} (hf : Follows L sha h)
    (hu : ({ h with attempts := h.attempts + 1 } : Handoff).Utf8) {old new : Bytes}
    (hT : L.view c .target = some old) (hS : L.view c .staged = some new) :
    ∃ out c' b, world.run .ok (swap J h (L.name .handoff)) c = (some out, c') ∧
      L.view c' .target = some b ∧ (b = old ∨ Sha256.of b = sha) := by
  by_cases hsha : Sha256.of new = sha
  · obtain ⟨c', hrun, hview⟩ := run_swap hf hu hT hS hsha
    exact ⟨_, c', new, hrun, hview .target (by decide), .inr hsha⟩
  · obtain ⟨text, htext⟩ := serializeHandoff_isSome (J := J) hu
    obtain ⟨c₁, hwrite, hagree, _⟩ := run_writeFileAtomic c (L.name .handoff) text
    rw [← L.temporary] at hagree
    have hsame : ∀ r, r ≠ .handoff → r ≠ .temporary → L.view c₁ r = L.view c r :=
      fun r hr hr' => L.view_agree [.handoff, .temporary] hagree (by simp [hr, hr'])
    have hlook : c₁.lookup h.stagedNro = some new :=
      hf.staged ▸ (hsame .staged (by decide) (by decide)).trans hS
    have hv : digestsEqual (Sha256.of new) h.stagedSha256 = false := by
      rw [Bool.eq_false_iff, Ne, digestsEqual_iff, hf.digest]
      exact hsha
    refine ⟨mismatched, c₁, old, ?_, (hsame .target (by decide) (by decide)).trans hT, .inl rfl⟩
    simp only [swap, htext, World.run_bind_of_some _ hwrite, Bool.not_true, Bool.false_eq_true, if_false,
      bringIn, run_hash, hlook, Option.map_some, hv, Bool.not_false, if_true]
    rfl

end Branches

namespace Terms

variable {t : Terms} {c : Card} {h : Handoff}

lemma Ready.act (hr : t.Ready (t.L.view c)) (hgood : ∀ b, Sha256.of b = t.sha → t.good b)
    (hf : Follows t.L t.sha h) (hu : h.Utf8) :
    ∃ out c' b, world.run .ok
        (act t.J (t.L.name .handoff) (some h) (decideRecovery (some h) (presenceOf c h))) c = (some out, c') ∧
      t.L.view c' .target = some b ∧ t.good b := by
  have hbt : h.backupNro ≠ h.targetNro := by
    rw [hf.backup, hf.target]
    exact t.L.distinct.ne (by decide)
  have hst : h.stagedNro ≠ h.targetNro := by
    rw [hf.staged, hf.target]
    exact t.L.distinct.ne (by decide)
  have hht : t.L.name .handoff ≠ h.targetNro := by
    rw [hf.target]
    exact t.L.distinct.ne (by decide)
  have htarget : c.lookup h.targetNro = t.L.view c .target := by rw [hf.target]; rfl
  have hbackup : c.lookup h.backupNro = t.L.view c .backup := by rw [hf.backup]; rfl
  rcases decideRecovery_cases h (presenceOf c h) rfl with
    ⟨hd, _⟩ | ⟨hd, _, hp, _⟩ | ⟨hd, hp, hb, _⟩ | ⟨hd, _, hp⟩ | ⟨hd, _, hp, hs⟩
  · obtain ⟨c', hrun, hT, _⟩ := run_rollBack c hbt hst hht (decideRecovery (some h) (presenceOf c h)).reason
    rw [htarget, hbackup, hf.target] at hT
    simp only [Forwarder.act, hd]
    rcases hr with hs | ⟨hdisp, hmissing⟩
    · obtain ⟨b, hb, hg⟩ := hs.target
      exact ⟨_, c', b, hrun, hT.trans (by simp [hb]), hg⟩
    · obtain ⟨b, hb, hg⟩ := hdisp.backup
      exact ⟨_, c', b, hrun, hT.trans (by simp [hb, hmissing]), hg⟩
  · simp only [Forwarder.act, hd]
    rcases hr with hs | ⟨hdisp, hmissing⟩
    · obtain ⟨b, hb, _⟩ := hs.target
      simp [presenceOf, Card.has, htarget, hb] at hp
    · obtain ⟨b, hb, hg⟩ := hdisp.backup
      obtain ⟨c', hrun, hT⟩ := run_restoreBackup c hbt hst hht
        (decideRecovery (some h) (presenceOf c h)).reason (hbackup.trans hb)
      exact ⟨_, c', b, hrun, by rw [← hT, hf.target]; rfl, hg⟩
  · have hne := hr.installed
    simp [presenceOf, Card.has, htarget, hbackup] at hp hb
    exact absurd hne (by simp [hp, hb])
  · simp only [Forwarder.act, hd]
    rcases hr with hs | ⟨hdisp, hmissing⟩
    · obtain ⟨b, hb, hg⟩ := hs.target
      exact ⟨_, c, b, rfl, hb, hg⟩
    · obtain ⟨b, hb, _⟩ := hdisp.backup
      simp [presenceOf, Card.has, htarget, hbackup, hmissing, hb] at hp
  · have hsound : t.Sound (t.L.view c) := by
      rcases hr with hs | ⟨_, hmissing⟩
      · exact hs
      · simp [presenceOf, Card.has, htarget, hmissing] at hp
    obtain ⟨old, hold, hg⟩ := hsound.target
    obtain ⟨new, hnew⟩ := (c.has_eq_true _).mp hs
    obtain ⟨out, c', b, hrun, hT, hor⟩ := run_swap_target (J := t.J) hf
      ⟨hu.fromVersion, hu.toVersion, hu.staged, hu.target, hu.backup, hu.forwarder⟩ hold (hf.staged ▸ hnew)
    refine ⟨out, c', b, ?_, hT, hor.elim (fun h => h ▸ hg) (hgood b)⟩
    rcases hd with hd | hd <;> simpa only [Forwarder.act, hd] using hrun

lemma Ready.run (hr : t.Ready (t.L.view c)) (hgood : ∀ b, Sha256.of b = t.sha → t.good b) :
    ∃ out c' b, world.run .ok (runSwap t.J (t.L.name .handoff)) c = (some out, c') ∧
      t.L.view c' .target = some b ∧ t.good b := by
  cases hdoc : t.L.view c .handoff with
  | none =>
    rcases hr with hs | ⟨hd, _⟩
    · obtain ⟨b, hb, hg⟩ := hs.target
      have hlook : c.lookup (t.L.name .handoff) = none := hdoc
      refine ⟨fail .unrecoverable (decideRecovery none {}).reason, c, b, ?_, hb, hg⟩
      simp [runSwap, hlook, Forwarder.act, decideRecovery]
    · obtain ⟨text, htext⟩ := hd.handoff
      simp [hdoc] at htext
  | some text =>
    obtain ⟨h, hparse, hf⟩ := (hr.safe.elim Sound.instructed Displaced.instructed) text hdoc
    rw [run_runSwap c hdoc hparse]
    exact hr.act hgood hf (parseHandoff_accepted hparse).2

end Terms

end NsxManager.Forwarder
