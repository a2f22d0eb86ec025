import NsxManager.Forwarder.Swap

/-! What each helper of the forwarder can leave on the card, finished or cut off. -/

namespace NsxManager.Forwarder

open NsxManager.Core Lib Stdio

section

variable {A : Event FileOp FileOp.Reply Fate → Prop} {C : Card → Prop} {c : Card}

lemma agree_extend {c' : Card} {names : List Bytes} {path : Bytes} (h : Card.Agree names c c')
    (hp : path ∈ names) (data : Bytes) : Card.Agree names c (extend c' path data) :=
  h.insert hp _

lemma wp_writeFileAtomic {path data : Bytes} {Q : Bool → Card → Prop}
    (hA : Faithful A (path ++ ascii ".tmp"))
    (hstop : ∀ c', Card.Agree [path, path ++ ascii ".tmp"] c c' →
      (c'.lookup path = c.lookup path ∨ c'.lookup path = none) → C c' ∧ Q false c')
    (hdone : ∀ c', Card.Agree [path, path ++ ascii ".tmp"] c c' → c'.lookup path = some data → Q true c') :
    world.wp A C (writeFileAtomic path data) Q c := by
  have hne : path ≠ path ++ ascii ".tmp" := by
    intro h
    simpa [ascii] using congrArg List.length h
  unfold writeFileAtomic
  generalize path ++ ascii ".tmp" = tmp at *
  have hstart := hstop c (.refl _ _) (.inl rfl)
  have hwritten : ∀ bytes, Card.Agree [path, tmp] c (extend (c.insert tmp []) tmp bytes) ∧
      (extend (c.insert tmp []) tmp bytes).lookup path = c.lookup path ∧
      (extend (c.insert tmp []) tmp bytes).lookup tmp = some bytes := fun bytes =>
    ⟨((Card.Agree.refl _ c).insert (by simp) _).insert (by simp) _,
      by simp [lookup_extend, hne], by simp [lookup_extend]⟩
  refine wp_create hstart.1 hstart.2 ?_
  refine wp_append ?_ (fun bytes _ => (hstop _ (hwritten bytes).1 (.inl (hwritten bytes).2.1)).1) ?_ ?_
  · exact (hstop _ ((Card.Agree.refl _ c).insert (by simp) _)
      (.inl (by rw [Card.lookup_insert_eq, if_neg hne]))).1
  · intro bytes _
    obtain ⟨hagree, hpath, _⟩ := hwritten bytes
    exact wp_promote hne hagree hpath (by simp) hstop hdone
  · intro bytes hbytes
    obtain rfl := hbytes hA
    obtain ⟨hagree, hpath, htmp⟩ := hwritten bytes
    exact wp_promote hne hagree hpath (fun _ => htmp) hstop hdone

lemma flatten_chunksOf (size n : ℕ) (data : Bytes) (hn : data.length ≤ n * size) :
    (chunksOf size n data).flatten = data := by
  induction n generalizing data with
  | zero => simpa [chunksOf, eq_comm] using hn
  | succ n ih =>
    cases data with
    | nil => rfl
    | cons b rest =>
      have hlen : ((b :: rest).drop size).length ≤ n * size := by
        rw [Nat.succ_mul] at hn
        rw [List.length_drop]
        omega
      rw [chunksOf, List.flatten_cons, ih _ hlen, List.take_append_drop]
      exact List.cons_ne_nil b rest

lemma flatten_chunks (data : Bytes) : (chunks data).flatten = data := by
  refine flatten_chunksOf _ _ data ?_
  rw [Nat.succ_mul]
  exact (Nat.lt_div_mul_add (by decide)).le

lemma wp_writeChunks {destination old : Bytes} {l : List Bytes} {Q : Bool → Card → Prop}
    (hold : c.lookup destination = some old)
    (hstop : ∀ c' bytes, Card.Agree [destination] c c' → c'.lookup destination = some (old ++ bytes) →
      (Faithful A destination → bytes <+: l.flatten) → C c' ∧ Q false c')
    (hdone : ∀ c' bytes, Card.Agree [destination] c c' → c'.lookup destination = some (old ++ bytes) →
      (Faithful A destination → bytes = l.flatten) → Q true c') :
    world.wp A C (writeChunks destination l) Q c := by
  induction l generalizing c old with
  | nil => exact hdone c [] (.refl _ _) (by simpa using hold) (fun _ => rfl)
  | cons chunk rest ih =>
    have hext : ∀ bytes, Card.Agree [destination] c (extend c destination bytes) :=
      fun bytes => agree_extend (.refl _ c) (by simp) bytes
    have hpart : ∀ bytes, bytes <+: chunk → C (extend c destination bytes) ∧ Q false (extend c destination bytes) :=
      fun bytes hbytes => hstop _ bytes (hext bytes) (lookup_extended bytes hold)
        (fun _ => hbytes.trans (List.prefix_append chunk rest.flatten))
    refine wp_append (hstop c [] (.refl _ _) (by simpa using hold) (fun _ => List.nil_prefix)).1
      (fun bytes hbytes => (hpart bytes hbytes).1) (fun bytes hbytes => (hpart bytes hbytes).2) (fun bytes hbytes => ?_)
    refine ih (lookup_extended bytes hold) ?_ ?_
    · intro c' more hc' hlook hmore
      refine hstop c' (bytes ++ more) ((hext bytes).trans hc') (by rw [hlook, List.append_assoc]) (fun hA => ?_)
      rw [hbytes hA, List.flatten_cons]
      exact (List.prefix_append_right_inj chunk).mpr (hmore hA)
    · intro c' more hc' hlook hmore
      refine hdone c' (bytes ++ more) ((hext bytes).trans hc') (by rw [hlook, List.append_assoc]) ?_
      intro hA
      rw [hbytes hA, hmore hA, List.flatten_cons]

def Unfinished (source destination : Bytes) (c c' : Card) : Prop :=
  c'.lookup destination = c.lookup destination ∨ c'.lookup destination = none ∨
    ∃ bytes part, c.lookup source = some bytes ∧ part <+: bytes ∧ c'.lookup destination = some part

lemma wp_copyFile {source destination : Bytes} {Q : Bool → Card → Prop} (hne : source ≠ destination)
    (hstop : ∀ c', Card.Agree [destination] c c' → (Faithful A destination → Unfinished source destination c c') →
      C c' ∧ Q false c')
    (hdone : ∀ c' bytes, Card.Agree [destination] c c' → c'.lookup destination = some bytes →
      (Faithful A destination → c.lookup source = some bytes) → Q true c') :
    world.wp A C (copyFile source destination) Q c := by
  have hstart := hstop c (.refl _ _) (fun _ => .inl rfl)
  have hdrop : ∀ d, Card.Agree [destination] c d → (Faithful A destination → Unfinished source destination c d) →
      C d ∧ world.wp A C (remove destination >>= fun _ => pure false) Q d := by
    intro d hd hpart
    have hgone := hstop (d.erase destination) (hd.erase (by simp))
      (fun _ => .inr (.inl (by rw [Card.lookup_erase_eq, if_pos rfl])))
    exact ⟨(hstop d hd hpart).1, wp_remove (hstop d hd hpart).1 (fun _ => (hstop d hd hpart).2) (fun _ => hgone.2)⟩
  have hcreated : Card.Agree [destination] c (c.insert destination []) :=
    (Card.Agree.refl _ c).insert (by simp) _
  have hempty : (c.insert destination []).lookup destination = some [] := AList.lookup_insert _
  have hsource : (c.insert destination []).lookup source = c.lookup source := AList.lookup_insert_ne hne
  unfold copyFile
  refine wp_open hstart.1 hstart.2 ?_
  cases hopen : c.has source with
  | false => exact hstart.2
  | true =>
    obtain ⟨bytes, hbytes⟩ := (c.has_eq_true _).mp hopen
    have hbegun := hdrop _ hcreated (fun _ => .inr (.inr ⟨bytes, [], hbytes, List.nil_prefix, hempty⟩))
    refine wp_create hstart.1 hstart.2 ?_
    refine wp_read hbegun.1 hbegun.2 ?_
    rw [hsource, hbytes]
    refine (World.wp_bind _ _ _).mpr (wp_writeChunks hempty ?_ ?_)
    · intro c' part hc' hlook hpart
      refine hdrop c' (hcreated.trans hc') (fun hA => .inr (.inr ⟨bytes, part, hbytes, ?_, hlook⟩))
      rw [← flatten_chunks bytes]
      exact hpart hA
    · intro c' written hc' hlook hfaithful
      have hwhole : Faithful A destination → written = bytes := fun hA => (hfaithful hA).trans (flatten_chunks bytes)
      have hkept := hdrop c' (hcreated.trans hc')
        (fun hA => .inr (.inr ⟨bytes, written, hbytes, by rw [hwhole hA], hlook⟩))
      refine wp_flush hkept.1 (fun flushed => ?_)
      cases flushed with
      | false => exact hkept.2
      | true => exact hdone c' written (hcreated.trans hc') (by simpa using hlook) (fun hA => by rw [hbytes, hwhole hA])

lemma wp_renameOver {source destination : Bytes} {Q : Bool → Card → Prop} (hC : C c ∧ C (c.erase destination))
    (hfail : Q false c ∧ Q false (c.erase destination))
    (hdone : ∀ d bytes, (d = c ∨ d = c.erase destination) → d.lookup source = some bytes →
      d.lookup destination = none → Q true (d.move source destination)) :
    world.wp A C (renameOver source destination) Q c := by
  have hrename : ∀ d, d = c ∨ d = c.erase destination → C d ∧ Q false d →
      world.wp A C (rename source destination) Q d := by
    intro d hd hok
    rw [← Program.bind_done (rename source destination)]
    exact wp_rename hok.1 hok.2 (fun bytes hsource hfree => hdone d bytes hd hsource hfree)
  exact wp_remove hC.1 (fun _ => hrename c (.inl rfl) ⟨hC.1, hfail.1⟩)
    (fun _ => hrename _ (.inr rfl) ⟨hC.2, hfail.2⟩)

end

section Requests

variable {P : FileOp → Prop} {h : Handoff} {handoffPath : Bytes}

lemma asks_writeFileAtomic_of {path data : Bytes} (hcreate : P (.create (path ++ ascii ".tmp")))
    (happend : P (.append (path ++ ascii ".tmp") data)) (hflush : P (.flush (path ++ ascii ".tmp")))
    (hdiscard : P (.remove (path ++ ascii ".tmp"))) (hremove : P (.remove path))
    (hrename : P (.rename (path ++ ascii ".tmp") path)) : (writeFileAtomic path data).Asks P := by
  have hdrop : (remove (path ++ ascii ".tmp") >>= fun _ => pure false).Asks P := ⟨hdiscard, fun _ => trivial⟩
  refine ⟨hcreate, fun opened => ?_⟩
  cases opened with
  | false => trivial
  | true =>
    refine ⟨happend, fun written => ⟨hflush, fun flushed => ?_⟩⟩
    rcases written with _ | _
    · exact hdrop
    · rcases flushed with _ | _
      · exact hdrop
      · refine ⟨hremove, fun _ => ⟨hrename, fun renamed => ?_⟩⟩
        cases renamed with
        | false => exact hdrop
        | true => trivial

structure Permits (P : FileOp → Prop) (h : Handoff) : Prop where
  probe : ∀ p, P (.probe p)
  hash : ∀ p, P (.hash p)
  remove : ∀ p, P (.remove p)
  restore : P (.rename h.backupNro h.targetNro)

namespace Permits

lemma mono {P' : FileOp → Prop} (hP : Permits P h) (himp : ∀ e, P e → P' e) : Permits P' h :=
  ⟨fun p => himp _ (hP.probe p), fun p => himp _ (hP.hash p), fun p => himp _ (hP.remove p), himp _ hP.restore⟩

lemma asks_renameOver (hP : Permits P h) {source destination : Bytes} (hrename : P (.rename source destination)) :
    (renameOver source destination).Asks P :=
  ⟨hP.remove _, fun _ => ⟨hrename, fun _ => trivial⟩⟩

lemma asks_cleanUp (hP : Permits P h) : (cleanUp h handoffPath).Asks P :=
  ⟨hP.remove _, fun _ => ⟨hP.remove _, fun _ => ⟨hP.remove _, fun _ => trivial⟩⟩⟩

lemma asks_putBack (hP : Permits P h) : (putBack h).Asks P := by
  refine ⟨hP.probe _, fun kept => ?_⟩
  cases kept with
  | false => trivial
  | true => exact (hP.asks_renameOver hP.restore).bind (fun _ => trivial)

lemma asks_confirm (hP : Permits P h) : (confirm h handoffPath).Asks P := by
  refine ⟨hP.hash _, fun installed => ?_⟩
  change Program.Asks _ (if installed.any (digestsEqual · h.stagedSha256) then _ else _)
  split
  · exact hP.asks_cleanUp.bind (fun _ => trivial)
  · exact hP.asks_putBack.bind (fun _ => trivial)

lemma asks_land (hP : Permits P h) (hin : P (.rename (incomingNro h) h.targetNro)) : (land h handoffPath).Asks P := by
  refine (hP.asks_renameOver hin).bind (fun landed => ?_)
  cases landed with
  | false => exact hP.asks_putBack.bind (fun _ => ⟨hP.remove _, fun _ => trivial⟩)
  | true => exact hP.asks_confirm

lemma asks_exchange (hP : Permits P h) (hin : P (.rename (incomingNro h) h.targetNro))
    (haside : P (.rename h.targetNro h.backupNro)) : (exchange h handoffPath).Asks P := by
  have hrest : ∀ aside : Bool, (if !aside then do
        let _ ← Stdio.remove (incomingNro h)
        return fail .ioFailed (ascii "could not move the current version aside")
      else land h handoffPath : FileProgram SwapOutcome).Asks P := by
    intro aside
    cases aside with
    | false => exact ⟨hP.remove _, fun _ => trivial⟩
    | true => exact hP.asks_land hin
  refine ⟨hP.probe _, fun present => ?_⟩
  cases present with
  | false => exact hrest true
  | true => exact (hP.asks_renameOver haside).bind hrest

lemma asks_bringIn (hP : Permits P h) (hin : P (.rename (incomingNro h) h.targetNro))
    (haside : P (.rename h.targetNro h.backupNro)) (hcopy : (copyFile h.stagedNro (incomingNro h)).Asks P) :
    (bringIn h handoffPath).Asks P := by
  refine ⟨hP.hash _, fun (actual : Option Digest) => ?_⟩
  cases actual with
  | none => trivial
  | some digest =>
    change Program.Asks _ (if !digestsEqual digest h.stagedSha256 then _ else _)
    split
    · trivial
    · refine hcopy.bind (fun copied => ?_)
      cases copied with
      | false => exact ⟨hP.remove _, fun _ => trivial⟩
      | true => exact hP.asks_exchange hin haside

lemma asks_rollBack (hP : Permits P h) (why : Bytes) : (rollBack h handoffPath why).Asks P := by
  have hend : ∀ restored : Bool, (if !restored then
        return fail .ioFailed (ascii "could not restore the backup: " ++ h.backupNro)
      else do
        cleanUp h handoffPath
        return ⟨.rolledBack, why⟩ : FileProgram SwapOutcome).Asks P := by
    intro restored
    cases restored with
    | false => trivial
    | true => exact hP.asks_cleanUp.bind (fun _ => trivial)
  refine ⟨hP.probe _, fun kept => ?_⟩
  cases kept with
  | false => exact hend true
  | true =>
    refine ⟨hP.probe _, fun inPlace => ?_⟩
    cases inPlace with
    | true => exact hend true
    | false => exact (hP.asks_renameOver hP.restore).bind hend

lemma asks_restoreBackup (hP : Permits P h) (reason : Bytes) : (restoreBackup h handoffPath reason).Asks P := by
  refine (hP.asks_renameOver hP.restore).bind (fun restored => ?_)
  cases restored with
  | false => trivial
  | true => exact hP.asks_cleanUp.bind (fun _ => trivial)

end Permits

end Requests

section Frames

variable {q : Bytes}

lemma asks_writeFileAtomic {path : Bytes} (data : Bytes) (hpath : path ≠ q) (htmp : path ++ ascii ".tmp" ≠ q) :
    (writeFileAtomic path data).Asks (FileOp.Spares q) :=
  asks_writeFileAtomic_of htmp htmp trivial htmp hpath ⟨htmp, hpath⟩

lemma asks_writeChunks {destination : Bytes} (l : List Bytes) (hne : destination ≠ q) :
    (writeChunks destination l).Asks (FileOp.Spares q) := by
  induction l with
  | nil => trivial
  | cons chunk rest ih =>
    refine ⟨hne, fun written => ?_⟩
    cases written with
    | false => trivial
    | true => exact ih

lemma asks_copyFile {source destination : Bytes} (hne : destination ≠ q) :
    (copyFile source destination).Asks (FileOp.Spares q) := by
  have hend : ∀ copied : Bool, (do
      let flushed ← if copied then Stdio.flush destination else pure false
      if !flushed then
        let _ ← Stdio.remove destination
        return false
      return true : FileProgram Bool).Asks (FileOp.Spares q) := by
    intro copied
    cases copied with
    | false => exact ⟨hne, fun _ => trivial⟩
    | true =>
      refine ⟨trivial, fun flushed => ?_⟩
      cases flushed with
      | false => exact ⟨hne, fun _ => trivial⟩
      | true => trivial
  refine ⟨trivial, fun opened => ?_⟩
  cases opened with
  | false => trivial
  | true =>
    refine ⟨hne, fun created => ?_⟩
    cases created with
    | false => trivial
    | true =>
      refine ⟨trivial, fun data => ?_⟩
      cases data with
      | none => exact hend false
      | some bytes => exact (asks_writeChunks _ hne).bind hend

lemma asks_cleanUp {h : Handoff} {handoffPath : Bytes} (hbackup : h.backupNro ≠ q) (hstaged : h.stagedNro ≠ q)
    (hhandoff : handoffPath ≠ q) : (cleanUp h handoffPath).Asks (FileOp.Spares q) :=
  ⟨hbackup, fun _ => ⟨hstaged, fun _ => ⟨hhandoff, fun _ => trivial⟩⟩⟩

end Frames

end NsxManager.Forwarder
