import Mathlib.Data.UInt
import NsxManager.Infra.ZipWriter

/-! The size an archive declares, counted in 64 bits, and the limit it is held against. -/

namespace NsxManager.Infra.ZipWriter

open NsxManager.Core Lib

def declaredSize (entries : List ZipEntry) : ℕ := (entries.map (fun entry => entry.uncompressedSize.toNat)).sum

lemma toNat_foldl_size (entries : List ZipEntry) (total : UInt64) :
    (entries.foldl (fun total entry => total + entry.uncompressedSize) total).toNat =
      (total.toNat + declaredSize entries) % 2 ^ 64 := by
  induction entries generalizing total with
  | nil => exact (Nat.mod_eq_of_lt total.toNat_lt).symm
  | cons entry entries ih =>
    rw [List.foldl_cons, ih, UInt64.toNat_add, Nat.mod_add_mod, declaredSize, declaredSize, List.map_cons,
      List.sum_cons, Nat.add_assoc]

lemma toNat_declaredTotal (entries : List ZipEntry) :
    (declaredTotal entries).toNat = declaredSize entries % 2 ^ 64 := by
  rw [declaredTotal, toNat_foldl_size]
  simp

section Verdicts

variable {listed : List ZipEntry} {archivePath : Bytes} {policy : ExtractionPolicy} {limit : UInt64} {watched : Bool}
  {v : Volume}

def Sized (listed : List ZipEntry) (p : CallProgram (Except ArchiveError ExtractionReport)) (v : Volume) : Prop :=
  (world listed).returns p (fun result _ _ => result ≠ .error .tooLarge) v

lemma sized_done {result : Except ArchiveError ExtractionReport} (h : result ≠ .error .tooLarge) :
    Sized listed (pure result) v :=
  World.returns_done h

lemma sized_bind {α : Type} {p : CallProgram α} {k : α → CallProgram (Except ArchiveError ExtractionReport)}
    (hk : ∀ a v', Sized listed (k a) v') : Sized listed (p >>= k) v :=
  World.returns_bind (fun _ a _ => hk a _)

lemma sized_writeFile (entry : ZipEntry) (destination : Bytes) (report : ExtractionReport) :
    Sized listed (writeFile entry destination report) v := by
  refine sized_bind (fun good _ => ?_)
  cases good with
  | false => exact sized_done (by simp)
  | true =>
    refine sized_bind (fun extracted _ => ?_)
    cases extracted with
    | false => exact sized_bind (fun _ _ => sized_done (by simp))
    | true =>
      refine sized_bind (fun written _ => ?_)
      cases written with
      | false => exact sized_bind (fun _ _ => sized_done (by simp))
      | true => exact sized_done (by simp)

lemma sized_extractEntry (entry : ZipEntry) (decision : EntryDecision) (report : ExtractionReport) :
    Sized listed (extractEntry entry decision report) v := by
  have hfile : ∀ destination, Sized listed (extractFile entry destination report) v := by
    refine fun destination => sized_bind (fun made _ => ?_)
    cases made with
    | false => exact sized_done (by simp)
    | true => exact sized_writeFile entry destination report
  unfold extractEntry
  cases decision.action with
  | skipPreserved => exact sized_done (by simp)
  | createDirectory =>
    refine sized_bind (fun made _ => ?_)
    cases made <;> exact sized_done (by simp)
  | write | reject => exact hfile _

lemma sized_extractLoop (total i : ℕ) (decided : List (ZipEntry × EntryDecision)) (report : ExtractionReport) :
    Sized listed (extractLoop watched total i decided report) v := by
  induction decided generalizing i report v with
  | nil => exact sized_done (by simp)
  | cons x rest ih =>
    refine sized_bind (fun going v' => ?_)
    cases going with
    | false => exact sized_done (by simp)
    | true =>
      refine World.returns_bind (World.returns_mono (sized_extractEntry x.1 x.2 report) (fun result v'' _ hsized => ?_))
      cases result with
      | error error => exact World.returns_done hsized
      | ok report => exact ih (i + 1) report

variable {entries : List ZipEntry}

lemma sized_expand (hsize : ¬(0 < limit ∧ limit < declaredTotal entries)) :
    Sized listed (expand archivePath policy limit watched entries) v := by
  unfold expand
  dsimp only
  split
  · exact sized_done (by simp)
  · split
    · exact sized_done (by simp)
    · refine sized_bind (fun _ v' => World.returns_bind (World.returns_mono (sized_extractLoop _ _ _ _)
        (fun result v'' _ hsized => ?_)))
      cases result with
      | error error => exact World.returns_done hsized
      | ok report => exact sized_bind (fun _ _ => sized_done (by simp))

lemma expand_of_tooLarge (haccepted : ∀ entry ∈ entries, (policy.decide entry.name).action ≠ .reject)
    (hne : entries ≠ []) (hsize : 0 < limit ∧ limit < declaredTotal entries) :
    expand archivePath policy limit watched entries = pure (.error .tooLarge) := by
  have hempty : entries.isEmpty = false := List.isEmpty_eq_false_iff.mpr hne
  have hany : (entries.map (fun entry => policy.decide entry.name)).any
      (fun decision => decision.action == .reject) = false := by
    simpa [List.any_eq_false] using haccepted
  simp only [expand, hempty, hany, hsize, Bool.false_eq_true, if_false, and_self, if_true]

end Verdicts

/-- A declared size that does not fit into 64 bits is compared with the limit by what is left of it. -/
theorem declared_bombs_are_refused_iff (entries : List ZipEntry) (archivePath : Bytes) (policy : ExtractionPolicy)
    (limit : UInt64) (watched : Bool) (v : Volume)
    (haccepted : ∀ entry ∈ entries, (policy.decide entry.name).action ≠ .reject) (hlimit : 0 < limit) :
    let runs := (world entries).exec (extractZip archivePath policy limit watched)
    let Refused (fates : List CallFate) : Prop := (runs fates v).outcome = some (.error .tooLarge) ∧
      (runs fates v).state = v ∧ ∀ ev ∈ (runs fates v).log, ev.asked = .entries archivePath
    ((limit.toNat < declaredSize entries → ∀ fates ≠ [], Refused fates) ↔
        (limit.toNat < declaredSize entries → limit.toNat < declaredSize entries % 2 ^ 64)) ∧
      (declaredSize entries % 2 ^ 64 ≤ limit.toNat → ∀ fates, (runs fates v).outcome ≠ some (.error .tooLarge)) := by
  intro runs Refused
  have hlt : limit < declaredTotal entries ↔ limit.toNat < declaredSize entries % 2 ^ 64 := by
    rw [UInt64.lt_iff_toNat_lt, toNat_declaredTotal]
  have hnever : declaredSize entries % 2 ^ 64 ≤ limit.toNat →
      ∀ fates, (runs fates v).outcome ≠ some (.error .tooLarge) := by
    intro hle fates hout
    cases fates with
    | nil => cases hout
    | cons fate fates =>
      have hsized : Sized entries (expand archivePath policy limit watched entries) v :=
        sized_expand (fun h => absurd (hlt.mp h.2) (by omega))
      exact hsized fates _ hout rfl
  refine ⟨⟨fun hrefused hover => ?_, fun hmod hover fates hfates => ?_⟩, hnever⟩
  · by_contra hle
    exact hnever (by omega) [.ok []] (hrefused hover _ (by simp)).1
  · obtain ⟨fate, fates, rfl⟩ := List.exists_cons_of_ne_nil hfates
    have hne : entries ≠ [] := by
      rintro rfl
      exact absurd hover (by simp [declaredSize])
    simp only [Refused, runs, exec_extractZip,
      expand_of_tooLarge haccepted hne ⟨hlimit, hlt.mpr (hmod hover)⟩]
    simp

namespace Sample

def policy : ExtractionPolicy := ⟨ascii "/s", PreserveRules.parse []⟩

def entry (name : Bytes) (size : UInt64) : ZipEntry := ⟨name, size, []⟩

def large : List ZipEntry := [entry (ascii "a") (2 ^ 62), entry (ascii "b") (2 ^ 62)]

def bomb : List ZipEntry := [entry (ascii "a") (2 ^ 63), entry (ascii "b") (2 ^ 63)]

def limit : UInt64 := 6 * 1024 * 1024 * 1024

def empty : Volume := ⟨∅, []⟩

end Sample

theorem a_large_archive_is_refused :
    ((world Sample.large).exec (extractZip (ascii "/a.zip") Sample.policy Sample.limit false) [.ok [1]]
      Sample.empty).outcome = some (.error .tooLarge) := by
  have hiff := (declared_bombs_are_refused_iff Sample.large (ascii "/a.zip") Sample.policy Sample.limit false Sample.empty
    (by decide +kernel) (by decide)).1
  have hsize : Sample.limit.toNat < declaredSize Sample.large ∧
      Sample.limit.toNat < declaredSize Sample.large % 2 ^ 64 := by
    decide +kernel
  exact (hiff.mpr (fun _ => hsize.2) hsize.1 [.ok [1]] (by simp)).1

theorem a_bomb_is_expanded :
    Sample.limit.toNat < declaredSize Sample.bomb ∧
      let t := (world Sample.bomb).exec (extractZip (ascii "/a.zip") Sample.policy Sample.limit false)
        (List.replicate 20 (.ok [1])) Sample.empty
      t.outcome.any Except.isOk = true ∧ t.state.files.lookup (ascii "/s/a") = some [1] := by
  decide +kernel

end NsxManager.Infra.ZipWriter
