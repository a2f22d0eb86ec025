import NsxManager.Card
import NsxManager.Core.Sha256
import NsxManager.Infra.Errors
import NsxManager.Lib.Origin

/-! The ports of the domain layer over the card: files, network, archives, clock and progress. -/

namespace NsxManager

open NsxManager.Core Lib Infra

structure ExpectedArtifact where
  size : UInt64
  sha256 : Digest
  deriving DecidableEq

structure ZipEntry where
  name : Bytes
  uncompressedSize : UInt64
  body : Bytes
  deriving DecidableEq

inductive InstallStage where
  | preflight
  | downloading
  | extracting
  | merging
  deriving DecidableEq

structure InstallProgress where
  stage : InstallStage
  done : ℕ
  total : ℕ
  detail : Bytes
  deriving DecidableEq

inductive FirmwareStage where
  | preflight
  | downloading
  | clearing
  | extracting
  deriving DecidableEq

structure FirmwareProgress where
  stage : FirmwareStage
  done : ℕ
  total : ℕ
  detail : Bytes
  deriving DecidableEq

inductive PortOp where
  | probe (path : Bytes)
  | readText (path : Bytes) (maxBytes : ℕ)
  | writeAtomic (path data : Bytes)
  | remove (path : Bytes)
  | makeDirectories (path : Bytes)
  | copyFile (source destination : Bytes)
  | digestOf (path : Bytes)
  | freeSpaceBytes (directory : Bytes)
  | rename (source destination : Bytes)
  | listFilesRecursive (directory : Bytes)
  /-- One of the deletions `removeTree` is made of. -/
  | unlink (path : Bytes)
  | nowUnix
  | download (url destination : Bytes) (expected : ExpectedArtifact)
  | entries (archive : Bytes)
  | unpack (destination body : Bytes)
  | report (progress : InstallProgress)
  | reportFirmware (progress : FirmwareProgress)
  /-- An exception nothing catches. -/
  | abort
  deriving DecidableEq

def PortOp.creates : PortOp → List Bytes
  | .writeAtomic path _ => [path]
  | .copyFile _ destination | .rename _ destination | .download _ destination _ | .unpack destination _ => [destination]
  | _ => []

def PortOp.changes : PortOp → List Bytes
  | .writeAtomic path _ => [path ++ ascii ".tmp", path]
  | .remove path | .unlink path => [path]
  | .rename source destination => [source, destination]
  | e => e.creates

lemma PortOp.creates_subset_changes (e : PortOp) : e.creates ⊆ e.changes := by
  cases e <;> simp [creates, changes]

def PortOp.Spares (P : Bytes → Prop) (e : PortOp) : Prop := ∀ p ∈ e.changes, ¬P p

def PortOp.Reply : PortOp → Type
  | .readText _ _ => Option Bytes
  | .digestOf _ => Option Digest
  | .freeSpaceBytes _ => Option UInt64
  | .listFilesRecursive _ => List Bytes
  | .nowUnix => Int64
  | .download _ _ _ => HttpError
  | .entries _ => List ZipEntry
  | .unpack _ _ => Option ArchiveError
  | .abort => Empty
  | _ => Bool

def delivered (error : HttpError) : Bool := error == .none

def PortOp.succeeded : (e : PortOp) → e.Reply → Bool
  | .writeAtomic _ _, done => done
  | .copyFile _ _, done => done
  | .rename _ _, done => done
  | .download _ _ _, error => delivered error
  | .unpack _ _, failure => (failure : Option ArchiveError).isNone
  | _, _ => false

/-- What the environment does with a request. A failing file operation has no effect; a failing
progress report is a cancellation. -/
inductive PortFate where
  | ok
  | fails
  | time (now : Int64)
  | space (free : Option UInt64)
  | served (body : Bytes)
  | refused (error : HttpError)
  | archived (entries : List ZipEntry)
  | broken (error : ArchiveError)
  deriving DecidableEq

def PortFate.failing : PortFate → Bool
  | .fails => true
  | _ => false

/-- The order in which the files below a directory are listed is the card's own. -/
structure Listing where
  files : Card → Bytes → List Bytes
  nodup : ∀ c directory, (files c directory).Nodup
  complete : ∀ c directory relative, relative ∈ files c directory ↔
    relative ≠ [] ∧ c.has (directory ++ ascii "/" ++ relative) = true
  /-- What a listing that fails on its way still returns. -/
  part : Card → Bytes → List Bytes
  part_sublist : ∀ c directory, (part c directory).Sublist (files c directory)

def Listing.stored : Listing where
  files c directory :=
    (c.keys.filterMap (List.dropPrefix? · (directory ++ ascii "/"))).filter (fun r => !r.isEmpty)
  nodup c directory := by
    refine (List.Nodup.filterMap (fun p q r hp hq => ?_) c.nodupKeys).filter _
    obtain ⟨p', rfl, hp'⟩ := List.dropPrefix?_eq_some_iff.mp hp
    obtain ⟨q', rfl, hq'⟩ := List.dropPrefix?_eq_some_iff.mp hq
    rw [eq_of_beq hp', eq_of_beq hq']
  complete c directory relative := by
    simp only [List.mem_filter, List.mem_filterMap, List.dropPrefix?_eq_some_iff, beq_iff_eq,
      Bool.not_eq_true', List.isEmpty_eq_false_iff, Card.has, AList.lookup_isSome, AList.mem_keys]
    constructor
    · rintro ⟨⟨path, hpath, _, rfl, rfl⟩, hne⟩
      exact ⟨hne, hpath⟩
    · rintro ⟨hne, hpath⟩
      exact ⟨⟨_, hpath, _, rfl, rfl⟩, hne⟩
  part _ _ := []
  part_sublist _ _ := List.nil_sublist _

abbrev PortProgram (α : Type) := Program PortOp PortOp.Reply α

namespace Ports

def admission (expected : ExpectedArtifact) (body : Bytes) : HttpError :=
  if body.length ≠ expected.size.toNat then .sizeMismatch
  else if Sha256.of body ≠ expected.sha256 then .digestMismatch
  else .none

lemma admission_eq_none {expected : ExpectedArtifact} {body : Bytes} :
    admission expected body = .none ↔ body.length = expected.size.toNat ∧ Sha256.of body = expected.sha256 := by
  unfold admission
  split_ifs with hsize hsha <;> simp_all

/-- The gateway verifies size and digest before the file gets its name, and deletes what is in its way
just before that. -/
def fetch (destination : Bytes) (expected : ExpectedArtifact) (c : Card) : PortFate → HttpError × Card
  | .served body =>
    (admission expected body, if admission expected body = .none then c.insert destination body else c)
  | .broken _ => (.writeFailed, c.erase destination)
  | .refused error => (if error = .none then .internal else error, c)
  | _ => (.noNetwork, c)

def duplicate (source destination : Bytes) (c : Card) (fate : PortFate) : Bool × Card :=
  match c.lookup source with
  | some bytes => if fate.failing then (false, c) else (true, c.insert destination bytes)
  | none => (false, c)

def expand (destination body : Bytes) (c : Card) : PortFate → Option ArchiveError × Card
  | .fails => (some .writeFailed, c)
  | .broken error => (some error, c.erase destination)
  | _ => (none, c.insert destination body)

def contents : PortFate → List ZipEntry
  | .archived entries => entries
  | _ => []

/-- A look that fails finds what is there or, if `blind`, nothing (`exists`) or only a part of it. -/
def step (blind : Bool) (L : Listing) : (e : PortOp) → PortFate → Card → Option e.Reply × Card
  | .probe path, fate, c => (some (bif blind && fate.failing then false else c.has path), c)
  | .readText path maxBytes, fate, c =>
    (some (if fate.failing then none else (c.lookup path).filter (fun b => b.length ≤ maxBytes)), c)
  | .writeAtomic path data, fate, c =>
    if fate.failing then (some false, c)
    else (some true, (c.erase (path ++ ascii ".tmp")).insert path data)
  | .remove path, fate, c =>
    if fate.failing then (some (!c.has path), c) else (some true, c.erase path)
  | .makeDirectories _, fate, c => (some (!fate.failing), c)
  | .copyFile source destination, fate, c =>
    (some (duplicate source destination c fate).1, (duplicate source destination c fate).2)
  | .digestOf path, fate, c =>
    (some (if fate.failing then none else (c.lookup path).map Sha256.of), c)
  | .freeSpaceBytes _, fate, c =>
    (some (match fate with | .space free => free | _ => none), c)
  | .rename source destination, fate, c =>
    if fate.failing then (some false, c)
    else (some (Card.has (c.erase destination) source), Card.move (c.erase destination) source destination)
  | .listFilesRecursive directory, fate, c =>
    (some (bif blind && fate.failing then L.part c directory else L.files c directory), c)
  | .unlink path, fate, c => if fate.failing then (some false, c) else (some (c.has path), c.erase path)
  | .nowUnix, fate, c => (some (match fate with | .time now => now | _ => (0 : Int64)), c)
  | .download _ destination expected, fate, c =>
    (some (fetch destination expected c fate).1, (fetch destination expected c fate).2)
  | .entries _, fate, c => (some (contents fate), c)
  | .unpack destination body, fate, c =>
    (some (expand destination body c fate).1, (expand destination body c fate).2)
  | .report _, fate, c => (some (!fate.failing), c)
  | .reportFirmware _, fate, c => (some (!fate.failing), c)
  | .abort, _, c => (none, c)

def worldOf (blind : Bool) (L : Listing) : World PortOp PortOp.Reply PortFate Card := ⟨step blind L⟩

abbrev world (L : Listing) : World PortOp PortOp.Reply PortFate Card := worldOf false L

abbrev fallible (L : Listing) : World PortOp PortOp.Reply PortFate Card := worldOf true L

def probe (path : Bytes) : PortProgram Bool := .call (.probe path) .done

def readText (path : Bytes) (maxBytes : ℕ) : PortProgram (Option Bytes) :=
  .call (.readText path maxBytes) .done

def writeAtomic (path data : Bytes) : PortProgram Bool := .call (.writeAtomic path data) .done

def remove (path : Bytes) : PortProgram Bool := .call (.remove path) .done

def makeDirectories (path : Bytes) : PortProgram Bool := .call (.makeDirectories path) .done

def copyFile (source destination : Bytes) : PortProgram Bool := .call (.copyFile source destination) .done

def digestOf (path : Bytes) : PortProgram (Option Digest) := .call (.digestOf path) .done

def freeSpaceBytes (directory : Bytes) : PortProgram (Option UInt64) :=
  .call (.freeSpaceBytes directory) .done

def rename (source destination : Bytes) : PortProgram Bool := .call (.rename source destination) .done

def listFilesRecursive (directory : Bytes) : PortProgram (List Bytes) :=
  .call (.listFilesRecursive directory) .done

def unlink (path : Bytes) : PortProgram Bool := .call (.unlink path) .done

def nowUnix : PortProgram Int64 := .call .nowUnix .done

def download (url destination : Bytes) (expected : ExpectedArtifact) : PortProgram HttpError :=
  .call (.download url destination expected) .done

def entries (archive : Bytes) : PortProgram (List ZipEntry) := .call (.entries archive) .done

def unpack (destination body : Bytes) : PortProgram (Option ArchiveError) :=
  .call (.unpack destination body) .done

def report (progress : InstallProgress) : PortProgram Bool := .call (.report progress) .done

def reportFirmware (progress : FirmwareProgress) : PortProgram Bool := .call (.reportFirmware progress) .done

def abort {α : Type} : PortProgram α := .call .abort (fun impossible => nomatch impossible)

def removeTree (directory : Bytes) : PortProgram Unit := do
  let files ← listFilesRecursive directory
  Program.each (fun relative => unlink (directory ++ ascii "/" ++ relative) >>= fun _ => pure ()) files

section Rules

variable {blind : Bool} {L : Listing} {α : Type} {A : Event PortOp PortOp.Reply PortFate → Prop} {C : Card → Prop}
  {Q : α → Card → Prop} {c : Card} {p q data : Bytes}

lemma wp_look {k : Bool → PortProgram α} (hC : C c)
    (hk : ∀ seen, seen = c.has p ∨ blind = true ∧ seen = false → (worldOf blind L).wp A C (k seen) Q c) :
    (worldOf blind L).wp A C (probe p >>= k) Q c := by
  refine (World.wp_call _ _).mpr ⟨hC, fun f _ => ?_⟩
  have hseen := hk _ (.inl rfl)
  cases blind with
  | false => exact hseen
  | true =>
    cases f with
    | fails => exact hk false (.inr ⟨rfl, rfl⟩)
    | _ => exact hseen

lemma wp_probe {k : Bool → PortProgram α} (hC : C c) (hk : (world L).wp A C (k (c.has p)) Q c) :
    (world L).wp A C (probe p >>= k) Q c :=
  wp_look hC (fun _ hseen => hseen.resolve_right (by simp) ▸ hk)

lemma wp_readText {n : ℕ} {k : Option Bytes → PortProgram α} (hC : C c)
    (hfail : A ⟨.readText p n, .fails, none⟩ → (worldOf blind L).wp A C (k none) Q c)
    (hk : (worldOf blind L).wp A C (k ((c.lookup p).filter (fun b => b.length ≤ n))) Q c) :
    (worldOf blind L).wp A C (readText p n >>= k) Q c := by
  refine (World.wp_call _ _).mpr ⟨hC, fun f => ?_⟩
  cases f with
  | fails => exact hfail
  | _ => exact fun _ => hk

lemma wp_writeAtomic {k : Bool → PortProgram α} (hC : C c)
    (hfail : A ⟨.writeAtomic p data, .fails, false⟩ → (worldOf blind L).wp A C (k false) Q c)
    (hk : (worldOf blind L).wp A C (k true) Q ((c.erase (p ++ ascii ".tmp")).insert p data)) :
    (worldOf blind L).wp A C (writeAtomic p data >>= k) Q c := by
  refine (World.wp_call _ _).mpr ⟨hC, fun f => ?_⟩
  cases f with
  | fails => exact hfail
  | _ => exact fun _ => hk

lemma wp_remove {k : Bool → PortProgram α} (hC : C c)
    (hfail : A ⟨.remove p, .fails, !c.has p⟩ → (worldOf blind L).wp A C (k (!c.has p)) Q c)
    (hk : (worldOf blind L).wp A C (k true) Q (c.erase p)) : (worldOf blind L).wp A C (remove p >>= k) Q c := by
  refine (World.wp_call _ _).mpr ⟨hC, fun f => ?_⟩
  cases f with
  | fails => exact hfail
  | _ => exact fun _ => hk

lemma wp_makeDirectories {k : Bool → PortProgram α} (hC : C c)
    (hfail : A ⟨.makeDirectories p, .fails, false⟩ → (worldOf blind L).wp A C (k false) Q c)
    (hk : (worldOf blind L).wp A C (k true) Q c) : (worldOf blind L).wp A C (makeDirectories p >>= k) Q c := by
  refine (World.wp_call _ _).mpr ⟨hC, fun f => ?_⟩
  cases f with
  | fails => exact hfail
  | _ => exact fun _ => hk

lemma wp_copyFile {k : Bool → PortProgram α} (hC : C c) (hfail : (worldOf blind L).wp A C (k false) Q c)
    (hk : ∀ bytes, c.lookup p = some bytes → (worldOf blind L).wp A C (k true) Q (c.insert q bytes)) :
    (worldOf blind L).wp A C (copyFile p q >>= k) Q c := by
  have hresult : ∀ f, (worldOf blind L).wp A C (k (duplicate p q c f).1) Q (duplicate p q c f).2 := by
    intro f
    unfold duplicate
    split
    · split
      · exact hfail
      · exact hk _ (by assumption)
    · exact hfail
  exact (World.wp_call _ _).mpr ⟨hC, fun f _ => hresult f⟩

lemma wp_digestOf {k : Option Digest → PortProgram α} (hC : C c) (hfail : (worldOf blind L).wp A C (k none) Q c)
    (hk : (worldOf blind L).wp A C (k ((c.lookup p).map Sha256.of)) Q c) :
    (worldOf blind L).wp A C (digestOf p >>= k) Q c := by
  refine (World.wp_call _ _).mpr ⟨hC, fun f => ?_⟩
  cases f with
  | fails => exact fun _ => hfail
  | _ => exact fun _ => hk

lemma wp_freeSpaceBytes {k : Option UInt64 → PortProgram α} (hC : C c)
    (hk : ∀ free, (worldOf blind L).wp A C (k free) Q c) : (worldOf blind L).wp A C (freeSpaceBytes p >>= k) Q c :=
  (World.wp_call _ _).mpr ⟨hC, fun _ _ => hk _⟩

lemma wp_rename {k : Bool → PortProgram α} (hC : C c)
    (hfail : A ⟨.rename p q, .fails, false⟩ → (worldOf blind L).wp A C (k false) Q c)
    (hk : (worldOf blind L).wp A C (k (Card.has (c.erase q) p)) Q (Card.move (c.erase q) p q)) :
    (worldOf blind L).wp A C (rename p q >>= k) Q c := by
  refine (World.wp_call _ _).mpr ⟨hC, fun f => ?_⟩
  cases f with
  | fails => exact hfail
  | _ => exact fun _ => hk

lemma wp_names {k : List Bytes → PortProgram α} (hC : C c)
    (hk : ∀ names, names.Sublist (L.files c p) → (blind = false → names = L.files c p) →
      (worldOf blind L).wp A C (k names) Q c) : (worldOf blind L).wp A C (listFilesRecursive p >>= k) Q c := by
  refine (World.wp_call _ _).mpr ⟨hC, fun f _ => ?_⟩
  have hall := hk _ (List.Sublist.refl _) (fun _ => rfl)
  cases blind with
  | false => exact hall
  | true =>
    cases f with
    | fails => exact hk _ (L.part_sublist c p) nofun
    | _ => exact hall

lemma wp_listFilesRecursive {k : List Bytes → PortProgram α} (hC : C c)
    (hk : (world L).wp A C (k (L.files c p)) Q c) : (world L).wp A C (listFilesRecursive p >>= k) Q c :=
  wp_names hC (fun _ _ hall => hall rfl ▸ hk)

lemma wp_unlink {k : Bool → PortProgram α} (hC : C c)
    (hfail : A ⟨.unlink p, .fails, false⟩ → (worldOf blind L).wp A C (k false) Q c)
    (hk : (worldOf blind L).wp A C (k (c.has p)) Q (c.erase p)) : (worldOf blind L).wp A C (unlink p >>= k) Q c := by
  refine (World.wp_call _ _).mpr ⟨hC, fun f => ?_⟩
  cases f with
  | fails => exact hfail
  | _ => exact fun _ => hk

lemma wp_nowUnix {k : Int64 → PortProgram α} (hC : C c) (hk : ∀ now, (worldOf blind L).wp A C (k now) Q c) :
    (worldOf blind L).wp A C (nowUnix >>= k) Q c :=
  (World.wp_call _ _).mpr ⟨hC, fun _ _ => hk _⟩

lemma wp_download {expected : ExpectedArtifact} {k : HttpError → PortProgram α} (hC : C c)
    (hfail : ∀ error, error ≠ .none → (worldOf blind L).wp A C (k error) Q c)
    (hlost : (worldOf blind L).wp A C (k .writeFailed) Q (c.erase q))
    (hk : ∀ body, Sha256.of body = expected.sha256 → (worldOf blind L).wp A C (k .none) Q (c.insert q body)) :
    (worldOf blind L).wp A C (download p q expected >>= k) Q c := by
  have hresult : ∀ f, (worldOf blind L).wp A C (k (fetch q expected c f).1) Q (fetch q expected c f).2 := by
    intro f
    cases f with
    | served body =>
      by_cases h : admission expected body = .none
      · simpa only [fetch, h, if_true] using hk body (admission_eq_none.mp h).2
      · simpa only [fetch, if_neg h] using hfail _ h
    | refused error =>
      by_cases h : error = .none
      · simpa only [fetch, if_pos h] using hfail _ (by decide)
      · simpa only [fetch, if_neg h] using hfail _ h
    | broken error => exact hlost
    | _ => exact hfail .noNetwork (by decide)
  exact (World.wp_call _ _).mpr ⟨hC, fun f _ => hresult f⟩

lemma wp_entries {k : List ZipEntry → PortProgram α} (hC : C c)
    (hk : ∀ f, A ⟨.entries p, f, contents f⟩ → (worldOf blind L).wp A C (k (contents f)) Q c) :
    (worldOf blind L).wp A C (entries p >>= k) Q c :=
  (World.wp_call _ _).mpr ⟨hC, hk⟩

lemma wp_report {progress : InstallProgress} {k : Bool → PortProgram α} (hC : C c)
    (hfail : A ⟨.report progress, .fails, false⟩ → (worldOf blind L).wp A C (k false) Q c)
    (hk : (worldOf blind L).wp A C (k true) Q c) : (worldOf blind L).wp A C (report progress >>= k) Q c := by
  refine (World.wp_call _ _).mpr ⟨hC, fun f => ?_⟩
  cases f with
  | fails => exact hfail
  | _ => exact fun _ => hk

lemma wp_abort (hC : C c) : (worldOf blind L).wp A C abort Q c :=
  (World.wp_call _ _).mpr ⟨hC, fun _ => hC⟩

lemma wp_removeTree {I : Card → Prop} (hI : I c) (hC : ∀ c, I c → C c)
    (hstep : ∀ c relative, relative ≠ [] → I c → I (c.erase (p ++ ascii "/" ++ relative))) :
    (world L).wp A C (removeTree p)
      (fun _ c' => I c' ∧ ∀ relative, relative ≠ [] → ¬A ⟨.unlink (p ++ ascii "/" ++ relative), .fails, false⟩ →
        c'.lookup (p ++ ascii "/" ++ relative) = none) c := by
  let J : List Bytes → Card → Prop := fun rest c' => I c' ∧ (∀ relative ∈ rest, relative ≠ []) ∧
    ∀ relative, relative ≠ [] → relative ∉ rest → ¬A ⟨.unlink (p ++ ascii "/" ++ relative), .fails, false⟩ →
      c'.lookup (p ++ ascii "/" ++ relative) = none
  have hlisted : J (L.files c p) c := by
    refine ⟨hI, fun relative h => ((L.complete c p relative).mp h).1, fun relative hne hnot _ => ?_⟩
    rw [L.complete] at hnot
    exact (c.has_eq_false _).mp (by simpa [hne] using hnot)
  refine wp_listFilesRecursive (hC c hI) (World.wp_mono (World.wp_each hlisted ?_) (fun _ h => h)
    (fun _ h => h) (fun _ c' hJ => ⟨hJ.1, fun relative hne => hJ.2.2 relative hne (by simp)⟩))
  rintro relative rest c' _ ⟨hI', hne, hgone⟩
  have hne' : ∀ r ∈ rest, r ≠ [] := fun r hr => hne r (List.mem_cons_of_mem _ hr)
  refine wp_unlink (hC c' hI') (fun hfail => ⟨hI', hne', fun r hr hnot hok => ?_⟩)
    ⟨hstep c' relative (hne relative List.mem_cons_self) hI', hne', fun r hr hnot hok => ?_⟩
  · refine hgone r hr (fun hmem => ?_) hok
    rcases List.mem_cons.mp hmem with rfl | hmem
    · exact hok hfail
    · exact hnot hmem
  · rw [Card.lookup_erase_eq]
    split
    · rfl
    · next hother =>
      refine hgone r hr (fun hmem => ?_) hok
      rcases List.mem_cons.mp hmem with rfl | hmem
      · exact hother rfl
      · exact hnot hmem

end Rules

section Run

variable {L : Listing} {α : Type} {c : Card} {p : Bytes}

lemma run_probe {k : Bool → PortProgram α} :
    (world L).run .ok (probe p >>= k) c = (world L).run .ok (k (c.has p)) c :=
  (world L).run_call .ok (.probe p) k c

lemma run_readText {n : ℕ} {k : Option Bytes → PortProgram α} :
    (world L).run .ok (readText p n >>= k) c =
      (world L).run .ok (k ((c.lookup p).filter (fun b => b.length ≤ n))) c :=
  (world L).run_call .ok (.readText p n) k c

lemma run_listFilesRecursive {k : List Bytes → PortProgram α} :
    (world L).run .ok (listFilesRecursive p >>= k) c = (world L).run .ok (k (L.files c p)) c :=
  (world L).run_call .ok (.listFilesRecursive p) k c

lemma mayAsk_probe {k : Bool → PortProgram α} {P : PortOp → Prop} (h : (world L).mayAsk (k (c.has p)) P c) :
    (world L).mayAsk (probe p >>= k) P c :=
  World.mayAsk_next (f := .ok) rfl h

lemma mayAsk_rename {k : Bool → PortProgram α} {P : PortOp → Prop} {q : Bytes} (h : P (.rename p q)) :
    (world L).mayAsk (rename p q >>= k) P c :=
  World.mayAsk_call (f := .ok) rfl h

end Run

lemma asks_removeTree {P : PortOp → Prop} {directory : Bytes} (hlist : P (.listFilesRecursive directory))
    (hunlink : ∀ relative, P (.unlink (directory ++ ascii "/" ++ relative))) : (removeTree directory).Asks P :=
  ⟨hlist, fun _ => Program.Asks.each _ (fun _ _ => ⟨hunlink _, fun _ => trivial⟩)⟩

lemma step_isSome (L : Listing) (e : PortOp) (c : Card) (he : e ≠ .abort) :
    (((world L).step e .ok c).1).isSome := by
  cases e <;> first | rfl | exact absurd rfl he

lemma step_cut {blind : Bool} {L : Listing} {e : PortOp} {fate : PortFate} {c c' : Card}
    (h : (worldOf blind L).step e fate c = (none, c')) : c' = c := by
  have hanswer := congrArg Prod.fst h
  cases e with
  | abort => exact (congrArg Prod.snd h).symm
  | writeAtomic _ _ | remove _ | rename _ _ | unlink _ =>
    cases fate <;> exact absurd hanswer (Option.some_ne_none _)
  | _ => exact absurd hanswer (Option.some_ne_none _)

section Frame

variable {blind : Bool} {L : Listing} {e : PortOp} {fate : PortFate} {c : Card} {p : Bytes}

lemma lookup_duplicate {q : Bytes} (h : p ≠ q) (source : Bytes) :
    (duplicate source q c fate).2.lookup p = c.lookup p := by
  unfold duplicate
  split
  · split
    · rfl
    · exact AList.lookup_insert_ne h
  · rfl

lemma lookup_fetch {q : Bytes} (h : p ≠ q) (expected : ExpectedArtifact) :
    (fetch q expected c fate).2.lookup p = c.lookup p := by
  cases fate with
  | served body =>
    simp only [fetch]
    split
    · exact AList.lookup_insert_ne h
    · rfl
  | broken error => exact AList.lookup_erase_ne h
  | _ => rfl

lemma lookup_expand {q : Bytes} (h : p ≠ q) (body : Bytes) : (expand q body c fate).2.lookup p = c.lookup p := by
  cases fate with
  | fails => rfl
  | broken error => exact AList.lookup_erase_ne h
  | _ => exact AList.lookup_insert_ne h

lemma lookup_step (h : p ∉ e.changes) : ((worldOf blind L).step e fate c).2.lookup p = c.lookup p := by
  cases e with
  | writeAtomic path data =>
    obtain ⟨htemporary, hpath⟩ : p ≠ path ++ ascii ".tmp" ∧ p ≠ path := by simpa [PortOp.changes] using h
    have hwritten : ((c.erase (path ++ ascii ".tmp")).insert path data).lookup p = c.lookup p := by
      rw [AList.lookup_insert_ne hpath, AList.lookup_erase_ne htemporary]
    cases fate <;> first | rfl | exact hwritten
  | remove path | unlink path =>
    have herased : (c.erase path).lookup p = c.lookup p := AList.lookup_erase_ne (List.ne_of_not_mem_cons h)
    cases fate <;> first | rfl | exact herased
  | rename source destination =>
    obtain ⟨hsource, hdestination⟩ : p ≠ source ∧ p ≠ destination := by simpa [PortOp.changes] using h
    have hmoved : (Card.move (c.erase destination) source destination).lookup p = c.lookup p := by
      rw [Card.lookup_move_of_ne _ _ hsource hdestination, AList.lookup_erase_ne hdestination]
    cases fate <;> first | rfl | exact hmoved
  | copyFile source destination => exact lookup_duplicate (List.ne_of_not_mem_cons h) source
  | download url destination expected => exact lookup_fetch (List.ne_of_not_mem_cons h) expected
  | unpack destination body => exact lookup_expand (List.ne_of_not_mem_cons h) body
  | _ => rfl

lemma absent_step (h : p ∉ e.creates) (hp : c.lookup p = none) : ((worldOf blind L).step e fate c).2.lookup p = none := by
  by_cases hchanges : p ∈ e.changes
  · have herased : ∀ q, (c.erase q).lookup p = none := by
      intro q
      rw [Card.lookup_erase_eq, hp, ite_self]
    cases e with
    | writeAtomic path data =>
      have hwritten : ((c.erase (path ++ ascii ".tmp")).insert path data).lookup p = none := by
        rw [AList.lookup_insert_ne (List.ne_of_not_mem_cons h), herased]
      cases fate <;> first | exact hp | exact hwritten
    | remove path | unlink path => cases fate <;> first | exact hp | exact herased path
    | rename source destination =>
      have hdestination : p ≠ destination := List.ne_of_not_mem_cons h
      have hmoved : (Card.move (c.erase destination) source destination).lookup p = none := by
        by_cases hsource : p = source
        · rw [← hsource, Card.move_of_missing _ _ (herased destination), herased]
        · rw [Card.lookup_move_of_ne _ _ hsource hdestination, herased]
      cases fate <;> first | exact hp | exact hmoved
    | _ => exact absurd hchanges h
  · rw [lookup_step hchanges, hp]

variable {α : Type} {A : Event PortOp PortOp.Reply PortFate → Prop} {P : Bytes → Prop} {prog : PortProgram α}

lemma wp_spares (h : prog.Asks (PortOp.Spares P)) :
    (worldOf blind L).wp A (fun c' => ∀ p, P p → c'.lookup p = c.lookup p) prog
      (fun _ c' => ∀ p, P p → c'.lookup p = c.lookup p) c :=
  World.wp_of_asks h (fun _ _ => rfl) (fun _ _ _ hspares hI p hp =>
    (lookup_step (fun hmem => hspares p hmem hp)).trans (hI p hp))

lemma lookup_exec (h : prog.Asks (PortOp.Spares P)) (fates : List PortFate) (hp : P p) :
    ((worldOf blind L).exec prog fates c).state.lookup p = c.lookup p :=
  World.exec_invariant (I := fun c' : Card => ∀ p, P p → c'.lookup p = c.lookup p) (wp_spares h) p hp

lemma wp_absent (h : prog.Asks (fun e => ∀ p ∈ e.creates, ¬P p)) (hc : ∀ p, P p → c.lookup p = none) :
    (worldOf blind L).wp A (fun c' => ∀ p, P p → c'.lookup p = none) prog (fun _ c' => ∀ p, P p → c'.lookup p = none) c :=
  World.wp_of_asks h hc (fun _ _ _ hcreates hI p hp => absent_step (fun hmem => hcreates p hmem hp) (hI p hp))

end Frame

section Origin

variable {c : Card} {fate : PortFate} {p : Bytes}

lemma duplicate_of_failed {source destination : Bytes} (h : (duplicate source destination c fate).1 = false) :
    (duplicate source destination c fate).2 = c := by
  cases hsource : c.lookup source with
  | none => simp only [duplicate, hsource]
  | some bytes =>
    simp only [duplicate, hsource] at h ⊢
    split_ifs at h ⊢
    rfl

lemma absent_fetch {destination : Bytes} {expected : ExpectedArtifact}
    (h : (fetch destination expected c fate).1 ≠ .none) (hp : c.lookup p = none) :
    (fetch destination expected c fate).2.lookup p = none := by
  cases fate with
  | served body =>
    have herror : admission expected body ≠ .none := h
    simp only [fetch, if_neg herror, hp]
  | broken error => rw [fetch, Card.lookup_erase_eq, hp, ite_self]
  | _ => exact hp

lemma absent_expand {destination body : Bytes} (h : (expand destination body c fate).1.isSome = true)
    (hp : c.lookup p = none) : (expand destination body c fate).2.lookup p = none := by
  cases fate with
  | fails => exact hp
  | broken error => rw [expand, Card.lookup_erase_eq, hp, ite_self]
  | _ => cases h

lemma absent_of_failed {L : Listing} {e : PortOp} {c' : Card} {r : e.Reply}
    (hstep : (world L).step e fate c = (some r, c')) (hfailed : e.succeeded r = false)
    (hp : c.lookup p = none) : c'.lookup p = none := by
  have hreply : ((world L).step e fate c).1 = some r := congrArg Prod.fst hstep
  obtain rfl : ((world L).step e fate c).2 = c' := congrArg Prod.snd hstep
  by_cases hcreates : p ∈ e.creates
  · cases e with
    | writeAtomic path data =>
      cases fate with
      | fails => exact hp
      | _ => exact absurd (hfailed.symm.trans (Option.some.inj hreply).symm) Bool.false_ne_true
    | copyFile source destination =>
      have hsame := duplicate_of_failed ((Option.some.inj hreply).trans hfailed)
      exact (congrArg (AList.lookup p) hsame).trans hp
    | rename source destination =>
      have hmissing : fate.failing = false → Card.has (c.erase destination) source = false := by
        intro hfate
        cases fate <;> first | exact (Option.some.inj hreply).trans hfailed | cases hfate
      have hmoved : fate.failing = false → (Card.move (c.erase destination) source destination).lookup p = none := by
        intro hfate
        rw [Card.move_of_missing _ _ ((Card.has_eq_false _ _).mp (hmissing hfate)), Card.lookup_erase_eq, hp, ite_self]
      cases fate <;> first | exact hp | exact hmoved rfl
    | download url destination expected =>
      have hundelivered : delivered (fetch destination expected c fate).1 = false :=
        (congrArg delivered (Option.some.inj hreply)).trans hfailed
      exact absent_fetch (by simpa [delivered] using hundelivered) hp
    | unpack destination body =>
      have hsome : (r : Option ArchiveError).isSome = true := Option.isNone_eq_false_iff.mp hfailed
      exact absent_expand ((Option.some.inj hreply).symm ▸ hsome) hp
    | _ => cases hcreates
  · exact absent_step hcreates hp

def ledger (L : Listing) : (world L).Ledger Bytes where
  present c p := c.has p
  puts ev p := decide (p ∈ ev.asked.creates) && ev.asked.succeeded ev.reply
  sound {e f c r c' p} hstep hthere hputs := by
    by_contra habsent
    have hp : c.lookup p = none := (c.has_eq_false p).mp (by simpa using habsent)
    have hnone : c'.lookup p = none := by
      rcases Bool.and_eq_false_iff.mp hputs with hcreates | hfailed
      · obtain rfl : ((world L).step e f c).2 = c' := congrArg Prod.snd hstep
        exact absent_step (by simpa using hcreates) hp
      · exact absent_of_failed hstep hfailed hp
    rw [(c'.has_eq_false p).mpr hnone] at hthere
    cases hthere
  cut {e f c c' p} hstep hthere := by
    rwa [step_cut hstep] at hthere

lemma not_puts_of_creates {L : Listing} {e : PortOp} {p : Bytes} (h : p ∉ e.creates) (f : PortFate) (r : e.Reply) :
    (ledger L).puts ⟨e, f, r⟩ p = false := by
  simp [ledger, h]

end Origin

section Granted

variable {blind : Bool} {L : Listing} {α : Type} {e : PortOp} {l l' : List (Event PortOp PortOp.Reply PortFate)} {c : Card}

def Granted (e : PortOp) (log : List (Event PortOp PortOp.Reply PortFate)) : Prop :=
  ∃ ev ∈ log, ev.asked = e ∧ ev.fate.failing = false

instance (e : PortOp) (log : List (Event PortOp PortOp.Reply PortFate)) : Decidable (Granted e log) :=
  inferInstanceAs (Decidable (∃ ev ∈ log, _))

@[simp] lemma granted_nil : ¬Granted e [] := by
  simp [Granted]

@[simp] lemma granted_cons {ev : Event PortOp PortOp.Reply PortFate} :
    Granted e (ev :: l) ↔ (ev.asked = e ∧ ev.fate.failing = false) ∨ Granted e l := by
  simp [Granted]

@[simp] lemma granted_append : Granted e (l ++ l') ↔ Granted e l ∨ Granted e l' := by
  simp [Granted, or_and_right, exists_or]

lemma not_granted_of_asked {P : PortOp → Prop} (h : ∀ ev ∈ l, P ev.asked) (he : ¬P e) : ¬Granted e l := by
  rintro ⟨ev, hev, rfl, _⟩
  exact he (h ev hev)

def Deletes (e : PortOp) : Prop := e.changes = [] ∨ (∃ p, e = .remove p) ∨ ∃ p, e = .unlink p

lemma deletes_step {fate : PortFate} {p : Bytes} (h : Deletes e) : ((worldOf blind L).step e fate c).2.lookup p =
    if (e = .remove p ∨ e = .unlink p) ∧ fate.failing = false then none else c.lookup p := by
  rcases h with h | ⟨q, rfl⟩ | ⟨q, rfl⟩
  · rw [lookup_step (by simp [h]), if_neg]
    rintro ⟨rfl | rfl, _⟩ <;> cases h
  all_goals
    have herased : (c.erase q).lookup p = if q = p then none else c.lookup p := by
      rw [Card.lookup_erase_eq]
      simp only [eq_comm]
    cases fate <;> simp only [PortOp.remove.injEq, PortOp.unlink.injEq, reduceCtorEq, or_false, false_or,
      PortFate.failing, and_true, and_false, if_false, Bool.true_eq_false] <;> first | exact herased | rfl

lemma lookup_of_deletes {prog : PortProgram α} (h : prog.Asks Deletes) (fates : List PortFate) (p : Bytes) :
    ((worldOf blind L).exec prog fates c).state.lookup p =
      if Granted (.remove p) ((worldOf blind L).exec prog fates c).log ∨ Granted (.unlink p) ((worldOf blind L).exec prog fates c).log
      then none else c.lookup p := by
  induction prog generalizing fates c with
  | done a => simp
  | call e next ih =>
    cases fates with
    | nil => simp
    | cons f fates =>
      have hstep := @deletes_step blind L e c f p h.1
      rw [World.exec_cons]
      rcases hs : (worldOf blind L).step e f c with ⟨r | r, c'⟩
      · obtain rfl := step_cut hs
        simp
      · rw [hs] at hstep
        dsimp only at hstep ⊢
        rw [ih r (h.2 r), hstep]
        simp only [granted_cons]
        split_ifs <;> first | rfl | grind

lemma returns_deletes {prog : PortProgram α} (h : prog.Asks Deletes) :
    (worldOf blind L).returns prog (fun _ c' l => ∀ p, c'.lookup p =
      if Granted (.remove p) l ∨ Granted (.unlink p) l then none else c.lookup p) c :=
  fun fates _ _ p => lookup_of_deletes h fates p

section Returns

variable {Q : α → Card → List (Event PortOp PortOp.Reply PortFate) → Prop} {p q : Bytes}

lemma returns_probe {k : Bool → PortProgram α}
    (hk : ∀ f seen, seen = (c.has p && !f.failing) →
      (fallible L).returns (k seen) (fun a t l => Q a t (⟨.probe p, f, seen⟩ :: l)) c) :
    (fallible L).returns (probe p >>= k) Q c := by
  refine World.returns_call (fun f seen c' hstep => ?_)
  obtain rfl : c = c' := congrArg Prod.snd hstep
  have hreply : (bif f.failing then false else c.has p) = seen := Option.some.inj (congrArg Prod.fst hstep)
  refine hk f seen ?_
  rw [← hreply]
  cases f.failing <;> simp

lemma returns_listFilesRecursive {k : List Bytes → PortProgram α}
    (hk : ∀ f names, names = (bif f.failing then L.part c p else L.files c p) →
      (fallible L).returns (k names) (fun a t l => Q a t (⟨.listFilesRecursive p, f, names⟩ :: l)) c) :
    (fallible L).returns (listFilesRecursive p >>= k) Q c := by
  refine World.returns_call (fun f names c' hstep => ?_)
  obtain rfl : c = c' := congrArg Prod.snd hstep
  exact hk f names (Option.some.inj (congrArg Prod.fst hstep)).symm

lemma returns_rename {k : Bool → PortProgram α}
    (hfail : (worldOf blind L).returns (k false) (fun a t l => Q a t (⟨.rename p q, .fails, false⟩ :: l)) c)
    (hk : ∀ f : PortFate, f.failing = false → (worldOf blind L).returns (k (Card.has (c.erase q) p))
      (fun a t l => Q a t (⟨.rename p q, f, Card.has (c.erase q) p⟩ :: l)) (Card.move (c.erase q) p q)) :
    (worldOf blind L).returns (rename p q >>= k) Q c := by
  refine World.returns_call (fun f r c' hstep => ?_)
  cases f with
  | fails =>
    obtain ⟨rfl, rfl⟩ : false = r ∧ c = c' := ⟨Option.some.inj (congrArg Prod.fst hstep), congrArg Prod.snd hstep⟩
    exact hfail
  | _ =>
    obtain ⟨rfl, rfl⟩ : Card.has (c.erase q) p = r ∧ Card.move (c.erase q) p q = c' :=
      ⟨Option.some.inj (congrArg Prod.fst hstep), congrArg Prod.snd hstep⟩
    exact hk _ rfl

lemma returns_remove {k : Bool → PortProgram α}
    (hfail : (worldOf blind L).returns (k (!c.has p)) (fun a t l => Q a t (⟨.remove p, .fails, !c.has p⟩ :: l)) c)
    (hk : ∀ f : PortFate, f.failing = false →
      (worldOf blind L).returns (k true) (fun a t l => Q a t (⟨.remove p, f, true⟩ :: l)) (c.erase p)) :
    (worldOf blind L).returns (remove p >>= k) Q c := by
  refine World.returns_call (fun f r c' hstep => ?_)
  cases f with
  | fails =>
    obtain ⟨rfl, rfl⟩ : (!c.has p) = r ∧ c = c' := ⟨Option.some.inj (congrArg Prod.fst hstep), congrArg Prod.snd hstep⟩
    exact hfail
  | _ =>
    obtain ⟨rfl, rfl⟩ : true = r ∧ c.erase p = c' := ⟨Option.some.inj (congrArg Prod.fst hstep), congrArg Prod.snd hstep⟩
    exact hk _ rfl

lemma returns_download {expected : ExpectedArtifact} {k : HttpError → PortProgram α}
    (hk : ∀ f, (worldOf blind L).returns (k (fetch q expected c f).1)
      (fun a t l => Q a t (⟨.download p q expected, f, (fetch q expected c f).1⟩ :: l)) (fetch q expected c f).2) :
    (worldOf blind L).returns (download p q expected >>= k) Q c := by
  refine World.returns_call (fun f r c' hstep => ?_)
  obtain ⟨rfl, rfl⟩ : (fetch q expected c f).1 = r ∧ (fetch q expected c f).2 = c' :=
    ⟨Option.some.inj (congrArg Prod.fst hstep), congrArg Prod.snd hstep⟩
  exact hk f

lemma served_of_fetch {expected : ExpectedArtifact} {f : PortFate} (h : (fetch q expected c f).1 = .none) :
    ∃ body, f = .served body ∧ body.length = expected.size.toNat ∧ Sha256.of body = expected.sha256 := by
  cases f with
  | served body => exact ⟨body, rfl, admission_eq_none.mp h⟩
  | refused error =>
    simp only [fetch] at h
    split at h
    · cases h
    · next hne => exact absurd h hne
  | _ => cases h

end Returns

end Granted

end Ports

end NsxManager
