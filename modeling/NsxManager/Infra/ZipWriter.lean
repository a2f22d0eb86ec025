import NsxManager.Core.Resolver
import NsxManager.Infra.ZipExtractor
import NsxManager.Lib.Log

/-! Expanding an archive, call by call: what the extractor asks of the file system and of the archive library. -/

namespace NsxManager.Infra.ZipWriter

open NsxManager.Core Lib

inductive CallOp where
  /-- The entries, on the first opening of the archive. -/
  | entries (archive : Bytes)
  | reopen (archive : Bytes)
  | mkdir (path : Bytes)
  | isDirectory (path : Bytes)
  /-- An output stream that truncates what is there. -/
  | openStream (path : Bytes)
  /-- `extractEntryToStream`, into the stream that is open on the path. -/
  | extractEntryToStream (name path : Bytes)
  | flush (path : Bytes)
  | remove (path : Bytes)
  | progress (progress : ExtractionProgress)
  deriving DecidableEq

def CallOp.Reply : CallOp → Type
  | .entries _ => List ZipEntry
  | .reopen _ | .mkdir _ | .remove _ => Unit
  | _ => Bool

/-- A call that fails may have written some of what it was to write. -/
inductive CallFate where
  | ok (written : Bytes)
  | fails (written : Bytes)
  deriving DecidableEq

def CallFate.failing : CallFate → Bool
  | .fails _ => true
  | .ok _ => false

def CallFate.written : CallFate → Bytes
  | .ok written | .fails written => written

structure Volume where
  files : Card
  directories : List Bytes

/-- The library lists the same entries whenever the archive is opened. -/
def step (listed : List ZipEntry) : (e : CallOp) → CallFate → Volume → Option e.Reply × Volume
  | .entries _, _, v => (some listed, v)
  | .reopen _, _, v => (some (), v)
  | .mkdir path, fate, v => (some (), if fate.failing then v else { v with directories := path :: v.directories })
  | .isDirectory _, fate, v => (some (!fate.failing), v)
  | .openStream path, fate, v =>
    if fate.failing then (some false, v) else (some true, { v with files := v.files.insert path [] })
  | .extractEntryToStream _ path, fate, v => (some (!fate.failing), { v with files := v.files.insert path fate.written })
  | .flush _, fate, v => (some (!fate.failing), v)
  | .remove path, fate, v => (some (), if fate.failing then v else { v with files := v.files.erase path })
  | .progress _, fate, v => (some (!fate.failing), v)

def world (listed : List ZipEntry) : World CallOp CallOp.Reply CallFate Volume := ⟨step listed⟩

abbrev CallProgram (α : Type) := Program CallOp CallOp.Reply α

def ask (e : CallOp) : CallProgram e.Reply := Program.request e

/-- What `makeDirectories` hands to `mkdir`, from the part of the path it has gone over on. -/
def components (gone : Bytes) : Bytes → List Bytes
  | [] => []
  | c :: rest =>
    let atSeparator := c == byte '/' && !gone.isEmpty
    let component := if atSeparator then gone else gone ++ [c]
    if (atSeparator || rest.isEmpty) && !component.isEmpty && component.getLast? != some (byte ':') then
      component :: components (gone ++ [c]) rest
    else components (gone ++ [c]) rest

/-- Whether `mkdir` succeeds is not looked at. -/
def makeDirectories (path : Bytes) : CallProgram Bool :=
  if path.isEmpty then pure false
  else do
    Program.each (fun component => ask (.mkdir component)) (components [] path)
    ask (.isDirectory path)

def discard (path : Bytes) (error : ArchiveError) : CallProgram (Except ArchiveError ExtractionReport) := do
  ask (.remove path)
  return .error error

def writeFile (entry : ZipEntry) (destination : Bytes) (report : ExtractionReport) :
    CallProgram (Except ArchiveError ExtractionReport) := do
  let good : Bool ← ask (.openStream destination)
  if !good then return .error .writeFailed
  else
    let extracted : Bool ← ask (.extractEntryToStream entry.name destination)
    if !extracted then discard destination .readFailed
    else
      let written : Bool ← ask (.flush destination)
      if !written then discard destination .writeFailed
      else
        return .ok { report with filesWritten := report.filesWritten + 1,
                                 bytesWritten := report.bytesWritten + entry.uncompressedSize }

def makeParent (path : Bytes) : CallProgram Bool :=
  if (parentOf path).isEmpty then pure true else makeDirectories (parentOf path)

/-- The archive may never have declared the directory of the file. -/
def extractFile (entry : ZipEntry) (destination : Bytes) (report : ExtractionReport) :
    CallProgram (Except ArchiveError ExtractionReport) := do
  let made ← makeParent destination
  if !made then return .error .directoryFailed else writeFile entry destination report

def extractEntry (entry : ZipEntry) (decision : EntryDecision) (report : ExtractionReport) :
    CallProgram (Except ArchiveError ExtractionReport) :=
  match decision.action with
  | .skipPreserved => return .ok { report with skippedPreserved := report.skippedPreserved + 1 }
  | .createDirectory => do
    let made ← makeDirectories decision.destination
    if !made then return .error .directoryFailed
    else return .ok { report with directoriesCreated := report.directoriesCreated + 1 }
  | _ => extractFile entry decision.destination report

def onProgress (watched : Bool) (progress : ExtractionProgress) : CallProgram Bool :=
  if watched then ask (.progress progress) else pure true

/-- The second pass, over the entries with what the first one decided about each. -/
def extractLoop (watched : Bool) (total : ℕ) :
    ℕ → List (ZipEntry × EntryDecision) → ExtractionReport → CallProgram (Except ArchiveError ExtractionReport)
  | _, [], report => return .ok report
  | i, (entry, decision) :: rest, report => do
    let going ← onProgress watched ⟨i, total, report.bytesWritten, entry.name⟩
    if !going then return .error .aborted
    else
      let extracted ← extractEntry entry decision report
      match extracted with
      | .error error => return .error error
      | .ok report => extractLoop watched total (i + 1) rest report

def expand (archivePath : Bytes) (policy : ExtractionPolicy) (maxUncompressedBytes : UInt64) (watched : Bool)
    (entries : List ZipEntry) : CallProgram (Except ArchiveError ExtractionReport) := do
  let decisions := entries.map (fun entry => policy.decide entry.name)
  if entries.isEmpty then return .error .empty
  else if decisions.any (fun decision => decision.action == .reject) then return .error .unsafeEntry
  else if 0 < maxUncompressedBytes ∧ maxUncompressedBytes < declaredTotal entries then return .error .tooLarge
  else
    ask (.reopen archivePath)
    let extracted ← extractLoop watched entries.length 0 (entries.zip decisions) {}
    match extracted with
    | .error error => return .error error
    | .ok report =>
      let _ ← onProgress watched ⟨entries.length, entries.length, report.bytesWritten, []⟩
      return .ok report

def extractZip (archivePath : Bytes) (policy : ExtractionPolicy) (maxUncompressedBytes : UInt64) (watched : Bool) :
    CallProgram (Except ArchiveError ExtractionReport) := do
  let entries ← ask (.entries archivePath)
  expand archivePath policy maxUncompressedBytes watched entries

lemma mem_components {gone rest d : Bytes} (h : d ∈ components gone rest) :
    d = gone ++ rest ∨ d ++ ascii "/" <+: gone ++ rest := by
  induction rest generalizing gone with
  | nil => cases h
  | cons c rest ih =>
    have hsplit : gone ++ c :: rest = gone ++ [c] ++ rest := by simp
    have hrest : d ∈ components (gone ++ [c]) rest → d = gone ++ c :: rest ∨ d ++ ascii "/" <+: gone ++ c :: rest := by
      rw [hsplit]
      exact ih
    rw [components] at h
    by_cases hseparator : (c == byte '/' && !gone.isEmpty) = true
    · obtain rfl : c = byte '/' := by
        rw [Bool.and_eq_true, beq_iff_eq] at hseparator
        exact hseparator.1
      simp only [hseparator, if_true] at h
      split at h
      · rcases List.mem_cons.mp h with rfl | h
        · exact .inr ⟨rest, by simp [ascii]⟩
        · exact hrest h
      · exact hrest h
    · rw [Bool.not_eq_true] at hseparator
      simp only [hseparator, Bool.false_eq_true, if_false, Bool.false_or] at h
      split at h
      · next hmade =>
        rcases List.mem_cons.mp h with rfl | h
        · obtain rfl : rest = [] := by
            rw [Bool.and_eq_true, Bool.and_eq_true, List.isEmpty_iff] at hmade
            exact hmade.1.1
          exact .inl rfl
        · exact hrest h
      · exact hrest h

section Inside

variable (policy : ExtractionPolicy) (entries : List ZipEntry)

def Written (path : Bytes) : Prop := ∃ entry ∈ entries,
  resolveUnder policy.root entry.name = .ok path ∧ policy.preserve.preserves (entryBody entry.name) = false

def Entered (path : Bytes) : Prop := ∃ entry ∈ entries, ∃ image,
  resolveUnder policy.root entry.name = .ok image ∧ (path = image ∨ path ++ ascii "/" <+: image)

def Inside : CallOp → Prop
  | .openStream path | .extractEntryToStream _ path | .flush path | .remove path => Written policy entries path
  | .mkdir path => Entered policy entries path
  | _ => True

variable {policy entries}

lemma Entered.component {path d : Bytes} (h : Entered policy entries path)
    (hd : d = path ∨ d ++ ascii "/" <+: path) : Entered policy entries d := by
  obtain ⟨entry, hentry, image, himage, hpath⟩ := h
  refine ⟨entry, hentry, image, himage, ?_⟩
  rcases hd with rfl | hd
  · exact hpath
  · rcases hpath with rfl | hpath
    · exact .inr hd
    · exact .inr (hd.trans ((List.prefix_append _ _).trans hpath))

lemma asks_makeDirectories {path : Bytes} (h : Entered policy entries path) :
    (makeDirectories path).Asks (Inside policy entries) := by
  unfold makeDirectories
  cases hempty : path.isEmpty with
  | true => trivial
  | false =>
    refine Program.Asks.bind (Program.Asks.each _ (fun d hd => ⟨?_, fun _ => trivial⟩))
      (fun _ => ⟨trivial, fun _ => trivial⟩)
    exact h.component (mem_components hd)

lemma parentOf_isPrefix {path : Bytes} (h : parentOf path ≠ []) : parentOf path ++ ascii "/" <+: path := by
  have hsplit := List.takeWhile_append_dropWhile (p := fun c => c != byte '/') (l := path.reverse)
  cases hrest : path.reverse.dropWhile (fun c => c != byte '/') with
  | nil => simp [parentOf, hrest] at h
  | cons c rest =>
    have hslash : c = byte '/' := by
      have hhead := List.head_dropWhile_not (p := fun c => c != byte '/') (l := path.reverse) (by simp [hrest])
      simpa [hrest] using hhead
    refine ⟨(path.reverse.takeWhile (fun c => c != byte '/')).reverse, ?_⟩
    rw [parentOf, hrest]
    rw [hrest] at hsplit
    have hpath := congrArg List.reverse hsplit
    simpa [hslash, ascii] using hpath

lemma asks_writeFile {entry : ZipEntry} {path : Bytes} (h : Written policy entries path) (report : ExtractionReport) :
    (writeFile entry path report).Asks (Inside policy entries) := by
  have hdiscard : ∀ error, (discard path error).Asks (Inside policy entries) :=
    fun _ => ⟨h, fun _ => trivial⟩
  refine ⟨h, fun good => ?_⟩
  cases good with
  | false => trivial
  | true =>
    refine ⟨h, fun extracted => ?_⟩
    cases extracted with
    | false => exact hdiscard _
    | true =>
      refine ⟨h, fun written => ?_⟩
      cases written with
      | false => exact hdiscard _
      | true => trivial

lemma asks_extractEntry {entry : ZipEntry} (hentry : entry ∈ entries)
    (hsafe : (policy.decide entry.name).action ≠ .reject) (report : ExtractionReport) :
    (extractEntry entry (policy.decide entry.name) report).Asks (Inside policy entries) := by
  unfold ExtractionPolicy.decide at hsafe ⊢
  cases hresolved : resolveUnder policy.root entry.name with
  | error error => simp [hresolved] at hsafe
  | ok path =>
    have hentered : Entered policy entries path := ⟨entry, hentry, path, hresolved, .inl rfl⟩
    cases hpreserved : policy.preserve.preserves (entryBody entry.name) with
    | true => trivial
    | false =>
      have hwritten : Written policy entries path := ⟨entry, hentry, hresolved, hpreserved⟩
      cases hdirectory : isDirectoryName entry.name with
      | true =>
        refine (asks_makeDirectories hentered).bind (fun made => ?_)
        cases made <;> trivial
      | false =>
        have hparent : (makeParent path).Asks (Inside policy entries) := by
          unfold makeParent
          cases hempty : (parentOf path).isEmpty with
          | true => trivial
          | false =>
            exact asks_makeDirectories (hentered.component (.inr (parentOf_isPrefix (by simpa using hempty))))
        have hfile : (extractFile entry path report).Asks (Inside policy entries) := by
          refine hparent.bind (fun made => ?_)
          cases made with
          | false => trivial
          | true => exact asks_writeFile hwritten report
        exact hfile

lemma asks_onProgress {watched : Bool} (progress : ExtractionProgress) :
    (onProgress watched progress).Asks (Inside policy entries) := by
  cases watched with
  | true => exact ⟨trivial, fun _ => trivial⟩
  | false => trivial

lemma asks_extractLoop {watched : Bool} {total : ℕ} (i : ℕ) (decided : List (ZipEntry × EntryDecision))
    (report : ExtractionReport)
    (h : ∀ x ∈ decided, x.1 ∈ entries ∧ x.2 = policy.decide x.1.name ∧ x.2.action ≠ .reject) :
    (extractLoop watched total i decided report).Asks (Inside policy entries) := by
  induction decided generalizing i report with
  | nil => trivial
  | cons x rest ih =>
    obtain ⟨entry, decision⟩ := x
    obtain ⟨hentry, hdecision, hsafe⟩ := h _ List.mem_cons_self
    dsimp only at hentry hdecision hsafe
    subst hdecision
    refine (asks_onProgress _).bind (fun going => ?_)
    cases going with
    | false => trivial
    | true =>
      refine (asks_extractEntry hentry hsafe report).bind (fun extracted => ?_)
      cases extracted with
      | error error => trivial
      | ok report => exact ih (i + 1) report (fun x hx => h x (List.mem_cons_of_mem _ hx))

lemma asks_expand {archivePath : Bytes} {limit : UInt64} {watched : Bool} :
    (expand archivePath policy limit watched entries).Asks (Inside policy entries) := by
  unfold expand
  dsimp only
  split
  · trivial
  split
  · trivial
  · next hsafe =>
    split
    · trivial
    have hreopen : (ask (.reopen archivePath)).Asks (Inside policy entries) := ⟨trivial, fun _ => trivial⟩
    refine hreopen.bind (fun _ => (asks_extractLoop 0 _ _ (fun x hx => ?_)).bind (fun extracted => ?_))
    · rw [← List.map_prod_left_eq_zip] at hx
      obtain ⟨entry, hentry, rfl⟩ := List.mem_map.mp hx
      refine ⟨hentry, rfl, fun hreject => hsafe ?_⟩
      simp only [List.any_map, List.any_eq_true]
      exact ⟨entry, hentry, by simpa using hreject⟩
    · cases extracted with
      | error error => trivial
      | ok report => exact (asks_onProgress _).bind (fun _ => trivial)

lemma not_written_of_preserved {entry : ZipEntry} {path : Bytes} (hplace : resolveUnder policy.root entry.name = .ok path)
    (hpreserved : policy.preserve.preserves (entryBody entry.name) = true) : ¬Written policy entries path := by
  rintro ⟨other, _, hother, hunpreserved⟩
  have heq : other.name = entry.name :=
    List.tail_eq_of_cons_eq (List.append_cancel_left ((resolveUnder_eq hother).1.symm.trans (resolveUnder_eq hplace).1))
  rw [heq, hpreserved] at hunpreserved
  cases hunpreserved

structure Expanded (policy : ExtractionPolicy) (entries : List ZipEntry) (v v' : Volume) : Prop where
  files : ∀ path, ¬Written policy entries path → v'.files.lookup path = v.files.lookup path
  directories : ∀ path ∈ v'.directories, path ∈ v.directories ∨ Entered policy entries path

lemma Expanded.step {v v' : Volume} {e : CallOp} (h : Expanded policy entries v v') (he : Inside policy entries e)
    (listed : List ZipEntry) (fate : CallFate) : Expanded policy entries v ((world listed).step e fate v').2 := by
  have hinsert : ∀ path body, Written policy entries path →
      Expanded policy entries v { v' with files := v'.files.insert path body } := by
    intro path body hpath
    refine ⟨fun q hq => ?_, h.directories⟩
    have hne : q ≠ path := fun heq => hq (heq ▸ hpath)
    rw [AList.lookup_insert_ne hne]
    exact h.files q hq
  cases e with
  | mkdir path =>
    cases fate with
    | fails _ => exact h
    | ok _ =>
      refine ⟨h.files, fun d hd => ?_⟩
      rcases List.mem_cons.mp hd with rfl | hd
      · exact .inr he
      · exact h.directories d hd
  | openStream path =>
    cases fate with
    | fails _ => exact h
    | ok _ => exact hinsert path [] he
  | extractEntryToStream name path => exact hinsert path _ he
  | remove path =>
    cases fate with
    | fails _ => exact h
    | ok _ =>
      refine ⟨fun q hq => ?_, h.directories⟩
      have hne : q ≠ path := fun heq => hq (heq ▸ he)
      exact (AList.lookup_erase_ne hne).trans (h.files q hq)
  | _ => exact h

variable {archivePath : Bytes} {limit : UInt64} {watched : Bool} {fate : CallFate} {fates : List CallFate} {v : Volume}

lemma exec_extractZip : (world entries).exec (extractZip archivePath policy limit watched) (fate :: fates) v =
    { (world entries).exec (expand archivePath policy limit watched entries) fates v with
      log := ⟨.entries archivePath, fate, entries⟩ ::
        ((world entries).exec (expand archivePath policy limit watched entries) fates v).log } := rfl

lemma expand_of_rejected (h : ∃ entry ∈ entries, (policy.decide entry.name).action = .reject) :
    expand archivePath policy limit watched entries = pure (.error .unsafeEntry) := by
  obtain ⟨entry, hentry, haction⟩ := h
  have hne : entries.isEmpty = false := by
    cases entries with
    | nil => cases hentry
    | cons _ _ => rfl
  have hany : (entries.map (fun entry => policy.decide entry.name)).any
      (fun decision => decision.action == .reject) = true := by
    simp only [List.any_map, List.any_eq_true]
    exact ⟨entry, hentry, by simpa using haction⟩
  simp only [expand, hne, hany, Bool.false_eq_true, if_false, if_true]

lemma inside_of_mem_log {ev : Event CallOp CallOp.Reply CallFate}
    (h : ev ∈ ((world entries).exec (extractZip archivePath policy limit watched) (fate :: fates) v).log) :
    Inside policy entries ev.asked := by
  rw [exec_extractZip] at h
  rcases List.mem_cons.mp h with rfl | h
  · trivial
  · exact World.asked_of_mem_log _ asks_expand h

lemma expanded_exec :
    Expanded policy entries v ((world entries).exec (expand archivePath policy limit watched entries) fates v).state :=
  World.exec_invariant (World.wp_of_asks asks_expand ⟨fun _ _ => rfl, fun _ h => .inl h⟩
    (fun _ f _ he h => h.step he entries f))

end Inside

theorem extraction_refuses_or_stays_inside (entries : List ZipEntry) (archivePath : Bytes) (policy : ExtractionPolicy)
    (limit : UInt64) (watched : Bool) (fates : List CallFate) (v : Volume) :
    let t := (world entries).exec (extractZip archivePath policy limit watched) fates v
    ((∃ entry ∈ entries, (policy.decide entry.name).action = .reject) →
      t.state = v ∧ (∀ ev ∈ t.log, ev.asked = .entries archivePath) ∧
        (fates ≠ [] → t.outcome = some (.error .unsafeEntry))) ∧
      (∀ ev ∈ t.log,
        (∀ path, (ev.asked = .openStream path ∨ ev.asked = .remove path ∨ ev.asked = .flush path ∨
            ∃ name, ev.asked = .extractEntryToStream name path) →
          (∃ entry ∈ entries, resolveUnder policy.root entry.name = .ok path) ∧
            ∀ entry ∈ entries, policy.preserve.preserves (entryBody entry.name) = true →
              resolveUnder policy.root entry.name ≠ .ok path) ∧
        ∀ path, ev.asked = .mkdir path → ∃ entry ∈ entries, ∃ image,
          resolveUnder policy.root entry.name = .ok image ∧ (path = image ∨ path ++ ascii "/" <+: image)) ∧
      Expanded policy entries v t.state := by
  cases fates with
  | nil => exact ⟨fun _ => ⟨rfl, nofun, fun h => absurd rfl h⟩, nofun, fun _ _ => rfl, fun _ h => .inl h⟩
  | cons fate fates =>
    refine ⟨fun hrejected => ?_, fun ev hev => ⟨fun path hpath => ?_, fun path hpath => ?_⟩, expanded_exec⟩
    · rw [exec_extractZip, expand_of_rejected hrejected]
      simp
    · have hinside := inside_of_mem_log hev
      have hwritten : Written policy entries path := by
        rcases hpath with hpath | hpath | hpath | ⟨name, hpath⟩ <;> rw [hpath] at hinside <;> exact hinside
      refine ⟨?_, fun entry _ hpreserved hplace => not_written_of_preserved hplace hpreserved hwritten⟩
      obtain ⟨entry, hentry, hplace, _⟩ := hwritten
      exact ⟨entry, hentry, hplace⟩
    · have hinside := inside_of_mem_log hev
      rw [hpath] at hinside
      exact hinside

/-! The calls come to nothing that a run of the extractor over the ports does not come to. -/

section Ports

variable {L : Listing} {entries : List ZipEntry} {policy : ExtractionPolicy} {watched : Bool}
  {onReport : ExtractionProgress → PortProgram Bool}

/-- The library delivers what it lists, and what was not written in full can be deleted. -/
def Delivers (entries : List ZipEntry) (ev : Event CallOp CallOp.Reply CallFate) : Prop :=
  match ev.asked with
  | .extractEntryToStream name _ =>
    ev.fate.failing = false → ∀ entry ∈ entries, entry.name = name → ev.fate.written = entry.body
  | .remove _ => ev.fate.failing = false
  | _ => True

abbrev Follows (L : Listing) (entries : List ZipEntry) {α : Type} (p : CallProgram α) (q : PortProgram α) : Prop :=
  (world entries).Follows (Ports.world L) (Delivers entries) Volume.files p q

lemma follows_makeDirectories (path : Bytes) :
    Follows L entries (makeDirectories path) (Ports.makeDirectories path) := by
  intro v
  have hanswers : ∀ made, ∃ l, (Ports.world L).mayEnd (Ports.makeDirectories path) made v.files v.files l
  | true => ⟨_, World.mayEnd_call (f := .ok) rfl World.mayEnd_done⟩
  | false => ⟨_, World.mayEnd_call (f := .fails) rfl World.mayEnd_done⟩
  unfold makeDirectories
  cases path.isEmpty with
  | true => exact hanswers false
  | false =>
    refine (World.wp_bind _ _ _).mpr (World.wp_post
      (World.wp_each (I := fun _ v' => v'.files = v.files) rfl (fun d rest v' _ hv' => ?_)) ?_)
    · refine (World.wp_call _ _).mpr ⟨trivial, fun fate _ => ?_⟩
      cases fate <;> exact hv'
    · refine fun _ v' hv' => (World.wp_call _ _).mpr ⟨trivial, fun fate _ => ?_⟩
      obtain ⟨l, hl⟩ := hanswers (!fate.failing)
      exact ⟨l, hv'.symm ▸ hl⟩

lemma follows_makeParent (path : Bytes) : Follows L entries (makeParent path) (Infra.makeParent path) := by
  unfold makeParent Infra.makeParent
  split
  · exact World.follows_done true
  · exact follows_makeDirectories _

lemma erase_insert (c : Card) (path a b : Bytes) : ((c.insert path a).insert path b).erase path = c.erase path := by
  rw [AList.insert_insert]
  exact AList.ext (List.kerase_cons_eq rfl)

lemma follows_extractFile {entry : ZipEntry} (hentry : entry ∈ entries) (destination : Bytes)
    (report : ExtractionReport) :
    Follows L entries (extractFile entry destination report) (Infra.extractFile entry destination report) := by
  refine (follows_makeParent destination).bind (fun made => ?_)
  cases made with
  | false => exact World.follows_done _
  | true =>
    refine fun v => (World.wp_call _ _).mpr ⟨trivial, fun opened => ?_⟩
    have hgone : ∀ {written removed}, Delivers entries ⟨.remove destination, removed, ()⟩ →
        v.files.erase destination = ((world entries).step (.remove destination) removed
          { v with files := (v.files.insert destination []).insert destination written }).2.files := by
      intro written removed hremoved
      cases removed with
      | fails _ => cases hremoved
      | ok _ => exact (erase_insert v.files destination [] written).symm
    cases opened with
    | fails _ => exact fun _ => ⟨_, World.mayEnd_call (f := .fails) rfl World.mayEnd_done⟩
    | ok _ =>
      refine fun _ => (World.wp_call _ _).mpr ⟨trivial, fun extracted hdelivers => ?_⟩
      cases extracted with
      | fails written =>
        refine (World.wp_call _ _).mpr ⟨trivial, fun removed hremoved => ?_⟩
        exact ⟨_, World.mayEnd_congr (hgone hremoved) (World.mayEnd_call (f := .broken .readFailed) rfl World.mayEnd_done)⟩
      | ok written =>
        obtain rfl : written = entry.body := hdelivers rfl entry hentry rfl
        refine (World.wp_call _ _).mpr ⟨trivial, fun flushed _ => ?_⟩
        cases flushed with
        | fails _ =>
          refine (World.wp_call _ _).mpr ⟨trivial, fun removed hremoved => ?_⟩
          exact ⟨_, World.mayEnd_congr (hgone hremoved) (World.mayEnd_call (f := .broken .writeFailed) rfl World.mayEnd_done)⟩
        | ok _ =>
          exact ⟨_, World.mayEnd_congr (AList.insert_insert v.files).symm (World.mayEnd_call (f := .ok) rfl World.mayEnd_done)⟩

lemma follows_extractEntry {entry : ZipEntry} (hentry : entry ∈ entries) (report : ExtractionReport) :
    Follows L entries (extractEntry entry (policy.decide entry.name) report) (Infra.extractEntry policy entry report) := by
  unfold extractEntry Infra.extractEntry
  dsimp only
  cases (policy.decide entry.name).action with
  | skipPreserved => exact World.follows_done _
  | createDirectory =>
    refine (follows_makeDirectories _).bind (fun made => ?_)
    cases made <;> exact World.follows_done _
  | write | reject => exact follows_extractFile hentry _ report

variable (hprogress : ∀ progress, Follows L entries (onProgress watched progress) (onReport progress))

include hprogress

lemma follows_extractLoop (total i : ℕ) {rest : List ZipEntry} (hrest : rest ⊆ entries) (report : ExtractionReport) :
    Follows L entries (extractLoop watched total i (rest.map (fun entry => (entry, policy.decide entry.name))) report)
      (Infra.extractLoop policy onReport total i rest report) := by
  induction rest generalizing i report with
  | nil => exact World.follows_done _
  | cons entry rest ih =>
    obtain ⟨hentry, hrest⟩ := List.cons_subset.mp hrest
    refine (hprogress _).bind (fun going => ?_)
    cases going with
    | false => exact World.follows_done _
    | true =>
      refine (follows_extractEntry hentry report).bind (fun extracted => ?_)
      cases extracted with
      | error error => exact World.follows_done _
      | ok report => exact ih (i + 1) hrest report

lemma follows_expand {archivePath : Bytes} {limit : UInt64} :
    Follows L entries (expand archivePath policy limit watched entries)
      (extractEntries policy limit onReport entries) := by
  have hany : (entries.map (fun entry => policy.decide entry.name)).any (fun decision => decision.action == .reject) =
      entries.any (fun entry => (policy.decide entry.name).action == .reject) := List.any_map
  unfold expand extractEntries
  dsimp only
  rw [hany, ← List.map_prod_left_eq_zip]
  split
  · exact World.follows_done _
  split
  · exact World.follows_done _
  split
  · exact World.follows_done _
  · refine fun v => (World.wp_call _ _).mpr ⟨trivial, fun _ _ => ?_⟩
    refine (follows_extractLoop hprogress _ 0 (List.Subset.refl _) {}).bind (fun extracted => ?_) v
    cases extracted with
    | error error => exact World.follows_done _
    | ok report => exact (hprogress _).bind (fun _ => World.follows_done _)

lemma follows_extractZip {archivePath : Bytes} {limit : UInt64} :
    Follows L entries (extractZip archivePath policy limit watched)
      (Infra.extractZip archivePath policy limit onReport) := by
  refine fun v => (World.wp_call _ _).mpr ⟨trivial, fun _ _ => ?_⟩
  have hlist : (Ports.world L).mayEnd (Ports.entries archivePath) entries v.files v.files
      [⟨.entries archivePath, .archived entries, entries⟩] := World.mayEnd_call rfl World.mayEnd_done
  exact World.wp_post (follows_expand hprogress v) (fun r v' ⟨l, hl⟩ => ⟨_, World.mayEnd_bind hlist hl⟩)

omit hprogress

/-- Whoever watches through the ports may answer either way. -/
theorem extraction_is_one_of_the_ports {archivePath : Bytes} {limit : UInt64}
    {report : ExtractionProgress → PortProgram Bool} {fates : List CallFate} {v : Volume}
    {r : Except ArchiveError ExtractionReport}
    (hreport : ∀ progress going c, ∃ l, (Ports.world L).mayEnd (report progress) going c c l)
    (hdelivers : ∀ ev ∈ ((world entries).exec (extractZip archivePath policy limit watched) fates v).log,
      Delivers entries ev)
    (hout : ((world entries).exec (extractZip archivePath policy limit watched) fates v).outcome = some r) :
    ∃ fates', let t := (Ports.world L).exec (Infra.extractZip archivePath policy limit
        (fun progress => if watched then report progress else pure true)) fates' v.files
      t.outcome = some r ∧
        t.state = ((world entries).exec (extractZip archivePath policy limit watched) fates v).state.files := by
  refine World.exec_of_follows (follows_extractZip (fun progress => ?_)) hdelivers hout
  cases watched with
  | false => exact World.follows_done true
  | true => exact fun v => (World.wp_call _ _).mpr ⟨trivial, fun fate _ => hreport progress _ v.files⟩

end Ports

end NsxManager.Infra.ZipWriter
