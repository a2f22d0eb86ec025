import NsxManager.Core.JsonCodec
import NsxManager.Lib.Log
import NsxManager.SelfUpdate.Stage

/-! The retries of a download: how many there are, after which results, and what the last one is reported as. -/

namespace NsxManager.SelfUpdate

open NsxManager.Core Lib Infra

def again (transientTries digestTries : ℕ) (error : HttpError) : Option (ℕ × ℕ) :=
  if error = .none then none
  else if error = .digestMismatch ∧ digestTries + 1 < kDigestAttempts then some (transientTries, digestTries + 1)
  else if isTransient error ∧ transientTries + 1 < kTransientAttempts then some (transientTries + 1, digestTries)
  else none

section Again

variable {t d t' d' : ℕ} {error : HttpError}

lemma again_cases (h : again t d error = some (t', d')) :
    error = .digestMismatch ∧ d + 1 < kDigestAttempts ∧ t' = t ∧ d' = d + 1 ∨
      error ≠ .digestMismatch ∧ isTransient error = true ∧ t + 1 < kTransientAttempts ∧ t' = t + 1 ∧ d' = d := by
  unfold again at h
  split at h
  · cases h
  · split at h
    · next hdigest =>
      obtain ⟨rfl, rfl⟩ : t = t' ∧ d + 1 = d' := by simpa using h
      exact .inl ⟨hdigest.1, hdigest.2, rfl, rfl⟩
    · split at h
      · next htransient =>
        obtain ⟨rfl, rfl⟩ : t + 1 = t' ∧ d = d' := by simpa using h
        refine .inr ⟨?_, htransient.1, htransient.2, rfl, rfl⟩
        rintro rfl
        exact absurd htransient.1 (by decide)
      · cases h

lemma downloadLoop_succ (asset : ManifestAsset) (path : Bytes) (rounds : ℕ) :
    downloadLoop asset path (rounds + 1) t d = do
      let error ← Ports.download asset.url path ⟨asset.size, asset.sha256⟩
      match again t d error with
      | some (t', d') => downloadLoop asset path rounds t' d'
      | none => return error := by
  rw [downloadLoop]
  congr 1
  funext error
  unfold again
  split_ifs with h
  · rw [h]
  · rfl
  · rfl
  · rfl

lemma downloadLoop_rounds (asset : ManifestAsset) (path : Bytes) {rounds : ℕ} (ht : t ≤ 2) (hd : d ≤ 1)
    (hrounds : 4 ≤ rounds + t + d) (more : ℕ) :
    downloadLoop asset path (rounds + more) t d = downloadLoop asset path rounds t d := by
  induction rounds generalizing t d with
  | zero => omega
  | succ rounds ih =>
    rw [Nat.succ_add, downloadLoop_succ, downloadLoop_succ]
    congr 1
    funext error
    cases hagain : again t d error with
    | none => rfl
    | some next =>
      obtain ⟨t', d'⟩ := next
      have hspent := again_cases hagain
      simp only [kDigestAttempts, kTransientAttempts] at hspent
      exact ih (by omega) (by omega) (by omega)

end Again

def Retries : ℕ → ℕ → List HttpError → Prop
  | _, _, [] => True
  | t, d, error :: rest =>
    match again t d error with
    | some (t', d') => Retries t' d' rest
    | none => rest = []

structure Bounded (results : List HttpError) : Prop where
  length : results.length ≤ 4
  success : ∀ before after, results = before ++ .none :: after → after = []
  hopeless : ∀ before error after, results = before ++ error :: after → error ≠ .digestMismatch →
    isTransient error = false → after = []
  digest : ∀ before after, results = before ++ .digestMismatch :: after → .digestMismatch ∈ before → after = []
  transient : ∀ before error after, results = before ++ error :: after → isTransient error = true →
    2 ≤ before.countP isTransient → after = []

section Retries

variable {t d : ℕ} {results : List HttpError}

lemma Retries.length_le (h : Retries t d results) (ht : t ≤ 2) (hd : d ≤ 1) : results.length + t + d ≤ 4 := by
  induction results generalizing t d with
  | nil =>
    rw [List.length_nil]
    omega
  | cons error rest ih =>
    rw [Retries] at h
    rw [List.length_cons]
    cases hagain : again t d error with
    | none =>
      simp only [hagain] at h
      rw [h, List.length_nil]
      omega
    | some next =>
      obtain ⟨t', d'⟩ := next
      simp only [hagain] at h
      have hspent := again_cases hagain
      simp only [kDigestAttempts, kTransientAttempts] at hspent
      have hrest := ih h (by omega) (by omega)
      omega

lemma Retries.again_isSome {before after : List HttpError} {error : HttpError}
    (h : Retries t d (before ++ error :: after)) (hafter : after ≠ []) :
    (again (t + before.countP isTransient) (d + before.count .digestMismatch) error).isSome = true := by
  induction before generalizing t d with
  | nil =>
    rw [List.nil_append, Retries] at h
    cases hagain : again t d error with
    | none =>
      simp only [hagain] at h
      exact absurd h hafter
    | some next => simp [hagain]
  | cons first before ih =>
    rw [List.cons_append, Retries] at h
    cases hagain : again t d first with
    | none => simp [hagain] at h
    | some next =>
      obtain ⟨t', d'⟩ := next
      simp only [hagain] at h
      have hrest := ih h
      rcases again_cases hagain with ⟨rfl, _, rfl, rfl⟩ | ⟨hdigest, htransient, _, rfl, rfl⟩
      · have hquiet : isTransient .digestMismatch = false := by decide
        rw [List.countP_cons_of_neg (by simp [hquiet]), List.count_cons_self]
        rwa [Nat.add_assoc, Nat.add_comm 1] at hrest
      · rw [List.countP_cons_of_pos htransient, List.count_cons_of_ne hdigest]
        rwa [Nat.add_assoc, Nat.add_comm 1] at hrest

lemma Retries.bounded (h : Retries 0 0 results) : Bounded results := by
  have hagain : ∀ {before error after}, results = before ++ error :: after → after ≠ [] →
      ∃ t' d', again (before.countP isTransient) (before.count .digestMismatch) error = some (t', d') := by
    intro before error after heq hafter
    have hsome := Retries.again_isSome (heq ▸ h) hafter
    rw [Nat.zero_add, Nat.zero_add] at hsome
    obtain ⟨⟨t', d'⟩, hnext⟩ := Option.isSome_iff_exists.mp hsome
    exact ⟨t', d', hnext⟩
  refine ⟨h.length_le (by omega) (by omega), fun before after heq => ?_,
    fun before error after heq hdigest hquiet => ?_, fun before after heq hseen => ?_, fun before error after heq htransient hseen => ?_⟩
  all_goals
    by_contra hafter
    obtain ⟨t', d', hnext⟩ := hagain heq hafter
  · cases hnext
  · rcases again_cases hnext with ⟨hmismatch, _⟩ | ⟨_, htransient, _⟩
    · exact hdigest hmismatch
    · rw [hquiet] at htransient
      cases htransient
  · have hcount : 0 < before.count .digestMismatch := List.count_pos_iff.mpr hseen
    rcases again_cases hnext with ⟨_, hleft, _⟩ | ⟨hne, _⟩
    · rw [kDigestAttempts] at hleft
      omega
    · exact hne rfl
  · rcases again_cases hnext with ⟨rfl, _⟩ | ⟨_, _, hleft, _⟩
    · exact absurd htransient (by decide)
    · rw [kTransientAttempts] at hleft
      omega

end Retries

def attempt : Event PortOp PortOp.Reply PortFate → Option HttpError
  | ⟨.download _ _ _, _, error⟩ => some error
  | _ => none

def attempts (log : List (Event PortOp PortOp.Reply PortFate)) : List HttpError := log.filterMap attempt

@[simp] lemma attempts_nil : attempts [] = [] := rfl

lemma attempts_append (log more : List (Event PortOp PortOp.Reply PortFate)) :
    attempts (log ++ more) = attempts log ++ attempts more :=
  List.filterMap_append

@[simp] lemma attempts_download (url path : Bytes) (expected : ExpectedArtifact) (fate : PortFate) (error : HttpError)
    (log : List (Event PortOp PortOp.Reply PortFate)) :
    attempts (⟨.download url path expected, fate, error⟩ :: log) = error :: attempts log := rfl

def isDownload : PortOp → Bool
  | .download _ _ _ => true
  | _ => false

def isWrite : PortOp → Bool
  | .writeAtomic _ _ => true
  | _ => false

lemma attempts_eq_nil {log : List (Event PortOp PortOp.Reply PortFate)}
    (h : ∀ ev ∈ log, isDownload ev.asked = false) : attempts log = [] := by
  refine List.filterMap_eq_nil_iff.mpr (fun ev hev => ?_)
  have hother := h ev hev
  obtain ⟨e, fate, reply⟩ := ev
  cases e with
  | download url path expected => cases hother
  | _ => rfl

section Stage

variable {L : Listing} {J : JsonLibrary} {config : SelfUpdateConfig} {manifest : UpdateManifest} {asset : ManifestAsset}
  {c : Card}

lemma traced_downloadLoop {path : Bytes} {rounds t d : ℕ} (ht : t ≤ 2) (hd : d ≤ 1) (hrounds : 4 ≤ rounds + t + d) :
    (Ports.world L).traced (fun _ => True) (downloadLoop asset path rounds t d) (fun out _ log =>
      Retries t d (attempts log) ∧ (∀ error, out = some error → (attempts log).getLast? = some error) ∧
        ∀ ev ∈ log, isWrite ev.asked = false) c := by
  induction rounds generalizing t d c with
  | zero => omega
  | succ rounds ih =>
    have hnext : ∀ (fate : PortFate) (error : HttpError) (c' : Card),
        (Ports.world L).traced (fun _ => True)
          (match again t d error with
            | some (t', d') => downloadLoop asset path rounds t' d'
            | none => return error)
          (fun out _ log =>
            Retries t d (error :: attempts log) ∧
              (∀ last, out = some last → (error :: attempts log).getLast? = some last) ∧
              ∀ ev ∈ (⟨.download asset.url path ⟨asset.size, asset.sha256⟩, fate, error⟩ :
                Event PortOp PortOp.Reply PortFate) :: log, isWrite ev.asked = false) c' := by
      intro fate error c'
      simp only [Retries, List.forall_mem_cons]
      cases hagain : again t d error with
      | none => exact World.traced_done ⟨rfl, fun last hlast => hlast, rfl, List.forall_mem_nil _⟩
      | some next =>
        obtain ⟨t', d'⟩ := next
        have hspent := again_cases hagain
        simp only [kDigestAttempts, kTransientAttempts] at hspent
        refine World.traced_mono (ih (by omega) (by omega) (by omega)) (fun out _ log hlog => ?_)
        refine ⟨hlog.1, fun last hlast => ?_, rfl, hlog.2.2⟩
        rw [List.getLast?_cons, hlog.2.1 last hlast, Option.getD_some]
    rw [downloadLoop_succ]
    exact World.traced_call ⟨trivial, fun _ h => absurd h.symm (Option.some_ne_none _), List.forall_mem_nil _⟩
      (fun fate _ => hnext fate _ _)

section Requests

variable {P : PortOp → Prop}

lemma asks_ensureForwarder (hquiet : ∀ e : PortOp, e.changes = [] → P e)
    (hcopy : P (.copyFile config.forwarderSource config.forwarderNro)) : (ensureForwarder config).Asks P := by
  have hcopied : (Ports.copyFile config.forwarderSource config.forwarderNro >>= fun copied =>
      if !copied then pure false else Ports.probe config.forwarderNro).Asks P := by
    refine ⟨hcopy, fun copied => ?_⟩
    cases copied with
    | false => trivial
    | true => exact ⟨hquiet _ rfl, fun _ => trivial⟩
  refine ⟨hquiet _ rfl, fun present => ?_⟩
  cases present with
  | true => trivial
  | false =>
    dsimp only [bind, Program.bind]
    rw [if_neg (by decide)]
    split
    · exact hcopied
    · exact ⟨hquiet _ rfl, fun _ => hcopied⟩

lemma asks_abandon (hremove : P (.remove config.stagedNroPath)) (result : StageResult) (detail : Bytes) :
    (abandon config result detail).Asks P :=
  ⟨hremove, fun _ => trivial⟩

lemma asks_handOff (hquiet : ∀ e : PortOp, e.changes = [] → P e) (hremove : P (.remove config.stagedNroPath))
    (hwrite : ∀ document, P (.writeAtomic config.handoffPath document)) (handoff : Handoff) :
    (handOff J config handoff).Asks P := by
  unfold handOff
  split
  · exact ⟨hquiet _ rfl, nofun⟩
  · split
    · exact asks_abandon hremove _ _
    · exact ⟨hquiet _ rfl, nofun⟩
    · refine ⟨hwrite _, fun written => ?_⟩
      cases written with
      | false => exact asks_abandon hremove _ _
      | true => trivial

lemma asks_verifyStaged (hquiet : ∀ e : PortOp, e.changes = [] → P e) (hremove : P (.remove config.stagedNroPath))
    (hwrite : ∀ document, P (.writeAtomic config.handoffPath document))
    (hcopy : P (.copyFile config.forwarderSource config.forwarderNro)) :
    (verifyStaged J config manifest asset).Asks P := by
  have hdigest : (Ports.digestOf config.stagedNroPath).Asks P := ⟨hquiet _ rfl, fun _ => trivial⟩
  refine hdigest.bind (fun onDisk => ?_)
  split
  · exact asks_abandon hremove _ _
  · refine (asks_ensureForwarder hquiet hcopy).bind (fun chainloadable => ?_)
    cases chainloadable with
    | false => exact asks_abandon hremove _ _
    | true => exact ⟨hquiet _ rfl, fun _ => asks_handOff hquiet hremove hwrite _⟩

lemma asks_downloadLoop {path : Bytes} (hdownload : ∀ url expected, P (.download url path expected))
    (rounds transientTries digestTries : ℕ) :
    (downloadLoop asset path rounds transientTries digestTries).Asks P := by
  induction rounds generalizing transientTries digestTries with
  | zero => trivial
  | succ rounds ih =>
    refine ⟨hdownload _ _, fun (error : HttpError) => ?_⟩
    dsimp only [bind, Program.bind]
    split_ifs
    · trivial
    · exact ih _ _
    · exact ih _ _
    · trivial

end Requests

lemma not_download (e : PortOp) (he : e.changes = []) : isDownload e = false := by
  cases e <;> first | rfl | exact absurd he (List.cons_ne_nil _ _)

def Told (out : Option StageOutcome) (log : List (Event PortOp PortOp.Reply PortFate)) : Prop :=
  Retries 0 0 (attempts log) ∧ ∀ report last, out = some report → (attempts log).getLast? = some last →
    .none ∉ attempts log → report = transferFailure last ∧ ∀ ev ∈ log, isWrite ev.asked = false

lemma told_none {log : List (Event PortOp PortOp.Reply PortFate)} (h : Retries 0 0 (attempts log)) : Told none log :=
  ⟨h, fun _ _ hreport => absurd hreport.symm (Option.some_ne_none _)⟩

lemma traced_quiet_call {e : PortOp} {next : e.Reply → PortProgram StageOutcome} (hdownload : isDownload e = false)
    (hwrite : isWrite e = false) (habort : ∀ fate c, ((Ports.world L).step e fate c).1.isSome = true)
    (hnext : ∀ r c', (Ports.world L).traced (fun _ => True) (next r) (fun out _ log => Told out log) c') :
    (Ports.world L).traced (fun _ => True) (.call e next) (fun out _ log => Told out log) c := by
  refine World.traced_call (told_none trivial) (fun fate => ?_)
  have hsome := habort fate c
  rcases hstep : (Ports.world L).step e fate c with ⟨r | r, c'⟩
  · simp [hstep] at hsome
  · refine fun _ => World.traced_mono (hnext r c') (fun out _ log hlog => ?_)
    have hsame : attempts (⟨e, fate, r⟩ :: log) = attempts log := by
      have hfirst : attempts [⟨e, fate, r⟩] = [] := attempts_eq_nil (by simpa using hdownload)
      rw [← List.singleton_append, attempts_append, hfirst, List.nil_append]
    rw [Told, hsame]
    refine ⟨hlog.1, fun report last hreport hlast hnone => ?_⟩
    obtain ⟨hfailure, hwrites⟩ := hlog.2 report last hreport hlast hnone
    exact ⟨hfailure, List.forall_mem_cons.mpr ⟨hwrite, hwrites⟩⟩

lemma traced_transfer : (Ports.world L).traced (fun _ => True)
    (downloadLoop asset config.stagedNroPath 4 0 0 >>= fun error =>
      if error ≠ .none then pure (transferFailure error) else verifyStaged J config manifest asset)
    (fun out _ log => Told out log) c := by
  have hloop := @traced_downloadLoop L asset c config.stagedNroPath 4 0 0 (by omega) (by omega) (by omega)
  refine World.traced_bind (World.traced_mono hloop (fun _ _ _ hlog _ => told_none hlog.1))
    (World.traced_mono hloop (fun out c' log hlog error hout => ?_))
  obtain ⟨hretries, hlast, hwrites⟩ := hlog
  have hend := hlast error hout
  split
  · refine World.traced_done ?_
    rw [List.append_nil]
    refine ⟨hretries, fun report last hreport hlast' _ => ⟨?_, hwrites⟩⟩
    rw [← Option.some.inj hreport, Option.some.inj (hend.symm.trans hlast')]
  · next hsuccess =>
    have hasks : (Ports.world L).traced (fun _ => True) (verifyStaged J config manifest asset)
        (fun _ _ more => ∀ ev ∈ more, isDownload ev.asked = false) c' :=
      World.traced_of_asks (asks_verifyStaged not_download rfl (fun _ => rfl) rfl)
    refine World.traced_mono hasks (fun out' _ more hmore => ?_)
    rw [Told, attempts_append, attempts_eq_nil hmore, List.append_nil]
    refine ⟨hretries, fun report last _ _ hnone => ?_⟩
    rw [not_not.mp hsuccess] at hend
    exact absurd (List.mem_of_getLast? hend) hnone

lemma traced_stage :
    (Ports.world L).traced (fun _ => True) (stage J config manifest) (fun out _ log => Told out log) c := by
  have hdone : ∀ out c', (Ports.world L).traced (fun _ => True) (pure out) (fun out _ log => Told out log) c' :=
    fun _ _ => World.traced_done ⟨trivial, fun _ _ _ hlast => by cases hlast⟩
  unfold stage
  split
  · exact hdone _ _
  · next asset hasset =>
    refine traced_quiet_call rfl rfl (fun _ _ => rfl) (fun made c => ?_)
    cases made with
    | false => exact hdone _ _
    | true =>
      refine traced_quiet_call rfl rfl (fun _ _ => rfl) (fun free c => ?_)
      dsimp only [bind, Program.bind]
      split
      · exact hdone _ _
      · exact traced_quiet_call rfl rfl (fun fate _ => by cases fate <;> rfl) (fun _ c => traced_transfer)

end Stage

lemma transferFailure_result (error : HttpError) :
    ((transferFailure error).result = .verifyFailed ↔ error = .digestMismatch ∨ error = .sizeMismatch) ∧
      ((transferFailure error).result = .verifyFailed ∨ (transferFailure error).result = .downloadFailed) ∧
      (transferFailure error).handoff = none := by
  unfold transferFailure
  split
  · next h => simp [h]
  · next h => simp [h]

theorem download_retries_are_bounded (L : Listing) (J : JsonLibrary) (config : SelfUpdateConfig) (manifest : UpdateManifest)
    (c : Card) (fates : List PortFate) :
    let t := (Ports.world L).exec (stage J config manifest) fates c
    Bounded (attempts t.log) ∧
      (∀ out last, t.outcome = some out → (attempts t.log).getLast? = some last → .none ∉ attempts t.log →
        (out.result = .verifyFailed ↔ last = .digestMismatch ∨ last = .sizeMismatch) ∧
          (out.result = .verifyFailed ∨ out.result = .downloadFailed) ∧ out.handoff = none ∧
          ∀ ev ∈ t.log, ∀ path data, ev.asked ≠ .writeAtomic path data) ∧
      ∀ (asset : ManifestAsset) (more : ℕ), downloadLoop asset config.stagedNroPath (4 + more) 0 0 =
        downloadLoop asset config.stagedNroPath 4 0 0 := by
  intro t
  obtain ⟨hretries, hfailed⟩ : Told t.outcome t.log := traced_stage fates (fun _ _ => trivial)
  refine ⟨hretries.bounded, fun out last hout hlast hnone => ?_,
    fun asset more => downloadLoop_rounds asset _ (by omega) (by omega) (by omega) more⟩
  obtain ⟨rfl, hwrites⟩ := hfailed out last hout hlast hnone
  obtain ⟨hverify, heither, hhandoff⟩ := transferFailure_result last
  refine ⟨hverify, heither, hhandoff, fun ev hev path data hasked => ?_⟩
  have hwrite := hwrites ev hev
  rw [hasked] at hwrite
  cases hwrite

namespace Sample

def downloadable : UpdateManifest :=
  { assets := [⟨ascii "a.nro", .appNro, ascii "https://github.com/a", 1, .replicate 32 0⟩] }

def unlucky : Trace PortOp PortOp.Reply PortFate Card StageOutcome :=
  (Ports.world .stored).exec (stage JsonCodec.library {} downloadable)
    [.ok, .space none, .ok, .refused .timeout, .refused .digestMismatch, .served [], .served [], .served []] ∅

end Sample

theorem mixed_failures_are_bounded :
    attempts Sample.unlucky.log = [.timeout, .digestMismatch, .sizeMismatch, .sizeMismatch] ∧
      ∃ out, Sample.unlucky.outcome = some out ∧ out.result = .verifyFailed := by
  have hrun : attempts Sample.unlucky.log = [.timeout, .digestMismatch, .sizeMismatch, .sizeMismatch] ∧
      Sample.unlucky.outcome.isSome = true := by
    decide +kernel
  obtain ⟨out, hout⟩ := Option.isSome_iff_exists.mp hrun.2
  have hlast : (attempts Sample.unlucky.log).getLast? = some .sizeMismatch := by rw [hrun.1]; rfl
  have hnone : HttpError.none ∉ attempts Sample.unlucky.log := by rw [hrun.1]; decide
  have hverdict := (download_retries_are_bounded .stored JsonCodec.library {} Sample.downloadable ∅ _).2.1 out _ hout
    hlast hnone
  exact ⟨hrun.1, out, hout, hverdict.1.mpr (.inr rfl)⟩

end NsxManager.SelfUpdate
