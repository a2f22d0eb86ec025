import NsxManager.Core.JsonCodec
import NsxManager.Forwarder.Attempts
import NsxManager.SelfUpdate.Stage

/-! From the staged update to the swap: what any number of interrupted forwarder runs keep. -/

namespace NsxManager.SelfUpdate

open NsxManager.Core Lib Forwarder

def SelfUpdateConfig.Apart (config : SelfUpdateConfig) : Prop :=
  config.targetNro ≠ config.stagedNroPath ∧ config.targetNro ≠ config.backupNroPath ∧
    config.targetNro ≠ config.handoffPath

instance (config : SelfUpdateConfig) : Decidable config.Apart :=
  inferInstanceAs (Decidable (_ ∧ _ ∧ _))

namespace SelfUpdateConfig

def fileName (config : SelfUpdateConfig) : Role → Bytes
  | .staged => config.stagedNroPath
  | .target => config.targetNro
  | .incoming => config.targetNro ++ ascii ".new"
  | .backup => config.backupNroPath
  | .handoff => config.handoffPath
  | .temporary => config.handoffPath ++ ascii ".tmp"

lemma fileName_injective {config : SelfUpdateConfig} (hapart : config.Apart)
    (htemporary : config.targetNro ≠ config.handoffPath ++ ascii ".tmp") :
    Function.Injective config.fileName := by
  obtain ⟨hstaged, hbackup, hhandoff⟩ := hapart
  have hends : ∀ {x y : Bytes}, x ≠ [] → y ≠ [] → x.getLast? ≠ y.getLast? → ∀ a b, a ++ x ≠ b ++ y :=
    append_ne_append
  have hshare := stagedNroPath_ne_handoffPath config
  have hnew : config.targetNro ≠ config.targetNro ++ ascii ".new" := by simp [ascii]
  refine injective_of_nodup ?_
  simp only [Role.all, List.map_cons, List.map_nil, List.nodup_cons, List.mem_cons, List.not_mem_nil,
    or_false, not_or, not_false_eq_true, List.nodup_nil, and_true, fileName]
  refine ⟨⟨hstaged.symm, ?_, ?_, hshare.1, hshare.2⟩, ⟨hnew, hbackup, hhandoff, htemporary⟩,
    ⟨?_, ?_, ?_⟩, ⟨?_, ?_⟩, ?_⟩ <;>
    exact hends (by decide) (by decide) (by decide) _ _

def layout (config : SelfUpdateConfig) (hapart : config.Apart)
    (htemporary : config.targetNro ≠ config.handoffPath ++ ascii ".tmp") : Layout :=
  ⟨config.fileName, fileName_injective hapart htemporary, rfl, rfl⟩

end SelfUpdateConfig

section

variable {L : Listing} {J : JsonLibrary} {config : SelfUpdateConfig} {asset : ManifestAsset} {h : Handoff}
  {c : Card} {outgoing : Bytes}

lemma Handed.temporary_ne (hh : Handed J config asset h c) (htarget : c.lookup config.targetNro = some outgoing) :
    config.targetNro ≠ config.handoffPath ++ ascii ".tmp" := by
  intro heq
  rw [heq, hh.temporary] at htarget
  cases htarget

def terms (J : JsonLibrary) (config : SelfUpdateConfig) (hapart : config.Apart)
    (htemporary : config.targetNro ≠ config.handoffPath ++ ascii ".tmp") (sha : Digest)
    (good fresh : Bytes → Prop) : Terms :=
  ⟨J, config.layout hapart htemporary, sha, good, fresh⟩

lemma Handed.sound (hh : Handed J config asset h c) (hapart : config.Apart)
    (htarget : c.lookup config.targetNro = some outgoing) {good : Bytes → Prop} (hgood : good outgoing)
    (fresh : Bytes → Prop) :
    (terms J config hapart (hh.temporary_ne htarget) asset.sha256 good fresh).Sound
      ((config.layout hapart (hh.temporary_ne htarget)).view c) := by
  refine ⟨⟨outgoing, htarget, hgood⟩, fun text htext => ?_⟩
  obtain ⟨text', htext', hparse⟩ := hh.instruction
  obtain rfl : text' = text := Option.some.inj (htext'.symm.trans htext)
  exact ⟨h, hparse, hh.stagedNro, hh.targetNro, hh.backupNro, hh.digest⟩

end

namespace Sample

def config : SelfUpdateConfig :=
  { stagingDir := ascii "/s", targetNro := ascii "/m.nro", forwarderNro := ascii "/f.nro" }

def asset : ManifestAsset := ⟨ascii "nsx-manager.nro", .appNro, [], 1, Sha256.of [2]⟩

def manifest : UpdateManifest := { version := { minor := 2 }, assets := [asset] }

def card : Card := ((∅ : Card).insert (ascii "/m.nro") [1]).insert (ascii "/f.nro") [3]

def fates : List PortFate := [.ok, .ok, .ok, .served [2], .ok, .ok, .time 5, .ok]

def handoff : Handoff := draftHandoff config manifest asset 5

def outcome : StageOutcome :=
  { result := .staged, handoff := some handoff, forwarderPath := ascii "/f.nro",
    forwarderArgs := ascii "\"/f.nro\" --handoff=/s/handoff.json",
    detail := ascii "staged 0.2.0; restart to install" }

def trace : Trace PortOp PortOp.Reply PortFate Card StageOutcome :=
  (Ports.world .stored).exec (stage JsonCodec.library config manifest) fates card

lemma trace_staged : trace.outcome = some outcome ∧ trace.state.lookup handoff.targetNro = some [1] ∧
    (trace.state.lookup config.handoffPath).bind
      (fun text => (parseHandoff JsonCodec.library text).toOption) = some handoff := by
  decide +kernel

def corrupted : List Fate := List.replicate 13 .ok ++ .corrupt [9] :: List.replicate 6 .ok

end Sample

theorem application_survives_interrupted_runs (L : Listing) (J : JsonLibrary) (config : SelfUpdateConfig)
    (manifest : UpdateManifest) (fates : List PortFate) (card : Card) (out : StageOutcome) (h : Handoff)
    (outgoing : Bytes) (runs : List (List Fate)) (hapart : config.Apart)
    (hout : ((Ports.world L).exec (stage J config manifest) fates card).outcome = some out)
    (hstaged : out.result = .staged) (hh : out.handoff = some h)
    (htarget : ((Ports.world L).exec (stage J config manifest) fates card).state.lookup h.targetNro =
      some outgoing)
    (hfaithful : ∀ run ∈ runs, ∀ bytes, Fate.corrupt bytes ∉ run) :
    let after := afterRuns J config.handoffPath runs
      ((Ports.world L).exec (stage J config manifest) fates card).state
    (∃ b, (after.lookup h.targetNro = some b ∨ after.lookup h.backupNro = some b) ∧
      (b = outgoing ∨ Sha256.of b = h.stagedSha256)) ∧
    ∃ result card' b, Stdio.world.run .ok (runSwap J config.handoffPath) after = (some result, card') ∧
      card'.lookup h.targetNro = some b ∧ (b = outgoing ∨ Sha256.of b = h.stagedSha256) := by
  obtain ⟨asset, h', _, hh', hhanded⟩ := handed_of_staged hout hstaged
  obtain rfl : h = h' := Option.some.inj (hh.symm.trans hh')
  generalize ((Ports.world L).exec (stage J config manifest) fates card).state = c at *
  rw [hhanded.targetNro] at htarget
  have htemporary := hhanded.temporary_ne htarget
  let good : Bytes → Prop := fun b => b = outgoing ∨ Sha256.of b = asset.sha256
  let t := terms J config hapart htemporary asset.sha256 good good
  have hsound : t.Sound (t.L.view c) := hhanded.sound hapart htarget (.inl rfl) good
  have hadmits : t.Admits (fun ev => ∀ bytes, ev.fate ≠ .corrupt bytes) :=
    ⟨fun data bytes hev => hev bytes rfl, fun b hb => .inr (hb (fun data bytes hev => hev bytes rfl)),
      fun f b _ hb _ => hb⟩
  have hready : ∀ c', t.safeOn c' → t.Ready (t.L.view c') := fun c' hc' => hc'.ready (fun b hb => hb)
  have hsafe : t.safeOn (afterRuns J config.handoffPath runs c) := by
    refine Terms.safe_afterRuns hadmits (.inl hsound) (fun _ _ _ _ hs _ _ _ _ _ => hready _ hs) ?_
    intro ev hev bytes hfate
    obtain ⟨run, hrun, hmem⟩ := fate_of_mem_runLogs hev
    exact hfaithful run hrun bytes (hfate ▸ hmem)
  rw [hhanded.targetNro, hhanded.backupNro, hhanded.digest]
  refine ⟨?_, (hready _ hsafe).run (fun b hb => .inr hb)⟩
  rcases hsafe with hs | hd
  · obtain ⟨b, hb, hgood⟩ := hs.target
    exact ⟨b, .inl hb, hgood⟩
  · obtain ⟨b, hb, hgood⟩ := hd.backup
    exact ⟨b, .inr hb, hgood⟩

theorem application_survives_two_power_cuts :
    let after := afterRuns JsonCodec.library Sample.config.handoffPath
      [List.replicate 18 .ok, List.replicate 7 .ok] Sample.trace.state
    (∃ b, (after.lookup Sample.handoff.targetNro = some b ∨ after.lookup Sample.handoff.backupNro = some b) ∧
      (b = [1] ∨ Sha256.of b = Sample.handoff.stagedSha256)) ∧
    ∃ result card' b, Stdio.world.run .ok
        (runSwap JsonCodec.library Sample.config.handoffPath) after = (some result, card') ∧
      card'.lookup Sample.handoff.targetNro = some b ∧
      (b = [1] ∨ Sha256.of b = Sample.handoff.stagedSha256) :=
  application_survives_interrupted_runs .stored JsonCodec.library Sample.config Sample.manifest Sample.fates
    Sample.card Sample.outcome Sample.handoff [1] _ (by decide) Sample.trace_staged.1 rfl rfl Sample.trace_staged.2.1
    (by simp)

/-- A run that starts here takes something other than the outgoing binary for the application, and
may delete the backup for its sake. -/
def Mistakes (J : JsonLibrary) (handoffPath outgoing : Bytes) (c : Card) : Prop :=
  ∃ text h b, c.lookup handoffPath = some text ∧ parseHandoff J text = .ok h ∧
    c.lookup h.targetNro = some b ∧ b ≠ outgoing ∧
    (decideRecovery (some h) (presenceOf c h)).action ≠ .unrecoverable

theorem outgoing_kept_until_verified (L : Listing) (J : JsonLibrary) (config : SelfUpdateConfig)
    (manifest : UpdateManifest) (fates : List PortFate) (card : Card) (out : StageOutcome) (h : Handoff)
    (outgoing : Bytes) (runs : List (List Fate)) (hapart : config.Apart)
    (hout : ((Ports.world L).exec (stage J config manifest) fates card).outcome = some out)
    (hstaged : out.result = .staged) (hh : out.handoff = some h)
    (htarget : ((Ports.world L).exec (stage J config manifest) fates card).state.lookup h.targetNro =
      some outgoing)
    (hsteady : ∀ before run after, runs = before ++ run :: after →
      ¬Mistakes J config.handoffPath outgoing (afterRuns J config.handoffPath before
        ((Ports.world L).exec (stage J config manifest) fates card).state))
    (hrecord : ∀ ev ∈ runLogs J config.handoffPath runs
        ((Ports.world L).exec (stage J config manifest) fates card).state,
      ∀ data bytes, ev ≠ ⟨.append (config.handoffPath ++ ascii ".tmp") data, .corrupt bytes, true⟩)
    (hunverified : ∀ ev ∈ runLogs J config.handoffPath runs
        ((Ports.world L).exec (stage J config manifest) fates card).state,
      ∀ fate, ev ≠ ⟨.hash h.targetNro, fate, some h.stagedSha256⟩) :
    let after := afterRuns J config.handoffPath runs
      ((Ports.world L).exec (stage J config manifest) fates card).state
    after.lookup h.targetNro = some outgoing ∨ after.lookup h.backupNro = some outgoing := by
  obtain ⟨asset, h', _, hh', hhanded⟩ := handed_of_staged hout hstaged
  obtain rfl : h = h' := Option.some.inj (hh.symm.trans hh')
  generalize ((Ports.world L).exec (stage J config manifest) fates card).state = c at *
  rw [hhanded.targetNro, hhanded.digest] at hunverified
  rw [hhanded.targetNro] at htarget
  have htemporary := hhanded.temporary_ne htarget
  let good : Bytes → Prop := fun b => b = outgoing
  let t := terms J config hapart htemporary asset.sha256 good (fun _ => True)
  have hkept : good outgoing := rfl
  have hsound : t.Sound (t.L.view c) := hhanded.sound hapart htarget hkept _
  let A : Event FileOp FileOp.Reply Fate → Prop := fun ev =>
    (∀ data bytes, ev ≠ ⟨.append (config.handoffPath ++ ascii ".tmp") data, .corrupt bytes, true⟩) ∧
      ∀ fate, ev ≠ ⟨.hash config.targetNro, fate, some asset.sha256⟩
  have hadmits : t.Admits A :=
    ⟨fun data bytes hev => hev.1 data bytes rfl, fun _ _ => trivial, fun f _ hev => absurd rfl (hev.2 f)⟩
  have hready : ∀ c', t.safeOn c' → ¬Mistakes J config.handoffPath outgoing c' → t.ReadyAt c' := by
    intro c' hsafe hsteady' text h₁ htext hparse haction
    rcases hsafe with hs | hd
    · exact .inl hs
    · cases hT : t.L.view c' .target with
      | none => exact .inr ⟨hd, hT⟩
      | some b =>
        obtain ⟨h₂, hparse', hf⟩ := hd.instructed text htext
        obtain rfl : h₁ = h₂ := Except.ok.inj (hparse.symm.trans hparse')
        by_cases hb : b = outgoing
        · exact .inl ⟨⟨b, hT, hb⟩, hd.instructed⟩
        · exact absurd ⟨text, h₁, b, htext, hparse, hf.target ▸ hT, hb, haction⟩ hsteady'
  have hsafe : t.safeOn (afterRuns J config.handoffPath runs c) :=
    Terms.safe_afterRuns hadmits (.inl hsound)
      (fun before run after hsplit hs => hready _ hs (hsteady before run after hsplit))
      (fun ev hev => ⟨hrecord ev hev, hunverified ev hev⟩)
  rw [hhanded.targetNro, hhanded.backupNro]
  rcases hsafe with hs | hd
  · obtain ⟨b, hb, hgood⟩ := hs.target
    exact .inl (hb.trans (congrArg some hgood))
  · obtain ⟨b, hb, hgood⟩ := hd.backup
    exact .inr (hb.trans (congrArg some hgood))

theorem outgoing_survives_corrupt_copy :
    let after := afterRuns JsonCodec.library Sample.config.handoffPath [Sample.corrupted]
      Sample.trace.state
    after.lookup Sample.handoff.targetNro = some [1] ∨ after.lookup Sample.handoff.backupNro = some [1] := by
  obtain ⟨hout, htarget, hinstruction⟩ := Sample.trace_staged
  have hlog : ∀ p ∈ (runLogs JsonCodec.library Sample.config.handoffPath [Sample.corrupted]
      Sample.trace.state).map (fun ev => (ev.asked, ev.fate)),
      p.1 ≠ .hash Sample.handoff.targetNro ∧
        (p.2 = .ok ∨ p.1 = .append (Sample.handoff.targetNro ++ ascii ".new") [2]) := by
    decide +kernel
  refine outgoing_kept_until_verified .stored JsonCodec.library Sample.config Sample.manifest Sample.fates
    Sample.card Sample.outcome Sample.handoff [1] _ (by decide) hout rfl rfl htarget ?_ ?_ ?_
  · rintro (_ | ⟨_, before⟩) run after hsplit
    · rintro ⟨text, h, b, htext, hparse, hb, hne, _⟩
      change Sample.trace.state.lookup Sample.config.handoffPath = some text at htext
      rw [htext, Option.bind_some, hparse] at hinstruction
      obtain rfl : h = Sample.handoff := Option.some.inj hinstruction
      exact hne (Option.some.inj (hb.symm.trans htarget))
    · simp at hsplit
  · rintro ev hev data bytes rfl
    rcases (hlog _ (List.mem_map_of_mem hev)).2 with h | h
    · cases h
    · exact absurd (FileOp.append.inj h).1 (by decide +kernel)
  · rintro ev hev fate rfl
    exact (hlog _ (List.mem_map_of_mem hev)).1 rfl

theorem outgoing_lost_by_second_run :
    let runs := [Sample.corrupted, List.replicate 17 .ok]
    let after := afterRuns JsonCodec.library Sample.config.handoffPath runs Sample.trace.state
    Sample.trace.outcome = some Sample.outcome ∧ Sample.outcome.result = .staged ∧
      Sample.trace.state.lookup Sample.handoff.targetNro = some [1] ∧
      (∀ ev ∈ runLogs JsonCodec.library Sample.config.handoffPath runs Sample.trace.state,
        ∀ fate, ev ≠ ⟨.hash Sample.handoff.targetNro, fate, some Sample.handoff.stagedSha256⟩) ∧
      after.lookup Sample.handoff.targetNro = some [9] ∧ after.lookup Sample.handoff.backupNro = none := by
  obtain ⟨hout, htarget, _⟩ := Sample.trace_staged
  have hruns : (∀ e ∈ (runLogs JsonCodec.library Sample.config.handoffPath
        [Sample.corrupted, List.replicate 17 .ok] Sample.trace.state).map Event.asked,
        e ≠ .hash Sample.handoff.targetNro) ∧
      (afterRuns JsonCodec.library Sample.config.handoffPath [Sample.corrupted, List.replicate 17 .ok]
        Sample.trace.state).lookup Sample.handoff.targetNro = some [9] ∧
      (afterRuns JsonCodec.library Sample.config.handoffPath [Sample.corrupted, List.replicate 17 .ok]
        Sample.trace.state).lookup Sample.handoff.backupNro = none := by
    decide +kernel
  obtain ⟨hlog, hafter⟩ := hruns
  refine ⟨hout, rfl, htarget, ?_, hafter⟩
  rintro ev hev fate rfl
  exact hlog _ (List.mem_map_of_mem hev) rfl

lemma Handed.runs {J : JsonLibrary} {config : SelfUpdateConfig} {asset : ManifestAsset} {h : Handoff}
    {c : Card} {outgoing : Bytes} (hh : Handed J config asset h c) (hapart : config.Apart)
    (htarget : c.lookup config.targetNro = some outgoing) :
    ∃ new c', Stdio.world.run .ok (runSwap J config.handoffPath) c =
        (some ⟨.installed, ascii "updated to " ++ h.toVersion⟩, c') ∧ Sha256.of new = asset.sha256 ∧
      ∀ r, r ≠ .temporary → c'.lookup (config.fileName r) = if r = .target then some new else none := by
  let L := config.layout hapart (hh.temporary_ne htarget)
  have hf : Follows L asset.sha256 h := ⟨hh.stagedNro, hh.targetNro, hh.backupNro, hh.digest⟩
  obtain ⟨text, htext, hparse⟩ := hh.instruction
  obtain ⟨haccepted, hu⟩ := parseHandoff_accepted hparse
  obtain ⟨new, hnew, hsha⟩ := hh.staged
  obtain ⟨c', hrun, hview⟩ := run_swap (L := L) (J := J) (c := c) hf
    ⟨hu.fromVersion, hu.toVersion, hu.staged, hu.target, hu.backup, hu.forwarder⟩ htarget hnew hsha
  refine ⟨new, c', ?_, hsha, ?_⟩
  · have hbudget := haccepted.fresh hh.attempts
    have hpresent : (presenceOf c h).target = true :=
      (c.has_eq_true _).mpr ⟨outgoing, hh.targetNro ▸ htarget⟩
    have hstaged : (presenceOf c h).staged = true := (c.has_eq_true _).mpr ⟨new, hh.stagedNro ▸ hnew⟩
    rw [run_runSwap c htext hparse, ← hrun]
    rcases decideRecovery_cases h (presenceOf c h) rfl with
      ⟨_, hspent, _⟩ | ⟨_, _, hmissing, _⟩ | ⟨_, hmissing, _⟩ | ⟨_, hgone, _⟩ | ⟨hd, _⟩
    · simp [hbudget] at hspent
    · simp [hpresent] at hmissing
    · simp [hpresent] at hmissing
    · simp [hstaged] at hgone
    · rcases hd with hd | hd <;> simp only [act, hd] <;> rfl
  · intro r hr
    refine (hview r hr).trans ?_
    cases r <;> first | rfl | exact absurd rfl hr

theorem staged_update_is_installed (L : Listing) (J : JsonLibrary) (config : SelfUpdateConfig)
    (manifest : UpdateManifest) (fates : List PortFate) (card : Card) (out : StageOutcome)
    (outgoing : Bytes) (hapart : config.Apart)
    (hout : ((Ports.world L).exec (stage J config manifest) fates card).outcome = some out)
    (hstaged : out.result = .staged)
    (htarget : ((Ports.world L).exec (stage J config manifest) fates card).state.lookup config.targetNro =
      some outgoing) :
    ∃ asset result new card', manifest.findAsset .appNro = some asset ∧
      Stdio.world.run .ok (runSwap J config.handoffPath)
        ((Ports.world L).exec (stage J config manifest) fates card).state = (some result, card') ∧
      result.result = .installed ∧ card'.lookup config.targetNro = some new ∧
      Sha256.of new = asset.sha256 ∧ card'.lookup config.stagedNroPath = none ∧
      card'.lookup config.backupNroPath = none ∧ card'.lookup config.handoffPath = none ∧
      card'.lookup (config.targetNro ++ ascii ".new") = none := by
  obtain ⟨asset, h, hasset, _, hhanded⟩ := handed_of_staged hout hstaged
  obtain ⟨new, card', hrun, hsha, hfiles⟩ := hhanded.runs hapart htarget
  exact ⟨asset, _, new, card', hasset, hrun, rfl, hfiles .target (by decide), hsha,
    hfiles .staged (by decide), hfiles .backup (by decide), hfiles .handoff (by decide),
    hfiles .incoming (by decide)⟩

theorem sample_update_is_installed :
    ∃ asset result new card', Sample.manifest.findAsset .appNro = some asset ∧
      Stdio.world.run .ok (runSwap JsonCodec.library Sample.config.handoffPath)
        Sample.trace.state = (some result, card') ∧
      result.result = .installed ∧ card'.lookup Sample.config.targetNro = some new ∧
      Sha256.of new = asset.sha256 ∧ card'.lookup Sample.config.stagedNroPath = none ∧
      card'.lookup Sample.config.backupNroPath = none ∧
      card'.lookup Sample.config.handoffPath = none ∧
      card'.lookup (Sample.config.targetNro ++ ascii ".new") = none :=
  staged_update_is_installed .stored JsonCodec.library Sample.config Sample.manifest Sample.fates
    Sample.card Sample.outcome [1] (by decide) Sample.trace_staged.1 rfl Sample.trace_staged.2.1

theorem swap_attempts_are_bounded (L : Listing) (J : JsonLibrary) (config : SelfUpdateConfig)
    (manifest : UpdateManifest) (fates : List PortFate) (card : Card) (out : StageOutcome) (h : Handoff)
    (outgoing : Bytes) (runs : List (List Fate)) (hapart : config.Apart)
    (hout : ((Ports.world L).exec (stage J config manifest) fates card).outcome = some out)
    (hstaged : out.result = .staged) (hh : out.handoff = some h)
    (htarget : ((Ports.world L).exec (stage J config manifest) fates card).state.lookup h.targetNro =
      some outgoing)
    (hfaithful : ∀ run ∈ runs, ∀ bytes, Fate.corrupt bytes ∉ run) :
    let staged := ((Ports.world L).exec (stage J config manifest) fates card).state
    let after := afterRuns J config.handoffPath runs staged
    (∀ run : List Fate, (∀ bytes, Fate.corrupt bytes ∉ run) → ∀ n ev,
      (Stdio.world.exec (runSwap J config.handoffPath) run after).log[n]? = some ev →
      isAttempt h ev.asked = true →
      ∃ text read text' next, after.lookup config.handoffPath = some text ∧ parseHandoff J text = .ok read ∧
        (Stdio.world.exec (runSwap J config.handoffPath) (run.take n) after).state.lookup config.handoffPath =
          some text' ∧ parseHandoff J text' = .ok next ∧
        next.attempts.toInt = read.attempts.toInt + 1) ∧
    (attemptRuns J config.handoffPath h runs staged : ℤ) ≤ h.maxAttempts.toInt ∧
    (∀ text read, after.lookup config.handoffPath = some text → parseHandoff J text = .ok read →
      read.attempts = read.maxAttempts →
      ∃ result card', Stdio.world.run .ok (runSwap J config.handoffPath) after = (some result, card') ∧
        result.result = .rolledBack ∧ card'.lookup config.handoffPath = none) := by
  obtain ⟨asset, h', _, hh', hhanded⟩ := handed_of_staged hout hstaged
  obtain rfl : h = h' := Option.some.inj (hh.symm.trans hh')
  generalize ((Ports.world L).exec (stage J config manifest) fates card).state = c at *
  rw [hhanded.targetNro] at htarget
  have htemporary := hhanded.temporary_ne htarget
  let anything : Bytes → Prop := fun _ => True
  let t := terms J config hapart htemporary asset.sha256 anything anything
  have hsound : t.Sound (t.L.view c) := hhanded.sound hapart htarget trivial anything
  have hf : Follows t.L t.sha h := ⟨hhanded.stagedNro, hhanded.targetNro, hhanded.backupNro, hhanded.digest⟩
  have hadmits : t.Admits (fun ev => ∀ bytes, ev.fate ≠ .corrupt bytes) :=
    ⟨fun data bytes hev => hev bytes rfl, fun _ _ => trivial, fun _ _ _ _ _ => trivial⟩
  have hlogs : ∀ ev ∈ runLogs J config.handoffPath runs c, ∀ bytes, ev.fate ≠ .corrupt bytes := by
    intro ev hev bytes hfate
    obtain ⟨run, hrun, hmem⟩ := fate_of_mem_runLogs hev
    exact hfaithful run hrun bytes (hfate ▸ hmem)
  have hready : ∀ c', t.safeOn c' → t.Ready (t.L.view c') := fun c' hc' => hc'.ready (fun _ hb => hb)
  have hsafe : t.safeOn (afterRuns J config.handoffPath runs c) :=
    Terms.safe_afterRuns hadmits (.inl hsound) (fun _ _ _ _ hs _ _ _ _ _ => hready _ hs) hlogs
  refine ⟨fun run hrun n ev hn hattempt => ?_, ?_, fun text read hdoc hparse hspent => ?_⟩
  · refine Terms.attempt_recorded hadmits hf hsafe (fun ev hev bytes hfate => ?_) hn hattempt
    exact hrun bytes (hfate ▸ Stdio.world.fate_mem_of_mem_log hev)
  · have hle := Terms.attemptRuns_le hadmits hf (fun _ hb => hb) (.inl hsound) hlogs
    obtain ⟨text, htext, hparse⟩ := hhanded.instruction
    have hbudget := budget_of_parse (c := c) (J := J) htext hparse
    have hmax := Handoff.attempts_lt ((parseHandoff_accepted hparse).1.fresh hhanded.attempts)
    rw [hhanded.attempts, Int32.toInt_zero] at hbudget hmax
    have hruns : attemptRuns J config.handoffPath h runs c ≤ budget J config.handoffPath c := hle
    omega
  · exact Terms.run_of_spent hsafe hdoc hparse hspent

theorem swap_attempts_after_two_power_cuts :
    let runs : List (List Fate) := [List.replicate 18 .ok, List.replicate 7 .ok]
    let after := afterRuns JsonCodec.library Sample.config.handoffPath runs Sample.trace.state
    (∀ run : List Fate, (∀ bytes, Fate.corrupt bytes ∉ run) → ∀ n ev,
      (Stdio.world.exec (runSwap JsonCodec.library Sample.config.handoffPath) run after).log[n]? = some ev →
      isAttempt Sample.handoff ev.asked = true →
      ∃ text read text' next, after.lookup Sample.config.handoffPath = some text ∧
        parseHandoff JsonCodec.library text = .ok read ∧
        (Stdio.world.exec (runSwap JsonCodec.library Sample.config.handoffPath) (run.take n)
          after).state.lookup Sample.config.handoffPath = some text' ∧
        parseHandoff JsonCodec.library text' = .ok next ∧
        next.attempts.toInt = read.attempts.toInt + 1) ∧
    (attemptRuns JsonCodec.library Sample.config.handoffPath Sample.handoff runs Sample.trace.state : ℤ) ≤
      Sample.handoff.maxAttempts.toInt ∧
    (∀ text read, after.lookup Sample.config.handoffPath = some text →
      parseHandoff JsonCodec.library text = .ok read → read.attempts = read.maxAttempts →
      ∃ result card', Stdio.world.run .ok (runSwap JsonCodec.library Sample.config.handoffPath) after =
          (some result, card') ∧
        result.result = .rolledBack ∧ card'.lookup Sample.config.handoffPath = none) :=
  swap_attempts_are_bounded .stored JsonCodec.library Sample.config Sample.manifest Sample.fates Sample.card
    Sample.outcome Sample.handoff [1] _ (by decide) Sample.trace_staged.1 rfl rfl Sample.trace_staged.2.1 (by simp)

theorem repair_without_handoff_iff (J : JsonLibrary) (config : SelfUpdateConfig) (c : Card)
    (hnone : c.lookup config.handoffPath = none) :
    ∃ out c', Stdio.world.run .ok (runSwap J config.handoffPath) c = (some out, c') ∧
      (((c.has config.targetNro = true → out.result = .nothingToDo ∧ c' = c) ∧
        (c.has config.targetNro = false → c.has config.backupNroPath = true → out.result = .restored ∧
          c'.lookup config.targetNro = c.lookup config.backupNroPath ∧
          c'.lookup config.backupNroPath = none) ∧
        (out.result = .unrecoverable → c.has config.targetNro = false ∧ c.has config.backupNroPath = false)) ↔
      (c.has config.targetNro = false ∧ c.has config.backupNroPath = false)) := by
  refine ⟨fail .unrecoverable (decideRecovery none {}).reason, c, ?_, fun hclaim => hclaim.2.2 rfl, ?_⟩
  · simp [runSwap, hnone, act, decideRecovery]
  · rintro ⟨htarget, hbackup⟩
    simp [htarget, hbackup, fail]

theorem repair_of_a_card_with_both :
    let config : SelfUpdateConfig := {}
    let c : Card := ((∅ : Card).insert config.targetNro [1]).insert config.backupNroPath [2]
    ∃ out c', Stdio.world.run .ok (runSwap JsonCodec.library config.handoffPath) c = (some out, c') ∧
      ¬((c.has config.targetNro = true → out.result = .nothingToDo ∧ c' = c) ∧
        (c.has config.targetNro = false → c.has config.backupNroPath = true → out.result = .restored ∧
          c'.lookup config.targetNro = c.lookup config.backupNroPath ∧
          c'.lookup config.backupNroPath = none) ∧
        (out.result = .unrecoverable → c.has config.targetNro = false ∧ c.has config.backupNroPath = false)) := by
  intro config c
  obtain ⟨out, c', hrun, hiff⟩ := repair_without_handoff_iff JsonCodec.library config c (by decide +kernel)
  have hpresent : c.has config.targetNro = true := by decide +kernel
  exact ⟨out, c', hrun, fun h => Bool.false_ne_true ((hiff.mp h).1.symm.trans hpresent)⟩

theorem repair_gives_up_without_handoff :
    let config : SelfUpdateConfig := {}
    let healthy : Card := (∅ : Card).insert config.targetNro [1]
    let displaced : Card := (∅ : Card).insert config.backupNroPath [1]
    let repair := Stdio.world.run .ok (runSwap JsonCodec.library config.handoffPath)
    healthy.lookup config.handoffPath = none ∧ healthy.has config.targetNro = true ∧
      (repair healthy).1.map SwapOutcome.result = some .unrecoverable ∧
      displaced.lookup config.handoffPath = none ∧ displaced.has config.targetNro = false ∧
      displaced.has config.backupNroPath = true ∧
      (repair displaced).1.map SwapOutcome.result = some .unrecoverable ∧
      (repair displaced).2.has config.targetNro = false := by
  decide +kernel

end NsxManager.SelfUpdate
