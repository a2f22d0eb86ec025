import NsxManager.Lib.Log
import NsxManager.SelfUpdate.Handover

/-! Staging again and again: when the handoff on the card can always be acted on. -/

namespace NsxManager.SelfUpdate

open NsxManager.Core Lib Infra

def afterStage (L : Listing) (J : JsonLibrary) (config : SelfUpdateConfig) (c : Card)
    (call : UpdateManifest × List PortFate) : Card :=
  ((Ports.world L).exec (stage J config call.1) call.2 c).state

/-- The last call may be cut off anywhere, so these are all the cards there ever are. -/
def afterStages (L : Listing) (J : JsonLibrary) (config : SelfUpdateConfig)
    (calls : List (UpdateManifest × List PortFate)) (c : Card) : Card :=
  calls.foldl (afterStage L J config) c

def Pending (J : JsonLibrary) (config : SelfUpdateConfig) (c : Card) : Prop :=
  ∃ text h, c.lookup config.handoffPath = some text ∧ parseHandoff J text = .ok h

def Installable (J : JsonLibrary) (config : SelfUpdateConfig) (c : Card) : Prop :=
  ∀ text h, c.lookup config.handoffPath = some text → parseHandoff J text = .ok h →
    (∃ b, c.lookup h.stagedNro = some b ∧ Sha256.of b = h.stagedSha256) ∧ c.has h.forwarderNro = true

def isPreflight : PortOp → Bool
  | .makeDirectories _ => true
  | .freeSpaceBytes _ => true
  | _ => false

def SelfUpdateConfig.Chainable (config : SelfUpdateConfig) : Prop :=
  config.forwarderNro ≠ config.handoffPath ∧ config.forwarderNro ≠ config.handoffPath ++ ascii ".tmp"

instance (config : SelfUpdateConfig) : Decidable config.Chainable := inferInstanceAs (Decidable (_ ∧ _))

section

variable {L : Listing} {J : JsonLibrary} {config : SelfUpdateConfig} {manifest : UpdateManifest}
  {asset : ManifestAsset} {c c' : Card} {A : Event PortOp PortOp.Reply PortFate → Prop}

lemma installable_of_not_pending (h : ¬Pending J config c)
    (hsame : c'.lookup config.handoffPath = c.lookup config.handoffPath) :
    Installable J config c' :=
  fun text handoff htext hparse => absurd ⟨text, handoff, hsame ▸ htext, hparse⟩ h

abbrev Blank (config : SelfUpdateConfig) (c c' : Card) : Prop :=
  c'.lookup config.handoffPath = c.lookup config.handoffPath

abbrev installs (L : Listing) (J : JsonLibrary) (config : SelfUpdateConfig)
    (A : Event PortOp PortOp.Reply PortFate → Prop) (p : PortProgram StageOutcome) (c : Card) : Prop :=
  (Ports.world L).wp A (Installable J config) p (fun _ => Installable J config) c

lemma Blank.erase (h : Blank config c c') {p : Bytes} (hp : config.handoffPath ≠ p) :
    Blank config c (c'.erase p) := by
  rw [Blank, AList.lookup_erase_ne hp, h]

lemma Blank.insert (h : Blank config c c') {p : Bytes} (hp : config.handoffPath ≠ p) (b : Bytes) :
    Blank config c (c'.insert p b) := by
  rw [Blank, AList.lookup_insert_ne hp, h]

variable (hp : ¬Pending J config c)
include hp

lemma abandon_installs (hb : Blank config c c') (result : StageResult) (detail : Bytes) :
    installs L J config A (abandon config result detail) c' := by
  have hinstallable := installable_of_not_pending hp hb
  refine Ports.wp_remove hinstallable (fun _ => hinstallable) ?_
  exact installable_of_not_pending hp (hb.erase (stagedNroPath_ne_handoffPath config).1.symm)

lemma handOff_installs (hchain : config.Chainable) (hb : Blank config c c') {now : Int64}
    (hstaged : ∃ b, c'.lookup config.stagedNroPath = some b ∧ Sha256.of b = asset.sha256)
    (hforwarder : c'.has config.forwarderNro = true) :
    installs L J config A (handOff J config (draftHandoff config manifest asset now)) c' := by
  have hinstallable := installable_of_not_pending hp hb
  cases hdoc : serializeHandoff J (draftHandoff config manifest asset now) with
  | none =>
    simp only [handOff, hdoc]
    exact Ports.wp_abort hinstallable
  | some document =>
    cases hparse : parseHandoff J document with
    | error stop =>
      cases stop with
      | rejected error =>
        simp only [handOff, hdoc, hparse]
        exact abandon_installs hp hb _ _
      | fault =>
        simp only [handOff, hdoc, hparse]
        exact Ports.wp_abort hinstallable
    | ok h =>
      obtain rfl := parseHandoff_readBack rfl hdoc hparse
      simp only [handOff, hdoc, hparse]
      refine Ports.wp_writeAtomic hinstallable (fun _ => abandon_installs hp hb _ _) ?_
      intro text h' htext hparse'
      rw [AList.lookup_insert, Option.some.injEq] at htext
      subst htext
      obtain rfl := Except.ok.inj (hparse.symm.trans hparse')
      obtain ⟨b, hb, hsha⟩ := hstaged
      obtain ⟨hne, hne'⟩ := stagedNroPath_ne_handoffPath config
      refine ⟨⟨b, ?_, hsha⟩, ?_⟩
      · exact (AList.lookup_insert_ne hne).trans ((AList.lookup_erase_ne hne').trans hb)
      · rw [Card.has]
        exact (congrArg Option.isSome ((AList.lookup_insert_ne hchain.1).trans
          (AList.lookup_erase_ne hchain.2))).trans hforwarder

lemma verifyStaged_installs (hchain : config.Chainable) (hb : Blank config c c') :
    installs L J config A (verifyStaged J config manifest asset) c' := by
  have hinstallable := installable_of_not_pending hp hb
  have habandon := abandon_installs (L := L) (A := A) hp hb
  refine Ports.wp_digestOf hinstallable (habandon _ _) ?_
  cases hstaged : c'.lookup config.stagedNroPath with
  | none => exact habandon _ _
  | some b =>
    simp only [Option.map_some, Option.any_some]
    by_cases hv : digestsEqual (Sha256.of b) asset.sha256 = true
    · have hsha := (digestsEqual_iff _ _).mp hv
      simp only [hv, Bool.not_true, Bool.false_eq_true, if_false]
      refine (World.wp_bind _ _ _).mpr (ensureForwarder_wp hinstallable ?_ (fun hpresent => ?_)
        (fun bytes habsent => ?_))
      · exact habandon _ _
      · refine Ports.wp_nowUnix hinstallable (fun now => ?_)
        exact handOff_installs hp hchain hb ⟨b, hstaged, hsha⟩ hpresent
      · have hb' : Blank config c (c'.insert config.forwarderNro bytes) := hb.insert hchain.1.symm bytes
        have hinstallable' := installable_of_not_pending hp hb'
        refine ⟨hinstallable', Ports.wp_nowUnix hinstallable' (fun now => ?_)⟩
        refine handOff_installs hp hchain hb' ⟨b, ?_, hsha⟩ ?_
        · have hne : config.stagedNroPath ≠ config.forwarderNro := by
            intro heq
            rw [Card.has, ← heq, hstaged] at habsent
            cases habsent
          rw [AList.lookup_insert_ne hne, hstaged]
        · exact (Card.has_eq_true _ _).mpr ⟨bytes, AList.lookup_insert _⟩
    · simp only [Bool.not_eq_true] at hv
      simpa only [hv, Bool.not_false, if_true] using habandon _ _

lemma stage_installs (hchain : config.Chainable) : installs L J config A (stage J config manifest) c := by
  have hinstallable : Installable J config c := installable_of_not_pending hp rfl
  unfold stage
  cases manifest.findAsset .appNro with
  | none => exact hinstallable
  | some asset =>
    refine Ports.wp_makeDirectories hinstallable (fun _ => hinstallable) ?_
    refine Ports.wp_freeSpaceBytes hinstallable (fun free => ?_)
    cases free.filter (· < needed config asset) with
    | some bytes => exact hinstallable
    | none =>
      have hpart : config.handoffPath ≠ config.stagedNroPath ++ ascii ".part" :=
        append_ne_append (by decide) (by decide) (by decide) _ _
      have hne := (stagedNroPath_ne_handoffPath config).1.symm
      have hdownload : ∀ c', Blank config c c' → installs L J config A
          (downloadLoop asset config.stagedNroPath 4 0 0 >>= fun error =>
            if error ≠ .none then pure (transferFailure error) else verifyStaged J config manifest asset) c' := by
        intro c' hb
        refine (World.wp_bind _ _ _).mpr (downloadLoop_wp (I := Blank config c)
          (fun _ h => installable_of_not_pending hp h) hb (fun _ h => h.erase hne) (fun _ b h => h.insert hne b)
          (fun error c'' hb' => ?_) 4 0 0)
        split
        · exact installable_of_not_pending hp hb'
        · exact verifyStaged_installs hp hchain hb'
      exact Ports.wp_remove hinstallable (fun _ => hdownload c rfl) (hdownload _ (Blank.erase rfl hpart))

end

lemma exec_preflight {L : Listing} {α : Type} {p : PortProgram α} {fates : List PortFate} {c : Card}
    (h : ∀ ev ∈ ((Ports.world L).exec p fates c).log, isPreflight ev.asked = true) :
    ((Ports.world L).exec p fates c).state = c := by
  refine World.exec_same (fun _ _ _ _ hstep => Ports.step_cut hstep) (fun ev hev t => ?_)
  have hask := h ev hev
  rcases ev with ⟨e, f, r⟩
  cases e <;> first | rfl | cases hask

theorem pending_update_is_installable (L : Listing) (J : JsonLibrary) (config : SelfUpdateConfig)
    (calls : List (UpdateManifest × List PortFate)) (c : Card) (hchain : config.Chainable)
    (hnone : c.lookup config.handoffPath = none)
    (hcalm : ∀ before call after, calls = before ++ call :: after →
      Pending J config (afterStages L J config before c) →
      ∀ ev ∈ ((Ports.world L).exec (stage J config call.1) call.2 (afterStages L J config before c)).log,
        isPreflight ev.asked = true) :
    Installable J config (afterStages L J config calls c) := by
  have hstart : Installable J config c := by
    intro text h htext
    rw [hnone] at htext
    cases htext
  clear hnone
  induction calls generalizing c with
  | nil => exact hstart
  | cons call rest ih =>
    refine ih (afterStage L J config c call) (fun before call' after hsplit => ?_) ?_
    · exact hcalm (call :: before) call' after (by rw [hsplit, List.cons_append])
    · by_cases hp : Pending J config c
      · have hsame : afterStage L J config c call = c := exec_preflight (hcalm [] call rest rfl hp)
        rwa [hsame]
      · exact World.exec_invariant (stage_installs hp hchain)

namespace Sample

def successor : UpdateManifest :=
  { version := { minor := 3 }, assets := [⟨ascii "nsx-manager.nro", .appNro, [], 1, Sha256.of [4]⟩] }

def interrupted : List PortFate := [.ok, .ok, .ok, .served [4]]

end Sample

theorem first_update_is_installable :
    Installable JsonCodec.library Sample.config
      (afterStages .stored JsonCodec.library Sample.config [(Sample.manifest, Sample.fates)] Sample.card) := by
  refine pending_update_is_installable .stored JsonCodec.library Sample.config _ Sample.card (by decide)
    (by decide +kernel) ?_
  rintro (_ | ⟨_, before⟩) call after hsplit
  · rintro ⟨text, h, htext, _⟩
    have hnone : Sample.card.lookup Sample.config.handoffPath = none := by decide +kernel
    exact absurd (hnone.symm.trans htext) (by simp)
  · simp at hsplit

theorem second_update_breaks_the_first :
    let calls := [(Sample.manifest, Sample.fates), (Sample.successor, Sample.interrupted)]
    let after := afterStages .stored JsonCodec.library Sample.config calls Sample.card
    Sample.card.lookup Sample.config.handoffPath = none ∧
      (after.lookup Sample.config.handoffPath).bind
        (fun text => (parseHandoff JsonCodec.library text).toOption) = some Sample.handoff ∧
      after.lookup Sample.handoff.stagedNro = some [4] ∧ Sha256.of [4] ≠ Sample.handoff.stagedSha256 := by
  decide +kernel

end NsxManager.SelfUpdate
