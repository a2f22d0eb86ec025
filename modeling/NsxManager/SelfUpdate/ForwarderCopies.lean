import NsxManager.Forwarder.Steps
import NsxManager.SelfUpdate.Retries

/-! The copy of the forwarder that is chainloaded, over whole histories of interrupted calls. Here
`copyFile` is not one request but the calls it makes, and can be cut off between any two of them. -/

namespace NsxManager

open NsxManager.Core Lib Stdio

namespace SelfUpdate

structure ForwarderConfig extends SelfUpdateConfig where
  repairEntryNro : Bytes := ascii "/switch/nsx-manager/nsx-forwarder.nro"

def installForwarder (config : ForwarderConfig) : PortProgram Bool := do
  let chainloadable ← ensureForwarder config.toSelfUpdateConfig
  let listed ← Ports.probe config.repairEntryNro
  if listed then return chainloadable
  let _ ← if (parentOf config.repairEntryNro).isEmpty then pure true
    else Ports.makeDirectories (parentOf config.repairEntryNro)
  let _ ← Ports.copyFile config.forwarderSource config.repairEntryNro
  return chainloadable

/-- Statement for statement the function the forwarder has under the same name. -/
def SdFileStore.copyFile (source destination : Bytes) : FileProgram Bool := Forwarder.copyFile source destination

inductive CallOp where
  | port (request : PortOp)
  | disk (request : FileOp)

def CallOp.Reply : CallOp → Type
  | .port request => request.Reply
  | .disk request => request.Reply

structure CallFate where
  port : PortFate := .ok
  disk : Fate := .ok

abbrev CallProgram := Program CallOp CallOp.Reply

namespace Calls

def step (L : Listing) : (e : CallOp) → CallFate → Card → Option e.Reply × Card
  | .port request, fate, c => (Ports.world L).step request fate.port c
  | .disk request, fate, c => Stdio.step request fate.disk c

def world (L : Listing) : World CallOp CallOp.Reply CallFate Card := ⟨step L⟩

def onDisk {α : Type} : FileProgram α → CallProgram α
  | .done a => .done a
  | .call request next => .call (.disk request) (fun reply => onDisk (next reply))

def carryOut : (e : PortOp) → CallProgram e.Reply
  | .copyFile source destination => onDisk (SdFileStore.copyFile source destination)
  | e => .call (.port e) .done

def expand {α : Type} : PortProgram α → CallProgram α
  | .done a => .done a
  | .call e next => carryOut e >>= fun reply => expand (next reply)

end Calls

def CallFate.Honest (fate : CallFate) : Prop := ∀ bytes, fate.disk ≠ .corrupt bytes

inductive ForwarderCall where
  | install
  | ensure
  | stage (manifest : UpdateManifest)

def ForwarderCall.after (L : Listing) (J : JsonLibrary) (config : ForwarderConfig) (c : Card) :
    ForwarderCall × List CallFate → Card
  | (.install, fates) => ((Calls.world L).exec (Calls.expand (installForwarder config)) fates c).state
  | (.ensure, fates) =>
    ((Calls.world L).exec (Calls.expand (ensureForwarder config.toSelfUpdateConfig)) fates c).state
  | (.stage manifest, fates) =>
    ((Calls.world L).exec (Calls.expand (SelfUpdate.stage J config.toSelfUpdateConfig manifest)) fates c).state

def history (L : Listing) (J : JsonLibrary) (config : ForwarderConfig) (calls : List (ForwarderCall × List CallFate))
    (c : Card) : Card :=
  calls.foldl (ForwarderCall.after L J config) c

structure ForwarderConfig.Apart (config : ForwarderConfig) : Prop where
  source : config.forwarderSource ≠ config.forwarderNro
  forwarder : config.forwarderNro ∉ [config.repairEntryNro, config.stagedNroPath,
    config.stagedNroPath ++ ascii ".part", config.handoffPath, config.handoffPath ++ ascii ".tmp"]
  romfs : config.forwarderSource ∉ [config.repairEntryNro, config.stagedNroPath,
    config.stagedNroPath ++ ascii ".part", config.handoffPath, config.handoffPath ++ ascii ".tmp"]

def copies (config : SelfUpdateConfig) (c : Card) : Option Bytes × Option Bytes :=
  (c.lookup config.forwarderNro, c.lookup config.forwarderSource)

def Intact (x : Option Bytes × Option Bytes) : Prop := ∃ bytes, x = (some bytes, some bytes)

def Undamaged (x : Option Bytes × Option Bytes) : Prop := ∀ bytes, x.1 = some bytes → x.2 = some bytes

def Begun (x : Option Bytes × Option Bytes) : Prop :=
  ∀ part, x.1 = some part → ∃ bytes, x.2 = some bytes ∧ part <+: bytes

namespace Calls

variable {L : Listing} {J : JsonLibrary} {α β : Type} {A : Event CallOp CallOp.Reply CallFate → Prop}
  {C : Card → Prop} {c : Card}

lemma expand_bind (p : PortProgram α) (k : α → PortProgram β) :
    expand (p >>= k) = expand p >>= fun a => expand (k a) := by
  induction p with
  | done a => rfl
  | call e next ih =>
    rw [Program.call_bind, expand, expand, Program.bind_assoc]
    exact congrArg _ (funext ih)

lemma wp_onDisk {B : Event FileOp FileOp.Reply Fate → Prop} {p : FileProgram α} {Q : α → Card → Prop}
    (hB : ∀ e fate reply, A ⟨.disk e, fate, reply⟩ → B ⟨e, fate.disk, reply⟩) (hp : Stdio.world.wp B C p Q c) :
    (world L).wp A C (onDisk p) Q c := by
  induction p generalizing c with
  | done a => exact hp
  | call e next ih =>
    rw [World.wp_call] at hp
    refine (World.wp_call _ _).mpr ⟨hp.1, fun fate => ?_⟩
    have hfate := hp.2 fate.disk
    rcases hstep : Stdio.step e fate.disk c with ⟨r | r, c'⟩
    · have hcut : (world L).step (.disk e) fate c = (none, c') := hstep
      rw [show Stdio.world.step e fate.disk c = (none, c') from hstep] at hfate
      rw [hcut]
      exact hfate
    · have hdone : (world L).step (.disk e) fate c = (some r, c') := hstep
      rw [show Stdio.world.step e fate.disk c = (some r, c') from hstep] at hfate
      rw [hdone]
      exact fun hA => ih r (hfate (hB e fate r hA))

lemma wp_expand {P : PortOp → Prop} {I : Card → Prop} {p : PortProgram α} (hp : p.Asks P) (hI : I c)
    (hP : ∀ e c, P e → I c → (world L).wp A C (carryOut e) (fun _ => I) c) :
    (world L).wp A C (expand p) (fun _ => I) c := by
  induction p generalizing c with
  | done a => exact hI
  | call e next ih =>
    rw [expand, World.wp_bind]
    exact World.wp_post (hP e c hp.1 hI) (fun reply c' hc' => ih reply (hp.2 reply) hc')

lemma wp_probe {path : Bytes} {k : Bool → PortProgram α} {Q : α → Card → Prop} (hC : C c)
    (hk : (world L).wp A C (expand (k (c.has path))) Q c) :
    (world L).wp A C (expand (Ports.probe path >>= k)) Q c :=
  (World.wp_call _ _).mpr ⟨hC, fun _ _ => hk⟩

lemma carryOut_of_ne {e : PortOp} (he : ∀ source destination, e ≠ .copyFile source destination) :
    carryOut e = .call (.port e) .done := by
  cases e with
  | copyFile source destination => exact absurd rfl (he source destination)
  | _ => rfl

end Calls

def Elsewhere (config : SelfUpdateConfig) (e : PortOp) : Prop :=
  config.forwarderNro ∉ e.changes ∧ config.forwarderSource ∉ e.changes

lemma elsewhere_of_quiet {config : SelfUpdateConfig} (e : PortOp) (he : e.changes = []) : Elsewhere config e := by
  simp [Elsewhere, he]

lemma Undamaged.begun {x : Option Bytes × Option Bytes} (h : Undamaged x) : Begun x :=
  fun part hpart => ⟨part, h part hpart, List.prefix_rfl⟩

section Copying

variable {L : Listing} {J : JsonLibrary} {config : SelfUpdateConfig} {α β : Type}
  {A : Event CallOp CallOp.Reply CallFate → Prop} {R : Option Bytes × Option Bytes → Prop} {c : Card}

lemma wp_carryOut_elsewhere {e : PortOp} (he : Elsewhere config e) (hR : R (copies config c)) :
    (Calls.world L).wp A (fun c' => R (copies config c')) (Calls.carryOut e) (fun _ c' => R (copies config c')) c := by
  have hkeep : ∀ c' : Card, c'.lookup config.forwarderNro = c.lookup config.forwarderNro →
      c'.lookup config.forwarderSource = c.lookup config.forwarderSource → R (copies config c') := by
    intro c' hnro hsource
    rwa [copies, hnro, hsource]
  by_cases hcopy : ∃ source destination, e = .copyFile source destination
  · obtain ⟨source, destination, rfl⟩ := hcopy
    have hne : destination ≠ config.forwarderNro ∧ destination ≠ config.forwarderSource := by
      simpa [Elsewhere, PortOp.changes, PortOp.creates, eq_comm] using he
    have hasks := (@Forwarder.asks_copyFile _ source _ hne.1).and (Forwarder.asks_copyFile hne.2)
    refine Calls.wp_onDisk (B := fun _ => True) (fun _ _ _ _ => trivial) ?_
    refine World.wp_mono (World.wp_of_asks (A := fun _ => True) (I := fun c' : Card =>
        c'.lookup config.forwarderNro = c.lookup config.forwarderNro ∧
          c'.lookup config.forwarderSource = c.lookup config.forwarderSource) hasks ⟨rfl, rfl⟩ ?_)
      (fun _ h => h) (fun c' h => hkeep c' h.1 h.2) (fun _ c' h => hkeep c' h.1 h.2)
    intro e fate c' hspares hsame
    exact ⟨(Stdio.lookup_step hspares.1).trans hsame.1, (Stdio.lookup_step hspares.2).trans hsame.2⟩
  · rw [Calls.carryOut_of_ne (fun source destination heq => hcopy ⟨source, destination, heq⟩)]
    refine (World.wp_call _ _).mpr ⟨hR, fun fate => ?_⟩
    have hafter : R (copies config ((Calls.world L).step (.port e) fate c).2) :=
      hkeep _ (Ports.lookup_step he.1) (Ports.lookup_step he.2)
    rcases hstep : (Calls.world L).step (.port e) fate c with ⟨r | r, c'⟩
    · rwa [hstep] at hafter
    · rw [hstep] at hafter
      exact fun _ => hafter

lemma wp_carryOut_copy (hne : config.forwarderSource ≠ config.forwarderNro) (hA : ∀ ev, A ev → ev.fate.Honest)
    (hbegun : Begun (copies config c)) :
    (Calls.world L).wp A (fun c' => Begun (copies config c'))
      (Calls.carryOut (.copyFile config.forwarderSource config.forwarderNro))
      (fun copied c' => Begun (copies config c') ∧ (copied = true → Intact (copies config c'))) c := by
  refine Calls.wp_onDisk (B := fun ev => ∀ bytes, ev.fate ≠ .corrupt bytes) (fun _ _ _ h => hA _ h) ?_
  have hfaithful : Faithful (fun ev : Event FileOp FileOp.Reply Fate => ∀ bytes, ev.fate ≠ .corrupt bytes)
      config.forwarderNro := fun _ bytes h => h bytes rfl
  have hsource : ∀ c', Card.Agree [config.forwarderNro] c c' →
      c'.lookup config.forwarderSource = c.lookup config.forwarderSource :=
    fun c' hc' => hc' _ (by simpa using hne)
  refine Forwarder.wp_copyFile hne ?_ ?_
  · intro c' hc' hunfinished
    have hpart : Begun (copies config c') := by
      rw [copies, hsource c' hc']
      rcases hunfinished hfaithful with hsame | hnone | ⟨bytes, part, hbytes, hle, hlook⟩
      · rw [hsame]
        exact hbegun
      · rw [hnone]
        exact nofun
      · rw [hlook, hbytes]
        rintro _ ⟨rfl⟩
        exact ⟨bytes, rfl, hle⟩
    exact ⟨hpart, hpart, nofun⟩
  · intro c' bytes hc' hlook hbytes
    have hcopies : copies config c' = (some bytes, some bytes) := by
      rw [copies, hlook, hsource c' hc', hbytes hfaithful]
    refine ⟨?_, fun _ => ⟨bytes, hcopies⟩⟩
    rw [hcopies]
    exact Undamaged.begun (fun _ h => h)

lemma wp_elsewhere {p : PortProgram α} (hp : p.Asks (Elsewhere config)) (hR : R (copies config c)) :
    (Calls.world L).wp A (fun _ => True) (Calls.expand p) (fun _ c' => R (copies config c')) c :=
  World.wp_mono (Calls.wp_expand (I := fun c' => R (copies config c')) hp hR
    (fun _ _ he hc' => wp_carryOut_elsewhere he hc')) (fun _ h => h) (fun _ _ => trivial) (fun _ _ h => h)

lemma wp_front (config : SelfUpdateConfig) {p : PortProgram α} {k : α → PortProgram β} {Q : β → Card → Prop}
    (hp : p.Asks (Elsewhere config)) (hR : R (copies config c))
    (hk : ∀ a c', R (copies config c') → (Calls.world L).wp A (fun _ => True) (Calls.expand (k a)) Q c') :
    (Calls.world L).wp A (fun _ => True) (Calls.expand (p >>= k)) Q c := by
  rw [Calls.expand_bind, World.wp_bind]
  exact World.wp_post (wp_elsewhere hp hR) hk

lemma asks_quiet {e : PortOp} (he : e.changes = []) :
    (Program.call e .done : PortProgram e.Reply).Asks (Elsewhere config) :=
  ⟨elsewhere_of_quiet e he, fun _ => trivial⟩

lemma wp_ensureForwarder (hne : config.forwarderSource ≠ config.forwarderNro) (hA : ∀ ev, A ev → ev.fate.Honest)
    (hwhole : Undamaged (copies config c)) :
    (Calls.world L).wp A (fun _ => True) (Calls.expand (ensureForwarder config))
      (fun chainloadable c' => chainloadable = true → Intact (copies config c')) c := by
  have hcopy : ∀ c', Begun (copies config c') → (Calls.world L).wp A (fun _ => True)
      (Calls.expand (Ports.copyFile config.forwarderSource config.forwarderNro >>= fun copied =>
        if !copied then pure false else Ports.probe config.forwarderNro))
      (fun chainloadable c' => chainloadable = true → Intact (copies config c')) c' := by
    intro c' hbegun
    refine (World.wp_bind _ _ _).mpr (World.wp_mono (wp_carryOut_copy hne hA hbegun) (fun _ h => h)
      (fun _ _ => trivial) (fun copied c'' hcopied => ?_))
    cases copied with
    | false => exact nofun
    | true =>
      have hprobe : (Ports.probe config.forwarderNro).Asks (Elsewhere config) := asks_quiet rfl
      exact World.wp_post (wp_elsewhere hprobe (hcopied.2 rfl)) (fun _ _ h _ => h)
  refine Calls.wp_probe trivial ?_
  cases hpresent : c.has config.forwarderNro with
  | true =>
    obtain ⟨bytes, hbytes⟩ := (c.has_eq_true _).mp hpresent
    exact fun _ => ⟨bytes, Prod.ext hbytes (hwhole bytes hbytes)⟩
  | false =>
    rw [if_neg (by decide)]
    split
    · exact hcopy c hwhole.begun
    · exact wp_front config (asks_quiet rfl) hwhole.begun (fun _ => hcopy)

end Copying

def Permitted (config : SelfUpdateConfig) (e : PortOp) : Prop :=
  Elsewhere config e ∨ e = .copyFile config.forwarderSource config.forwarderNro

section Runs

variable {L : Listing} {J : JsonLibrary} {config : ForwarderConfig} {manifest : UpdateManifest}
  {A : Event CallOp CallOp.Reply CallFate → Prop} {c : Card}

lemma ForwarderConfig.Apart.elsewhere (h : config.Apart) {e : PortOp}
    (he : e.changes ⊆ [config.repairEntryNro, config.stagedNroPath, config.stagedNroPath ++ ascii ".part",
      config.handoffPath, config.handoffPath ++ ascii ".tmp"]) : Elsewhere config.toSelfUpdateConfig e :=
  ⟨fun hmem => h.forwarder (he hmem), fun hmem => h.romfs (he hmem)⟩

lemma ForwarderConfig.Apart.elsewhere_remove (h : config.Apart) :
    Elsewhere config.toSelfUpdateConfig (.remove config.stagedNroPath) :=
  h.elsewhere (by simp [PortOp.changes])

lemma ForwarderConfig.Apart.elsewhere_write (h : config.Apart) (document : Bytes) :
    Elsewhere config.toSelfUpdateConfig (.writeAtomic config.handoffPath document) :=
  h.elsewhere (by simp [PortOp.changes])

lemma ForwarderConfig.Apart.elsewhere_part (h : config.Apart) :
    Elsewhere config.toSelfUpdateConfig (.remove (config.stagedNroPath ++ ascii ".part")) :=
  h.elsewhere (by simp [PortOp.changes])

lemma ForwarderConfig.Apart.elsewhere_download (h : config.Apart) (url : Bytes) (expected : ExpectedArtifact) :
    Elsewhere config.toSelfUpdateConfig (.download url config.stagedNroPath expected) :=
  h.elsewhere (by simp [PortOp.changes, PortOp.creates])

lemma wp_verifyStaged {asset : ManifestAsset} (hapart : config.Apart) (hA : ∀ ev, A ev → ev.fate.Honest)
    (hwhole : Undamaged (copies config.toSelfUpdateConfig c)) :
    (Calls.world L).wp A (fun _ => True) (Calls.expand (verifyStaged J config.toSelfUpdateConfig manifest asset))
      (fun out c' => out.result = .staged → Intact (copies config.toSelfUpdateConfig c')) c := by
  have habandon : ∀ result detail c', result ≠ StageResult.staged → (Calls.world L).wp A (fun _ => True)
      (Calls.expand (abandon config.toSelfUpdateConfig result detail))
      (fun out c' => out.result = .staged → Intact (copies config.toSelfUpdateConfig c')) c' := by
    intro result detail c' hresult
    refine wp_front config.toSelfUpdateConfig (R := fun _ => True) ⟨hapart.elsewhere_remove, fun _ => trivial⟩
      trivial ?_
    exact fun _ _ _ hstaged => absurd hstaged hresult
  refine wp_front config.toSelfUpdateConfig (asks_quiet rfl) hwhole (fun onDisk c' hwhole' => ?_)
  split
  · exact habandon _ _ c' (by decide)
  · rw [Calls.expand_bind, World.wp_bind]
    refine World.wp_post (wp_ensureForwarder hapart.source hA hwhole') ?_
    intro chainloadable c'' hintact
    cases chainloadable with
    | false => exact habandon _ _ c'' (by decide)
    | true =>
      refine wp_front config.toSelfUpdateConfig (asks_quiet rfl) (hintact rfl) (fun now c' hintact' => ?_)
      have hasks := asks_handOff (J := J) (P := Elsewhere config.toSelfUpdateConfig) elsewhere_of_quiet
        hapart.elsewhere_remove hapart.elsewhere_write (draftHandoff config.toSelfUpdateConfig manifest asset now)
      exact World.wp_post (wp_elsewhere hasks hintact') (fun _ _ h _ => h)

lemma wp_stage (hapart : config.Apart) (hA : ∀ ev, A ev → ev.fate.Honest)
    (hwhole : Undamaged (copies config.toSelfUpdateConfig c)) :
    (Calls.world L).wp A (fun _ => True) (Calls.expand (stage J config.toSelfUpdateConfig manifest))
      (fun out c' => out.result = .staged → Intact (copies config.toSelfUpdateConfig c')) c := by
  have hother : ∀ (out : StageOutcome) c', out.result ≠ .staged → (Calls.world L).wp A (fun _ => True)
      (Calls.expand (pure out)) (fun out c' => out.result = .staged → Intact (copies config.toSelfUpdateConfig c')) c' :=
    fun out c' hresult hstaged => absurd hstaged hresult
  unfold stage
  split
  · exact hother _ c (by simp)
  · next asset hasset =>
    refine wp_front config.toSelfUpdateConfig (asks_quiet rfl) hwhole (fun made c hwhole => ?_)
    cases made with
    | false => exact hother _ c (by simp)
    | true =>
      refine wp_front config.toSelfUpdateConfig (asks_quiet rfl) hwhole (fun free c hwhole => ?_)
      split
      · exact hother _ c (by simp)
      · refine wp_front config.toSelfUpdateConfig ⟨hapart.elsewhere_part, fun _ => trivial⟩ hwhole
          (fun _ c hwhole => ?_)
        refine wp_front config.toSelfUpdateConfig (asks_downloadLoop hapart.elsewhere_download 4 0 0) hwhole
          (fun error c hwhole => ?_)
        split
        · refine hother _ c ?_
          unfold transferFailure
          split <;> simp
        · exact wp_verifyStaged hapart hA hwhole

lemma permitted_of_quiet (e : PortOp) (he : e.changes = []) : Permitted config.toSelfUpdateConfig e :=
  .inl (elsewhere_of_quiet e he)

lemma asks_stage (hapart : config.Apart) :
    (stage J config.toSelfUpdateConfig manifest).Asks (Permitted config.toSelfUpdateConfig) := by
  unfold stage
  split
  · trivial
  · next asset hasset =>
    refine ⟨permitted_of_quiet _ rfl, fun made => ?_⟩
    cases made with
    | false => trivial
    | true =>
      refine ⟨permitted_of_quiet _ rfl, fun free => ?_⟩
      dsimp only [bind, Program.bind]
      split
      · trivial
      · refine ⟨.inl hapart.elsewhere_part, fun _ => ?_⟩
        refine (asks_downloadLoop (fun url expected => .inl (hapart.elsewhere_download url expected)) 4 0 0).bind ?_
        intro error
        split
        · trivial
        · exact asks_verifyStaged permitted_of_quiet (.inl hapart.elsewhere_remove)
            (fun document => .inl (hapart.elsewhere_write document)) (.inr rfl)

lemma asks_installForwarder (hapart : config.Apart) :
    (installForwarder config).Asks (Permitted config.toSelfUpdateConfig) := by
  have hrepair : Elsewhere config.toSelfUpdateConfig (.copyFile config.forwarderSource config.repairEntryNro) :=
    hapart.elsewhere (by simp [PortOp.changes, PortOp.creates])
  refine (asks_ensureForwarder permitted_of_quiet (.inr rfl)).bind (fun chainloadable => ?_)
  refine ⟨permitted_of_quiet _ rfl, fun listed => ?_⟩
  cases listed with
  | true => trivial
  | false =>
    dsimp only [bind, Program.bind]
    rw [if_neg (by decide)]
    split
    · exact ⟨.inl hrepair, fun _ => trivial⟩
    · exact ⟨permitted_of_quiet _ rfl, fun _ => ⟨.inl hrepair, fun _ => trivial⟩⟩

lemma begun_exec {α : Type} {p : PortProgram α} {fates : List CallFate} (hapart : config.Apart)
    (hp : p.Asks (Permitted config.toSelfUpdateConfig)) (hfates : ∀ fate ∈ fates, fate.Honest)
    (hc : Begun (copies config.toSelfUpdateConfig c)) :
    Begun (copies config.toSelfUpdateConfig ((Calls.world L).exec (Calls.expand p) fates c).state) := by
  refine World.exec_invariant (I := fun c' => Begun (copies config.toSelfUpdateConfig c')) (Calls.wp_expand hp hc ?_)
  rintro e c' (helsewhere | rfl) hc'
  · exact wp_carryOut_elsewhere helsewhere hc'
  · refine World.wp_post (wp_carryOut_copy hapart.source ?_ hc') (fun _ _ h => h.1)
    exact fun ev hev => hfates _ (World.fate_mem_of_mem_log _ hev)

lemma begun_history (hapart : config.Apart) (calls : List (ForwarderCall × List CallFate))
    (hcalls : ∀ call ∈ calls, ∀ fate ∈ call.2, fate.Honest) (hc : Begun (copies config.toSelfUpdateConfig c)) :
    Begun (copies config.toSelfUpdateConfig (history L J config calls c)) := by
  induction calls generalizing c with
  | nil => exact hc
  | cons call rest ih =>
    refine ih (fun other hother => hcalls other (List.mem_cons_of_mem _ hother)) ?_
    have hfates := hcalls call List.mem_cons_self
    obtain ⟨call, fates⟩ := call
    cases call with
    | install => exact begun_exec hapart (asks_installForwarder hapart) hfates hc
    | ensure => exact begun_exec hapart (asks_ensureForwarder permitted_of_quiet (.inr rfl)) hfates hc
    | stage manifest => exact begun_exec hapart (asks_stage hapart) hfates hc

lemma exec_ensureForwarder_of_present {config : SelfUpdateConfig} {bytes : Bytes}
    (h : c.lookup config.forwarderNro = some bytes) (fate : CallFate) :
    ((Calls.world L).exec (Calls.expand (ensureForwarder config)) [fate] c).outcome = some true ∧
      ((Calls.world L).exec (Calls.expand (ensureForwarder config)) [fate] c).state = c := by
  have hhas : c.has config.forwarderNro = true := (c.has_eq_true _).mpr ⟨bytes, h⟩
  have hstep : (Calls.world L).step (.port (.probe config.forwarderNro)) fate c = (some true, c) :=
    congrArg (fun present => (some present, c)) hhas
  have hrun := World.exec_cons (Calls.world L) (.port (.probe config.forwarderNro))
    (fun present : Bool => Calls.expand (if present then pure true else do
      let _ ← if (parentOf config.forwarderNro).isEmpty then pure true
        else Ports.makeDirectories (parentOf config.forwarderNro)
      let copied ← Ports.copyFile config.forwarderSource config.forwarderNro
      if !copied then return false
      Ports.probe config.forwarderNro)) fate [] c
  rw [hstep] at hrun
  exact ⟨congrArg Trace.outcome hrun, congrArg Trace.state hrun⟩

end Runs

theorem forwarder_is_intact_iff (L : Listing) (J : JsonLibrary) (config : ForwarderConfig)
    (calls : List (ForwarderCall × List CallFate)) (c : Card) (hapart : config.Apart)
    (hnone : c.lookup config.forwarderNro = none) (hcalls : ∀ call ∈ calls, ∀ fate ∈ call.2, fate.Honest) :
    ((∀ fates, (∀ fate ∈ fates, fate.Honest) →
        let t := (Calls.world L).exec (Calls.expand (ensureForwarder config.toSelfUpdateConfig)) fates
          (history L J config calls c)
        t.outcome = some true → Intact (copies config.toSelfUpdateConfig t.state)) ∧
      ∀ manifest fates out, (∀ fate ∈ fates, fate.Honest) →
        let t := (Calls.world L).exec (Calls.expand (stage J config.toSelfUpdateConfig manifest)) fates
          (history L J config calls c)
        t.outcome = some out → out.result = .staged → Intact (copies config.toSelfUpdateConfig t.state)) ↔
      ∀ copy source, (history L J config calls c).lookup config.forwarderNro = some copy →
        (history L J config calls c).lookup config.forwarderSource = some source → copy.length = source.length := by
  have hbegun : Begun (copies config.toSelfUpdateConfig (history L J config calls c)) := by
    refine begun_history hapart calls hcalls (fun part hpart => ?_)
    rw [copies, hnone] at hpart
    cases hpart
  generalize history L J config calls c = d at *
  constructor
  · rintro ⟨hensure, -⟩ copy source hcopy hsource
    obtain ⟨htrue, hstate⟩ := exec_ensureForwarder_of_present (L := L) hcopy {}
    obtain ⟨bytes, hbytes⟩ := hensure [{}] (by simp [CallFate.Honest]) htrue
    rw [hstate, copies, hcopy, hsource] at hbytes
    simp only [Prod.mk.injEq, Option.some.injEq] at hbytes
    rw [hbytes.1, hbytes.2]
  · intro hlength
    have hwhole : Undamaged (copies config.toSelfUpdateConfig d) := by
      intro copy hcopy
      obtain ⟨source, hsource, hle⟩ := hbegun copy hcopy
      rw [hsource, hle.eq_of_length (hlength copy source hcopy hsource)]
    constructor
    · intro fates hfates t htrue
      exact World.exec_post htrue (wp_ensureForwarder hapart.source
        (fun ev hev => hfates _ (World.fate_mem_of_mem_log _ hev)) hwhole) rfl
    · intro manifest fates out hfates t hout hstaged
      exact World.exec_post hout (wp_stage hapart
        (fun ev hev => hfates _ (World.fate_mem_of_mem_log _ hev)) hwhole) hstaged

namespace Sample

def romfsCard : Card := (∅ : Card).insert (ascii "romfs:/nsx-forwarder.nro") [1, 2]

def powerCut : List CallFate := List.replicate 5 ⟨.ok, .ok⟩ ++ [⟨.ok, .torn 1⟩]

end Sample

theorem a_finished_copy_is_intact :
    let d := history .stored JsonCodec.library {} [(.ensure, List.replicate 8 {})] Sample.romfsCard
    d.lookup (ascii "/config/nsx-manager/forwarder/nsx-forwarder.nro") = some [1, 2] ∧
      ∀ fates, (∀ fate ∈ fates, fate.Honest) →
        let t := (Calls.world .stored).exec (Calls.expand (ensureForwarder {})) fates d
        t.outcome = some true → Intact (copies {} t.state) := by
  intro d
  have hcopy : d.lookup (ascii "/config/nsx-manager/forwarder/nsx-forwarder.nro") = some [1, 2] ∧
      d.lookup (ascii "romfs:/nsx-forwarder.nro") = some [1, 2] := by
    decide +kernel
  refine ⟨hcopy.1, ?_⟩
  refine ((forwarder_is_intact_iff .stored JsonCodec.library {} [(.ensure, List.replicate 8 {})] Sample.romfsCard
    ⟨by decide, by decide, by decide⟩ (by decide) ?_).mpr ?_).1
  · simp [CallFate.Honest]
  · intro copy source hfound hromfs
    rw [Option.some.inj (hfound.symm.trans hcopy.1), Option.some.inj (hromfs.symm.trans hcopy.2)]

theorem a_torn_copy_is_chainloaded :
    let t := (Calls.world .stored).exec (Calls.expand (ensureForwarder {})) [{}]
      (history .stored JsonCodec.library {} [(.ensure, Sample.powerCut)] Sample.romfsCard)
    t.outcome = some true ∧ copies {} t.state = (some [1], some [1, 2]) := by
  decide +kernel

end SelfUpdate

end NsxManager
