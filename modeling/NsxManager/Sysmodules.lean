import NsxManager.Ports

/-! The boot flag of a sysmodule, which may lie at either of two paths. -/

namespace NsxManager.Sysmodules

open NsxManager.Core Lib Ports

structure SysmoduleService where
  contentsRoot : Bytes := ascii "/atmosphere/contents"

namespace SysmoduleService

variable (service : SysmoduleService) (titleId : Bytes)

def base : Bytes := service.contentsRoot ++ ascii "/" ++ titleId

def flag : Bytes := service.base titleId ++ ascii "/flags/boot2.flag"

def bareFlag : Bytes := service.base titleId ++ ascii "/boot2.flag"

def isEnabled : PortProgram Bool := do
  if ← probe (service.flag titleId) then
    return true
  probe (service.bareFlag titleId)

def setEnabled (enable : Bool) : PortProgram Bool := do
  if enable then
    if !(← makeDirectories (service.base titleId ++ ascii "/flags")) then
      return false
    writeAtomic (service.flag titleId) []
  else
    let r1 ← remove (service.flag titleId)
    let r2 ← remove (service.bareFlag titleId)
    if r1 || r2 then
      return true
    return !(← service.isEnabled titleId)

def Truthful (L : Listing) (enable : Bool) (p : PortProgram Bool) (fates : List PortFate) (c : Card) : Prop :=
  ((world L).exec p fates c).outcome = some true →
    ((world L).run .ok (service.isEnabled titleId) ((world L).exec p fates c).state).1 = some enable

instance (L : Listing) (enable : Bool) (p : PortProgram Bool) (fates : List PortFate) (c : Card) :
    Decidable (service.Truthful titleId L enable p fates c) :=
  inferInstanceAs (Decidable (_ = _ → _ = _))

variable {service titleId} {L : Listing} {c : Card} {fate : PortFate}

lemma flag_ne_bareFlag : service.flag titleId ≠ service.bareFlag titleId := by
  rw [flag, bareFlag, Ne, List.append_cancel_left_eq]
  decide +kernel

lemma run_isEnabled : (world L).run fate (service.isEnabled titleId) c =
    (some (c.has (service.flag titleId) || c.has (service.bareFlag titleId)), c) := by
  have hprobe : ∀ p, (world L).run fate (probe p) c = (some (c.has p), c) := fun _ => rfl
  rw [isEnabled, World.run_bind_of_some _ (hprobe _)]
  cases c.has (service.flag titleId) with
  | true => rfl
  | false => exact hprobe _

lemma wp_isEnabled : (world L).wp (fun _ => True) (fun _ => True) (service.isEnabled titleId)
    (fun on _ => on = (c.has (service.flag titleId) || c.has (service.bareFlag titleId))) c := by
  refine wp_probe trivial ?_
  cases c.has (service.flag titleId) with
  | true => exact rfl
  | false => exact wp_probe (k := pure) trivial rfl

def stuck (fate : PortFate) (p : Bytes) (c : Card) : Bool := fate.failing && c.has p

def removed (fate : PortFate) (p : Bytes) (c : Card) : Card := if fate.failing then c else c.erase p

lemma step_remove (p : Bytes) : (world L).step (.remove p) fate c = (some (!stuck fate p c), removed fate p c) := by
  have hstep : (world L).step (.remove p) fate c =
      if fate.failing then (some (!c.has p), c) else (some true, c.erase p) := rfl
  rw [hstep, stuck, removed]
  cases fate.failing <;> rfl

lemma has_removed_self (p : Bytes) : (removed fate p c).has p = stuck fate p c := by
  cases h : fate.failing <;> simp [stuck, removed, h, Card.has]

lemma has_removed_of_ne {p q : Bytes} (hne : p ≠ q) : (removed fate q c).has p = c.has p := by
  cases h : fate.failing with
  | true => simp [removed, h]
  | false => simp [removed, h, Card.has, AList.lookup_erase_ne hne]

lemma truthful_enable (fates : List PortFate) :
    service.Truthful titleId L true (service.setEnabled titleId true) fates c := by
  have hwritten : (world L).wp (fun _ => True) (fun _ => True) (service.setEnabled titleId true)
      (fun done c' => done = true → c'.has (service.flag titleId) = true) c := by
    refine wp_makeDirectories trivial (fun _ h => by cases h) ?_
    exact wp_writeAtomic (k := pure) trivial (fun _ h => by cases h) (fun _ => Card.has_insert_self _ _ _)
  intro hout
  rw [run_isEnabled, World.returns_of_wp hwritten fates true hout rfl, Bool.true_or]

lemma truthful_call {enable : Bool} {e : PortOp} {next : e.Reply → PortProgram Bool} {fates : List PortFate}
    {r : e.Reply} {c' : Card} (h : (world L).step e fate c = (some r, c')) :
    service.Truthful titleId L enable (.call e next) (fate :: fates) c ↔
      service.Truthful titleId L enable (next r) fates c' := by
  rw [Truthful, World.exec_cons, h]
  rfl

lemma truthful_remove {enable : Bool} {p : Bytes} {next : Bool → PortProgram Bool} {fates : List PortFate} :
    service.Truthful titleId L enable (remove p >>= next) (fate :: fates) c ↔
      service.Truthful titleId L enable (next (!stuck fate p c)) fates (removed fate p c) :=
  truthful_call (e := .remove p) (step_remove p)

lemma truthful_disable_iff {first second : PortFate} {rest : List PortFate} :
    service.Truthful titleId L false (service.setEnabled titleId false) (first :: second :: rest) c ↔
      stuck first (service.flag titleId) c = stuck second (service.bareFlag titleId) c := by
  have hstuck : stuck second (service.bareFlag titleId) (removed first (service.flag titleId) c) =
      stuck second (service.bareFlag titleId) c := by
    rw [stuck, has_removed_of_ne flag_ne_bareFlag.symm, stuck]
  have hon : ∀ c', c' = removed second (service.bareFlag titleId) (removed first (service.flag titleId) c) →
      (c'.has (service.flag titleId) || c'.has (service.bareFlag titleId)) =
        (stuck first (service.flag titleId) c || stuck second (service.bareFlag titleId) c) := by
    rintro _ rfl
    rw [has_removed_of_ne flag_ne_bareFlag, has_removed_self, has_removed_self, hstuck]
  rw [setEnabled, if_neg (by decide), truthful_remove, truthful_remove, hstuck]
  generalize removed second (service.bareFlag titleId) (removed first (service.flag titleId) c) = c' at hon ⊢
  replace hon := hon c' rfl
  generalize stuck first (service.flag titleId) c = kept at hon ⊢
  generalize stuck second (service.bareFlag titleId) c = kept' at hon ⊢
  cases kept <;> cases kept'
  · simp [Truthful, run_isEnabled, hon]
  · simp [Truthful, run_isEnabled, hon]
  · simp [Truthful, run_isEnabled, hon]
  · refine iff_of_true (fun hout => ?_) rfl
    have hasked : (world L).wp (fun _ => True) (fun _ => True)
        (service.isEnabled titleId >>= fun on => (pure !on : PortProgram Bool)) (fun off _ => off = false) c' := by
      refine (World.wp_bind _ _ _).mpr (World.wp_post wp_isEnabled (fun on _ h => ?_))
      rw [h, hon]
      rfl
    have hoff : true = false := World.returns_of_wp hasked rest true hout
    cases hoff

theorem toggling_is_truthful_iff (service : SysmoduleService) (titleId : Bytes) (L : Listing) (enable : Bool)
    (first second : PortFate) (rest : List PortFate) (c : Card) :
    service.Truthful titleId L enable (service.setEnabled titleId enable) (first :: second :: rest) c ↔
      enable = true ∨
        (first.failing && c.has (service.flag titleId)) = (second.failing && c.has (service.bareFlag titleId)) := by
  cases enable with
  | true => exact iff_of_true (truthful_enable _) (.inl rfl)
  | false => exact truthful_disable_iff.trans (by simp [stuck])

end SysmoduleService

namespace Sample

open SysmoduleService

def sysClk : Bytes := ascii "0100000000001000"

def flagged : Card := AList.insert (bareFlag {} sysClk) [] ∅

end Sample

open Sample SysmoduleService in
theorem a_sysmodule_stays_enabled :
    ((world .stored).exec (setEnabled {} sysClk false) [.ok, .fails] flagged).outcome = some true ∧
      ¬Truthful {} sysClk .stored false (setEnabled {} sysClk false) [.ok, .fails] flagged := by
  decide +kernel

end NsxManager.Sysmodules
