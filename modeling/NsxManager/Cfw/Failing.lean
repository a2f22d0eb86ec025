import NsxManager.Cfw.Reached

/-! What a rollback leaves when any of its requests may fail, looks at the card included. -/

namespace NsxManager.Cfw

open NsxManager.Core Lib Infra

/-- The names `rollBack` goes through: a listing that fails may miss some. -/
def backedUp (L : Listing) (config : CfwInstallConfig) (id : Bytes) (c : Card) (fate : PortFate) : List Bytes :=
  bif fate.failing then L.part c (config.backupFor id) else L.files c (config.backupFor id)

lemma backedUp_sublist (L : Listing) (config : CfwInstallConfig) (id : Bytes) (c : Card) (fate : PortFate) :
    (backedUp L config id c fate).Sublist (L.files c (config.backupFor id)) := by
  unfold backedUp
  cases fate.failing with
  | false => exact .refl _
  | true => exact L.part_sublist _ _

namespace Workspace

section RollBack

open Ports

variable {w : Workspace} {marker : MergeMarker} {L : Listing} {c : Card} {planned displaced : List Bytes}

def restoring (w : Workspace) (r : Bytes) : PortOp := .rename (w.name (.kept r)) (w.target r)

lemma restoring_injective (w : Workspace) : Function.Injective w.restoring := by
  intro r r' h
  exact w.target_injective (PortOp.rename.inj h).2

structure Restored (w : Workspace) (rest : List Bytes) (c : Card) (complete : Bool) (c' : Card)
    (l : List (Event PortOp PortOp.Reply PortFate)) : Prop where
  complete : complete = true ↔ ∀ r ∈ rest, Granted (w.restoring r) l
  slots : ∀ r, w.Clear (w.target r) →
    w.slot c' r = if Granted (w.restoring r) l then (w.slot c r).restored else w.slot c r
  listed : ∀ r, Granted (w.restoring r) l → r ∈ rest

section Restored

variable {r : Bytes} {rest : List Bytes} {complete : Bool} {c' : Card} {l₀ l : List (Event PortOp PortOp.Reply PortFate)}
  (hl₀ : ∀ r, ¬Granted (w.restoring r) l₀) (hnot : r ∉ rest)

include hl₀ hnot

lemma Restored.refused (h : w.Restored rest c complete c' l) :
    w.Restored (r :: rest) c false c' (l₀ ++ (⟨w.restoring r, .fails, false⟩ :: (l ++ []))) := by
  have hgranted : ∀ r', Granted (w.restoring r') (l₀ ++ (⟨w.restoring r, .fails, false⟩ :: (l ++ []))) ↔
      Granted (w.restoring r') l := by
    intro r'
    simp [hl₀, PortFate.failing]
  refine ⟨?_, fun r' hr' => ?_, fun r' hr' => ?_⟩
  · simp only [hgranted, Bool.false_eq_true, false_iff]
    exact fun hall => hnot (h.listed r (hall r List.mem_cons_self))
  · simp only [hgranted]
    exact h.slots r' hr'
  · exact List.mem_cons_of_mem _ (h.listed r' ((hgranted r').mp hr'))

lemma Restored.granted {fate : PortFate} (hfate : fate.failing = false) (hr : w.Clear (w.target r))
    (h : w.Restored rest (Card.move (c.erase (w.target r)) (w.name (.kept r)) (w.target r)) complete c' l) :
    w.Restored (r :: rest) c complete c' (l₀ ++ (⟨w.restoring r, fate, true⟩ :: (l ++ []))) := by
  have hgranted : ∀ r', Granted (w.restoring r') (l₀ ++ (⟨w.restoring r, fate, true⟩ :: (l ++ []))) ↔
      r = r' ∨ Granted (w.restoring r') l := by
    intro r'
    simp [hl₀, hfate, w.restoring_injective.eq_iff]
  refine ⟨?_, fun r' hr' => ?_, fun r' hr' => ?_⟩
  · simp only [hgranted, h.complete, List.forall_mem_cons, true_or, true_and]
    refine forall₂_congr (fun r' hr' => ?_)
    have hne : r ≠ r' := (ne_of_mem_of_not_mem hr' hnot).symm
    simp [hne]
  · simp only [hgranted]
    rw [h.slots r' hr']
    by_cases heq : r = r'
    · subst heq
      rw [if_neg (fun hmem => hnot (h.listed r hmem)), if_pos (.inl rfl), slot_restore hr]
    · have hsame := slot_of_agree hr hr' (Ne.symm heq) (Card.Agree.replace (p := w.name (.kept r)) (q := w.target r)
        (by simp) (by simp) c)
      simp only [heq, false_or, hsame]
  · rcases (hgranted r').mp hr' with rfl | hmem
    · exact List.mem_cons_self
    · exact List.mem_cons_of_mem _ (h.listed r' hmem)

end Restored

lemma Marks.returns_restoreAll (hmarks : w.Marks marker) (rest : List Bytes) (hnodup : rest.Nodup)
    (hclear : ∀ r ∈ rest, w.Clear (w.target r)) (hkept : ∀ r ∈ rest, (w.slot c r).kept.isSome = true) :
    (fallible L).returns (restoreAll marker rest) (w.Restored rest c) c := by
  induction rest generalizing c with
  | nil => exact World.returns_done ⟨by simp, by simp, by simp⟩
  | cons r rest ih =>
    obtain ⟨hnot, hnodup'⟩ := List.nodup_cons.mp hnodup
    obtain ⟨hr, hclear'⟩ := List.forall_mem_cons.mp hclear
    obtain ⟨hpresent, hkept'⟩ := List.forall_mem_cons.mp hkept
    have hparent : (fallible L).returns (makeParent (w.target r)) (fun _ c' l => c = c' ∧ ∀ r', ¬Granted (w.restoring r') l)
        c := by
      unfold makeParent
      split
      · exact World.returns_done ⟨rfl, by simp⟩
      · refine World.returns_call (fun f r c' hstep => World.returns_done ⟨congrArg Prod.snd hstep, ?_⟩)
        simp [restoring]
    rw [restoreAll, hmarks.join_target, hmarks.join_kept]
    refine World.returns_bind (World.returns_mono hparent ?_)
    rintro _ _ l₀ ⟨rfl, hl₀⟩
    refine returns_rename ?_ (fun f hf => ?_)
    · refine World.returns_bind (World.returns_mono (ih hnodup' hclear' hkept') (fun complete c' l h => ?_))
      exact World.returns_done (h.refused hl₀ hnot)
    · have hhas : Card.has (c.erase (w.target r)) (w.name (.kept r)) = true := by
        rw [Card.has_erase_of_ne _ _ _ (hr _)]
        exact hpresent
      rw [hhas]
      refine World.returns_bind (World.returns_mono (ih hnodup' hclear' (fun r' hr' => ?_)) (fun complete c' l h => ?_))
      · rw [slot_of_agree hr (hclear' r' hr') (ne_of_mem_of_not_mem hr' hnot)
          (Card.Agree.replace (by simp) (by simp) c)]
        exact hkept' r' hr'
      · exact World.returns_done (h.granted hl₀ hnot hf hr)

lemma Marks.returns_withdrawAll (hmarks : w.Marks marker) (hclear : ∀ r ∈ planned, w.Clear (w.target r))
    (hnodup : planned.Nodup) :
    (fallible L).returns (Program.each (withdraw marker displaced) planned)
      (fun _ _ l => (∀ r, Granted (.probe (w.name (.staged r))) l → r ∈ planned) ∧
        ∀ r, Granted (.remove (w.target r)) l → r ∈ planned ∧ r ∉ displaced ∧
          ¬(c.has (w.name (.staged r)) = true ∧ Granted (.probe (w.name (.staged r))) l)) c := by
  induction planned generalizing c with
  | nil => exact World.returns_done (by simp)
  | cons r rest ih =>
    obtain ⟨hnot, hnodup'⟩ := List.nodup_cons.mp hnodup
    obtain ⟨hr, hclear'⟩ := List.forall_mem_cons.mp hclear
    rw [Program.each, withdraw]
    split
    · refine World.returns_mono (ih hclear' hnodup') (fun _ _ l h => ⟨fun r' hr' => ?_, fun r' hr' => ?_⟩)
      · exact List.mem_cons_of_mem _ (h.1 r' hr')
      · exact (h.2 r' hr').imp_left (List.mem_cons_of_mem _)
    next hother =>
    rw [Program.bind_assoc, hmarks.join_staged, hmarks.join_target]
    refine returns_probe (fun f seen hseen => ?_)
    -- the look at the staged copy of `r` comes first, and no other follows
    have hfirst : ∀ {l : List (Event PortOp PortOp.Reply PortFate)} {r' : Bytes}, Granted (.probe (w.name (.staged r')))
        (⟨.probe (w.name (.staged r)), f, seen⟩ :: l) ↔
          r = r' ∧ f.failing = false ∨ Granted (.probe (w.name (.staged r'))) l := by
      intro l r'
      simp [w.name_injective.eq_iff]
    have hprobed : ∀ {l : List (Event PortOp PortOp.Reply PortFate)} {r' : Bytes},
        (∀ r', Granted (.probe (w.name (.staged r'))) l → r' ∈ rest) → Granted (.probe (w.name (.staged r')))
          (⟨.probe (w.name (.staged r)), f, seen⟩ :: l) → r' ∈ r :: rest := by
      intro l r' hl hr'
      rcases hfirst.mp hr' with ⟨rfl, _⟩ | hr'
      · exact List.mem_cons_self
      · exact List.mem_cons_of_mem _ (hl r' hr')
    have hrest : ∀ {c' : Card} {l : List (Event PortOp PortOp.Reply PortFate)} {r' : Bytes},
        (∀ r' ∈ rest, c'.has (w.name (.staged r')) = c.has (w.name (.staged r'))) →
        (r' ∈ rest ∧ r' ∉ displaced ∧ ¬(c'.has (w.name (.staged r')) = true ∧ Granted (.probe (w.name (.staged r'))) l)) →
        r' ∈ r :: rest ∧ r' ∉ displaced ∧ ¬(c.has (w.name (.staged r')) = true ∧ Granted (.probe (w.name (.staged r')))
          (⟨.probe (w.name (.staged r)), f, seen⟩ :: l)) := by
      rintro c' l r' hsame ⟨hr', hdisplaced, hwaits⟩
      have hne : r ≠ r' := fun heq => hnot (heq ▸ hr')
      rw [hfirst, ← hsame r' hr']
      exact ⟨List.mem_cons_of_mem _ hr', hdisplaced, fun h => hwaits ⟨h.1, h.2.resolve_left (fun h => hne h.1)⟩⟩
    cases seen with
    | true =>
      refine World.returns_mono (ih hclear' hnodup') (fun _ _ l h => ⟨fun r' => hprobed h.1, fun r' hr' => ?_⟩)
      exact hrest (fun _ _ => rfl) (h.2 r' (by simpa using hr'))
    | false =>
      rw [if_neg (by decide), Program.bind_assoc]
      refine returns_remove ?_ (fun f' hf' => ?_)
      · refine World.returns_mono (ih hclear' hnodup') (fun _ _ l h => ⟨fun r' => hprobed ?_, fun r' hr' => ?_⟩)
        · simpa using h.1
        · have hmem := h.2 r' (by simpa [PortFate.failing] using hr')
          exact hrest (fun _ _ => rfl) (by simpa using hmem)
      · have hsame : ∀ r' ∈ rest, Card.has (c.erase (w.target r)) (w.name (.staged r')) = c.has (w.name (.staged r')) :=
          fun r' _ => Card.has_erase_of_ne _ _ _ (hr _)
        refine World.returns_mono (ih hclear' hnodup') (fun _ _ l h => ⟨fun r' => hprobed ?_, fun r' hr' => ?_⟩)
        · simpa using h.1
        · have hcases : r = r' ∨ Granted (.remove (w.target r')) l := by
            simpa [hf', w.target_injective.eq_iff] using hr'
          rcases hcases with rfl | hmem
          · refine ⟨List.mem_cons_self, hother, fun hwaits => ?_⟩
            rcases hfirst.mp hwaits.2 with ⟨_, hf⟩ | hlater
            · simp [hwaits.1, hf] at hseen
            · exact hnot (h.1 r (by simpa using hlater))
          · exact hrest hsame (by simpa using h.2 r' hmem)

structure RolledBack (w : Workspace) (listed planned : List Bytes) (c : Card) (complete : Bool) (c' : Card)
    (l : List (Event PortOp PortOp.Reply PortFate)) : Prop where
  complete : complete = true ↔ ∀ r ∈ listed, Granted (w.restoring r) l
  live : ∀ r, w.Clear (w.target r) → c'.lookup (w.target r) =
    if Granted (.remove (w.target r)) l then none
    else if Granted (w.restoring r) l then c.lookup (w.name (.kept r)) else c.lookup (w.target r)
  kept : ∀ r, w.Clear (w.target r) → c'.lookup (w.name (.kept r)) =
    if Granted (.unlink (w.name (.kept r))) l ∨ Granted (w.restoring r) l then none else c.lookup (w.name (.kept r))
  restored : ∀ r, Granted (w.restoring r) l → r ∈ listed
  removed : ∀ r, w.Clear (w.target r) → Granted (.remove (w.target r)) l → r ∈ planned ∧ r ∉ listed ∧
    ¬(c.has (w.name (.staged r)) = true ∧ Granted (.probe (w.name (.staged r))) l)
  others : ∀ path, w.Clear path → (∀ r, path ≠ w.target r) → c'.lookup path = c.lookup path

def Restores (w : Workspace) (e : PortOp) : Prop := (∃ p, e = .makeDirectories p) ∨ ∃ r, e = w.restoring r

def Withdraws (w : Workspace) (planned : List Bytes) (e : PortOp) : Prop :=
  (∃ p, e = .probe p) ∨ ∃ r ∈ planned, e = .remove (w.target r)

def Sweeps (w : Workspace) (e : PortOp) : Prop :=
  (∃ p, e = .listFilesRecursive p) ∨ (∃ a, e = .unlink (w.name a)) ∨ ∃ l, e = .remove (w.name (.leaf l))

section Requests

variable (hmarks : w.Marks marker)

include hmarks

lemma Marks.asks_restoreAll (rest : List Bytes) : (restoreAll marker rest).Asks w.Restores := by
  refine Cfw.asks_restoreAll (fun p => .inl ⟨p, rfl⟩) rest (fun r _ => .inr ⟨r, ?_⟩)
  rw [hmarks.join_kept, hmarks.join_target, restoring]

lemma Marks.asks_withdrawAll :
    (Program.each (withdraw marker displaced) planned).Asks (w.Withdraws planned) := by
  refine Program.Asks.each _ (fun r hr => asks_withdraw (fun p => .inl ⟨p, rfl⟩) _ (.inr ⟨r, hr, ?_⟩))
  rw [hmarks.join_target]

lemma Marks.asks_commit : (commit w.config marker).Asks w.Sweeps := by
  refine Cfw.asks_commit (fun p => .inl ⟨p, rfl⟩) (fun r => .inr (.inl ⟨.kept r, ?_⟩))
    (fun r => .inr (.inl ⟨.staged r, ?_⟩)) (fun path hpath => .inr (.inr ?_))
  · rw [hmarks.backupDir, name]
  · rw [hmarks.stagingDir, name]
  · simp only [hmarks.itemId, List.mem_cons, List.not_mem_nil, or_false] at hpath
    rcases hpath with rfl | rfl | rfl
    · exact ⟨.archive, rfl⟩
    · exact ⟨.list, rfl⟩
    · exact ⟨.marker, rfl⟩

end Requests

lemma Withdraws.deletes {e : PortOp} (h : w.Withdraws planned e) : Deletes e := by
  rcases h with ⟨p, rfl⟩ | ⟨r, _, rfl⟩
  · exact .inl rfl
  · exact .inr (.inl ⟨_, rfl⟩)

lemma Sweeps.deletes {e : PortOp} (h : w.Sweeps e) : Deletes e := by
  rcases h with ⟨p, rfl⟩ | ⟨a, rfl⟩ | ⟨l, rfl⟩
  · exact .inl rfl
  · exact .inr (.inr ⟨_, rfl⟩)
  · exact .inr (.inl ⟨_, rfl⟩)

lemma Restores.spares {e : PortOp} (h : w.Restores e) : e.Spares (fun path => w.Clear path ∧ ∀ r, path ≠ w.target r) := by
  rintro path hpath ⟨hclear, hnot⟩
  rcases h with ⟨p, rfl⟩ | ⟨r, rfl⟩
  · cases hpath
  · simp only [restoring, PortOp.changes, List.mem_cons, List.not_mem_nil, or_false] at hpath
    rcases hpath with rfl | rfl
    · exact hclear _ rfl
    · exact hnot r rfl

lemma Sweeps.spares {e : PortOp} (h : w.Sweeps e) : e.Spares w.Clear := by
  intro path hpath hclear
  rcases h with ⟨p, rfl⟩ | ⟨a, rfl⟩ | ⟨l, rfl⟩
  · cases hpath
  · exact hclear a (List.mem_singleton.mp hpath).symm
  · exact hclear _ (List.mem_singleton.mp hpath).symm

section Parts

variable {complete : Bool} {c₁ c₂ c₃ : Card} {l₁ l₂ l₃ : List (Event PortOp PortOp.Reply PortFate)}
  {ev : Event PortOp PortOp.Reply PortFate} {p : Bytes} (hev : ev.asked = .listFilesRecursive p)
  (hasked₁ : ∀ ev ∈ l₁, w.Restores ev.asked) (hasked₂ : ∀ ev ∈ l₂, w.Withdraws planned ev.asked)
  (hasked₃ : ∀ ev ∈ l₃, w.Sweeps ev.asked)

include hev hasked₂ hasked₃ in
lemma granted_restoring (r : Bytes) :
    Granted (w.restoring r) (ev :: (l₁ ++ (l₂ ++ (l₃ ++ [])))) ↔ Granted (w.restoring r) l₁ := by
  have hfirst : ev.asked ≠ w.restoring r := by simp [hev, restoring]
  have h₂ := not_granted_of_asked hasked₂ (e := w.restoring r) (by simp [Withdraws, restoring])
  have h₃ := not_granted_of_asked hasked₃ (e := w.restoring r) (by simp [Sweeps, restoring])
  simp [hfirst, h₂, h₃]

include hev hasked₁ hasked₃ in
lemma granted_remove {path : Bytes} (hpath : w.Clear path) :
    Granted (.remove path) (ev :: (l₁ ++ (l₂ ++ (l₃ ++ [])))) ↔ Granted (.remove path) l₂ := by
  have h₁ := not_granted_of_asked hasked₁ (e := .remove path) (by simp [Restores, restoring])
  have h₃ := not_granted_of_asked hasked₃ (e := .remove path) (by simpa [Sweeps] using fun l => (hpath (.leaf l)).symm)
  simp [hev, h₁, h₃]

include hev hasked₁ hasked₂ in
lemma granted_unlink (path : Bytes) :
    Granted (.unlink path) (ev :: (l₁ ++ (l₂ ++ (l₃ ++ [])))) ↔ Granted (.unlink path) l₃ := by
  have h₁ := not_granted_of_asked hasked₁ (e := .unlink path) (by simp [Restores, restoring])
  have h₂ := not_granted_of_asked hasked₂ (e := .unlink path) (by simp [Withdraws])
  simp [hev, h₁, h₂]

include hev hasked₁ hasked₃ in
lemma granted_probe (path : Bytes) :
    Granted (.probe path) (ev :: (l₁ ++ (l₂ ++ (l₃ ++ [])))) ↔ Granted (.probe path) l₂ := by
  have h₁ := not_granted_of_asked hasked₁ (e := .probe path) (by simp [Restores, restoring])
  have h₃ := not_granted_of_asked hasked₃ (e := .probe path) (by simp [Sweeps])
  simp [hev, h₁, h₃]

include hev hasked₁ hasked₂ hasked₃ in
lemma RolledBack.of_parts (hplanned : ∀ r ∈ planned, w.Clear (w.target r))
    (h₁ : w.Restored displaced c complete c₁ l₁)
    (hothers₁ : ∀ path, w.Clear path ∧ (∀ r, path ≠ w.target r) → c₁.lookup path = c.lookup path)
    (h₂ : ∀ r, Granted (.remove (w.target r)) l₂ → r ∈ planned ∧ r ∉ displaced ∧
      ¬(c₁.has (w.name (.staged r)) = true ∧ Granted (.probe (w.name (.staged r))) l₂))
    (hgone₂ : ∀ p, c₂.lookup p = if Granted (.remove p) l₂ ∨ Granted (.unlink p) l₂ then none else c₁.lookup p)
    (hgone₃ : ∀ p, c₃.lookup p = if Granted (.remove p) l₃ ∨ Granted (.unlink p) l₃ then none else c₂.lookup p)
    (hclear₃ : ∀ path, w.Clear path → c₃.lookup path = c₂.lookup path) :
    w.RolledBack displaced planned c complete c₃ (ev :: (l₁ ++ (l₂ ++ (l₃ ++ [])))) := by
  have hrestoring : ∀ r, Granted (w.restoring r) (ev :: (l₁ ++ (l₂ ++ (l₃ ++ [])))) ↔ Granted (w.restoring r) l₁ :=
    granted_restoring hev hasked₂ hasked₃
  have hunlink₂ : ∀ p, ¬Granted (.unlink p) l₂ := fun p => not_granted_of_asked hasked₂ (by simp [Withdraws])
  have hremove₂ : ∀ {p}, (∀ r ∈ planned, p ≠ w.target r) → ¬Granted (.remove p) l₂ := by
    intro p hp
    refine not_granted_of_asked hasked₂ ?_
    rintro (⟨q, hq⟩ | ⟨r, hr, h⟩)
    · cases hq
    · exact hp r hr (PortOp.remove.inj h)
  refine ⟨?_, fun r hr => ?_, fun r hr => ?_, fun r hr => ?_, fun r hr hgranted => ?_, fun path hpath hnot => ?_⟩
  · simp only [hrestoring]
    exact h₁.complete
  · have hlive : c₁.lookup (w.target r) = (w.slot c₁ r).live := rfl
    simp only [hrestoring, granted_remove hev hasked₁ hasked₃ hr, hclear₃ _ hr, hgone₂, hunlink₂, or_false, hlive,
      h₁.slots r hr]
    split_ifs <;> rfl
  · have hkept : c₁.lookup (w.name (.kept r)) = (w.slot c₁ r).kept := rfl
    have hspared₂ := hremove₂ (p := w.name (.kept r)) (fun r' hr' => hplanned r' hr' _)
    have hspared₃ : ¬Granted (.remove (w.name (.kept r))) l₃ :=
      not_granted_of_asked hasked₃ (by simp [Sweeps, w.name_injective.eq_iff])
    simp only [hrestoring, granted_unlink hev hasked₁ hasked₂, hgone₃, hspared₃, false_or, hgone₂, hspared₂, hunlink₂,
      or_false, if_false, hkept, h₁.slots r hr, ite_or]
    split_ifs <;> rfl
  · exact h₁.listed r ((hrestoring r).mp hr)
  · obtain ⟨hlisted, hdisplaced, hwaits⟩ := h₂ r ((granted_remove hev hasked₁ hasked₃ hr).mp hgranted)
    have hstaged : (w.slot c₁ r).staged = (w.slot c r).staged := by
      rw [h₁.slots r hr]
      split <;> rfl
    have hhas : c₁.has (w.name (.staged r)) = c.has (w.name (.staged r)) := congrArg Option.isSome hstaged
    rw [granted_probe hev hasked₁ hasked₃, ← hhas]
    exact ⟨hlisted, hdisplaced, hwaits⟩
  · have hspared₂ := hremove₂ (fun r _ => hnot r)
    rw [hclear₃ _ hpath, hgone₂, if_neg (not_or.mpr ⟨hspared₂, hunlink₂ _⟩), hothers₁ _ ⟨hpath, hnot⟩]

end Parts

lemma Marks.returns_rollBack (hmarks : w.Marks marker) (hplanned : ∀ r ∈ planned, w.Clear (w.target r))
    (hnodup : planned.Nodup) (hbackup : ∀ r ∈ L.files c (w.config.backupFor w.id), w.Clear (w.target r)) :
    (fallible L).returns (rollBack w.config marker planned) (fun complete c' l => ∃ fate,
      l.head?.map Event.fate = some fate ∧ w.RolledBack (backedUp L w.config w.id c fate) planned c complete c' l) c := by
  rw [rollBack, hmarks.backupDir]
  refine returns_listFilesRecursive (fun f listed hlisted => ?_)
  obtain rfl : listed = backedUp L w.config w.id c f := hlisted
  have hsub := backedUp_sublist L w.config w.id c f
  refine World.returns_bind (World.returns_mono (World.returns_and
    (hmarks.returns_restoreAll _ ((L.nodup _ _).sublist hsub) (fun r hr => hbackup r (hsub.subset hr))
      (fun r hr => (mem_files_backup.mp (hsub.subset hr)).2))
    (World.returns_and (World.returns_of_asks (hmarks.asks_restoreAll _))
      (World.returns_of_wp (wp_spares ((hmarks.asks_restoreAll _).mono (fun _ => Restores.spares)))))) ?_)
  rintro complete c₁ l₁ ⟨h₁, hasked₁, hothers₁⟩
  refine World.returns_bind (World.returns_mono (World.returns_and (hmarks.returns_withdrawAll hplanned hnodup)
    (World.returns_and (World.returns_of_asks hmarks.asks_withdrawAll)
      (returns_deletes (hmarks.asks_withdrawAll.mono (fun _ => Withdraws.deletes))))) ?_)
  rintro _ c₂ l₂ ⟨h₂, hasked₂, hgone₂⟩
  refine World.returns_bind (World.returns_mono (World.returns_and (World.returns_of_asks hmarks.asks_commit)
    (World.returns_and (returns_deletes (hmarks.asks_commit.mono (fun _ => Sweeps.deletes)))
      (World.returns_of_wp (wp_spares (hmarks.asks_commit.mono (fun _ => Sweeps.spares)))))) ?_)
  rintro _ c₃ l₃ ⟨hasked₃, hgone₃, hclear₃⟩
  exact World.returns_done
    ⟨f, rfl, .of_parts rfl hasked₁ hasked₂ hasked₃ hplanned h₁ hothers₁ h₂.2 hgone₂ hgone₃ hclear₃⟩

end RollBack

end Workspace

end NsxManager.Cfw
