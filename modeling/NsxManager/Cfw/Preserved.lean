import NsxManager.Cfw.Report

/-! The user's own files under the preserve rules. The rules name files from the root of the card; the merge
asks them about names below its destination. -/

namespace NsxManager.Cfw

open NsxManager.Core Lib Infra Ports

def Keeps (config : CfwInstallConfig) (preserve : PreserveRules) (c c' : Card) : Prop :=
  ∀ relative b, config.Outside (join config.sdRoot relative) → preserve.preserves relative = true →
    c.lookup (join config.sdRoot relative) = some b → c'.lookup (join config.sdRoot relative) = some b

def Protected (config : CfwInstallConfig) (preserve : PreserveRules) (destination : Bytes) (c : Card) (r b : Bytes) :
    Prop :=
  c.lookup (join destination r) = some b ∧
    ∃ relative, join config.sdRoot relative = join destination r ∧ preserve.preserves relative = true

section Keeps

variable {config : CfwInstallConfig} {preserve : PreserveRules} {w : Workspace} {L : Listing} {J : JsonLibrary}
  {plan : MergePlan} {c₀ c c' c'' : Card} {l : List (Event PortOp PortOp.Reply PortFate)}

lemma Keeps.of_untouched (h : Untouched config c c') : Keeps config preserve c c' :=
  fun _ _ hout _ hb => (h _ hout).trans hb

lemma Keeps.lookup (h : Keeps config preserve c c') {destination r b : Bytes}
    (hprotected : Protected config preserve destination c r b) (hout : config.Outside (join destination r)) :
    c'.lookup (join destination r) = some b := by
  obtain ⟨hb, relative, heq, hpreserved⟩ := hprotected
  rw [← heq] at hb hout ⊢
  exact h relative b hout hpreserved hb

lemma keeps_of_targets (destination : Bytes)
    (hother : ∀ path, config.Outside path → (∀ r, path ≠ join destination r) → c'.lookup path = c.lookup path)
    (htarget : ∀ r b, config.Outside (join destination r) → Protected config preserve destination c r b →
      c'.lookup (join destination r) = some b) : Keeps config preserve c c' := by
  intro relative b hout hpreserved hb
  by_cases h : ∃ r, join config.sdRoot relative = join destination r
  · obtain ⟨r, heq⟩ := h
    rw [heq] at hb hout ⊢
    exact htarget r b hout ⟨hb, relative, heq, hpreserved⟩
  · rw [hother _ hout (not_exists.mp h)]
    exact hb

lemma Reached.keeps_installed_iff (h : Reached true w L J plan c c') (huntouched : Untouched w.config c₀ c)
    (hplace : ∀ r ∈ plan.toWrite, c'.lookup (w.target r) = c.lookup (w.name (.staged r)))
    (hcommitted : Untouched w.config c' c'') :
    Keeps w.config preserve c₀ c'' ↔ ∀ r ∈ plan.toWrite, ∀ b, w.config.Outside (w.target r) →
      Protected w.config preserve w.destination c₀ r b → c.lookup (w.name (.staged r)) = some b := by
  constructor
  · intro hkeeps r hr b hout hprotected
    rw [← hplace r hr, ← hcommitted _ hout]
    exact hkeeps.lookup hprotected hout
  · intro hcond
    refine keeps_of_targets w.destination (fun path hpath hnot => ?_)
      (fun r b (hout : w.config.Outside (w.target r)) hprotected => ?_)
    · rw [hcommitted path hpath, h.lookup_other hpath (fun r _ => hnot r), huntouched path hpath]
    · change c''.lookup (w.target r) = some b
      rw [hcommitted _ hout]
      by_cases hr : r ∈ plan.toWrite
      · rw [hplace r hr, hcond r hr b hout hprotected]
      · rw [h.lookup_unplanned hr hout, huntouched _ hout]
        exact hprotected.1

lemma Reached.keeps_rolledBack_iff {names : List Bytes} (h : Reached true w L J plan c c')
    (huntouched : Untouched w.config c₀ c) (hrolled : w.RolledBack names plan.toWrite c' true c'' l) :
    Keeps w.config preserve c₀ c'' ↔ ∀ r b, w.config.Outside (w.target r) →
      Protected w.config preserve w.destination c₀ r b →
        (r ∈ names → c'.lookup (w.name (.kept r)) = some b) ∧
        (r ∈ plan.toWrite → r ∉ names →
          c'.lookup (w.target r) = some b ∧ ¬Withdrawn w.config w.id w.destination c' l r) := by
  constructor
  · intro hkeeps r b hout hprotected
    have hclear := w.clear_of_outside hout
    have hkept : c''.lookup (w.target r) = some b := hkeeps.lookup hprotected hout
    refine ⟨fun hr => ?_, fun hmem hr => ?_⟩
    · rw [← hrolled.live_of_listed hclear hr, hkept]
    · rw [hrolled.live_of_not_listed hclear hr] at hkept
      split at hkept
      · cases hkept
      · next hgone => exact ⟨hkept, fun hwithdrawn => hgone ⟨hmem, hwithdrawn⟩⟩
  · intro hcond
    refine keeps_of_targets w.destination (fun path hpath hnot => ?_)
      (fun r b (hout : w.config.Outside (w.target r)) hprotected => ?_)
    · rw [hrolled.others path (w.clear_of_outside hpath) hnot, h.lookup_other hpath (fun r _ => hnot r),
        huntouched path hpath]
    · change c''.lookup (w.target r) = some b
      have hclear := w.clear_of_outside hout
      obtain ⟨hback, hplace⟩ := hcond r b hout hprotected
      by_cases hr : r ∈ names
      · rw [hrolled.live_of_listed hclear hr, hback hr]
      · rw [hrolled.live_of_not_listed hclear hr]
        by_cases hmem : r ∈ plan.toWrite
        · rw [if_neg (fun hgone => (hplace hmem hr).2 hgone.2), (hplace hmem hr).1]
        · rw [if_neg (fun hgone => hmem hgone.1), h.lookup_unplanned hmem hout, huntouched _ hout]
          exact hprotected.1

end Keeps

namespace Sample

def keepOld : PreserveRules := PreserveRules.parse (ascii "d/o")

def addition : List PortFate := fetching [(ascii "n", [5])] ++ List.replicate 20 .ok

def added : InstallOutcome := { result := .installed, filesMerged := 1, detail := ascii "installed p" }

def booting : Card := cardOf [(ascii "/bootloader/hekate_ipl.ini", [2])]

def bootItem : CatalogItem := { item with target := .bootloader }

end Sample

end NsxManager.Cfw
