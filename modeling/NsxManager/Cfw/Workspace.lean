import NsxManager.Cfw.Install
import NsxManager.Lib.Slot

/-! The names one merge works with, and what a card holds under them. -/

namespace NsxManager.Cfw

open NsxManager.Core Lib

def CfwInstallConfig.Outside (config : CfwInstallConfig) (path : Bytes) : Prop :=
  ¬(config.stagingRoot ++ ascii "/") <+: path

instance (config : CfwInstallConfig) (path : Bytes) : Decidable (config.Outside path) :=
  inferInstanceAs (Decidable (¬_))

def CfwInstallConfig.Works (config : CfwInstallConfig) (id path : Bytes) : Prop :=
  (∃ r, path = config.stagingFor id ++ ascii "/" ++ r) ∨ (∃ r, path = config.backupFor id ++ ascii "/" ++ r) ∨
    path ∈ [config.archiveFor id, config.mergeFileListPath, config.mergeFileListPath ++ ascii ".tmp",
      config.markerPath, config.markerPath ++ ascii ".tmp"]

/-- None of the names leads from the destination to one of the item's working files. -/
def CfwInstallConfig.Apart (config : CfwInstallConfig) (id destination : Bytes) (names : List Bytes) : Prop :=
  ∀ r ∈ names, ¬config.Works id (join destination r)

structure Workspace where
  config : CfwInstallConfig
  id : Bytes
  destination : Bytes
  valid : isValidId id = true

inductive Leaf where
  | archive
  | list
  | listTemporary
  | marker
  | markerTemporary
  deriving DecidableEq

inductive Place where
  | kept (relative : Bytes)
  | staged (relative : Bytes)
  | leaf (l : Leaf)
  deriving DecidableEq

namespace Workspace

variable (w : Workspace)

def name : Place → Bytes
  | .kept relative => w.config.backupFor w.id ++ ascii "/" ++ relative
  | .staged relative => w.config.stagingFor w.id ++ ascii "/" ++ relative
  | .leaf .archive => w.config.archiveFor w.id
  | .leaf .list => w.config.mergeFileListPath
  | .leaf .listTemporary => w.config.mergeFileListPath ++ ascii ".tmp"
  | .leaf .marker => w.config.markerPath
  | .leaf .markerTemporary => w.config.markerPath ++ ascii ".tmp"

def leafName : Leaf → Bytes
  | .archive => w.id ++ ascii ".zip"
  | .list => ascii "merge.files"
  | .listTemporary => ascii "merge.files.tmp"
  | .marker => ascii "merge.json"
  | .markerTemporary => ascii "merge.json.tmp"

def innerName : Place → Bytes
  | .kept relative => w.id ++ (ascii ".backup/" ++ relative)
  | .staged relative => w.id ++ (ascii "/" ++ relative)
  | .leaf l => w.leafName l

lemma name_eq (a : Place) : w.name a = w.config.stagingRoot ++ ascii "/" ++ w.innerName a := by
  have hbackup : ascii ".backup/" = ascii ".backup" ++ ascii "/" := by decide
  cases a with
  | kept r => simp only [name, innerName, CfwInstallConfig.backupFor, hbackup, List.append_assoc]
  | staged r => simp only [name, innerName, CfwInstallConfig.stagingFor, List.append_assoc]
  | leaf l =>
    cases l with
    | archive => simp only [name, innerName, leafName, CfwInstallConfig.archiveFor, List.append_assoc]
    | list => exact (List.append_assoc _ (ascii "/") _).symm
    | listTemporary =>
      exact (List.append_assoc _ _ _).trans (List.append_assoc _ (ascii "/") (ascii "merge.files.tmp")).symm
    | marker => exact (List.append_assoc _ (ascii "/") _).symm
    | markerTemporary =>
      exact (List.append_assoc _ _ _).trans (List.append_assoc _ (ascii "/") (ascii "merge.json.tmp")).symm

lemma slash_not_mem_id : byte '/' ∉ w.id := by
  intro hmem
  have hvalid := w.valid
  simp only [isValidId, Bool.and_eq_true, List.all_eq_true] at hvalid
  exact absurd (hvalid.1.2 _ hmem) (by decide)

lemma id_ne_nil : w.id ≠ [] := by
  have hvalid := w.valid
  simp only [isValidId, Bool.and_eq_true] at hvalid
  simpa using hvalid.1.1.1

lemma slash_not_mem_leafName (l : Leaf) : byte '/' ∉ w.leafName l := by
  have hid := w.slash_not_mem_id
  cases l with
  | archive =>
    simp only [leafName, List.mem_append, not_or]
    exact ⟨hid, by decide⟩
  | _ =>
    simp only [leafName]
    decide

lemma leafName_injective : Function.Injective w.leafName := by
  have hends : ∀ {x y : Bytes}, x.length = y.length → x ≠ y → ∀ a b, a ++ x ≠ b ++ y :=
    fun hlength hne a b heq => hne (List.append_inj_right' heq hlength)
  have hfiles : ascii "merge.files" = ascii "merge.f" ++ ascii "iles" := by decide
  have hjson : ascii "merge.json" = ascii "merge." ++ ascii "json" := by decide
  have htmp : ascii "merge.files.tmp" = ascii "merge.files" ++ ascii ".tmp" := by decide
  have htmp' : ascii "merge.json.tmp" = ascii "merge.json" ++ ascii ".tmp" := by decide
  have hnodup : ([Leaf.archive, .list, .listTemporary, .marker, .markerTemporary].map
      w.leafName).Nodup := by
    simp only [List.map_cons, List.map_nil, leafName, List.nodup_cons, List.mem_cons, List.not_mem_nil, or_false,
      not_or, not_false_eq_true, List.nodup_nil, and_true]
    refine ⟨⟨?_, ?_, ?_, ?_⟩, by decide⟩
    · exact hfiles ▸ hends (by decide) (by decide) _ _
    · exact htmp ▸ hends (by decide) (by decide) _ _
    · exact hjson ▸ hends (by decide) (by decide) _ _
    · exact htmp' ▸ hends (by decide) (by decide) _ _
  intro a b hab
  have hmem : ∀ l : Leaf, l ∈ [Leaf.archive, .list, .listTemporary, .marker, .markerTemporary] := by
    intro l
    cases l <;> decide
  exact List.inj_on_of_nodup_map hnodup (hmem a) (hmem b) hab

lemma innerName_injective : Function.Injective w.innerName := by
  have hleaf : ∀ l rest, w.leafName l ≠ w.id ++ rest ∨ byte '/' ∉ rest := by
    intro l rest
    by_cases hmem : byte '/' ∈ rest
    · exact .inl (fun heq => w.slash_not_mem_leafName l (heq ▸ List.mem_append_right _ hmem))
    · exact .inr hmem
  have hkept : ∀ r, byte '/' ∈ ascii ".backup/" ++ r := fun r => List.mem_append_left _ (by decide)
  have hstaged : ∀ r, byte '/' ∈ ascii "/" ++ r := fun r => List.mem_append_left _ (by decide)
  have hapart : ∀ r r', ascii ".backup/" ++ r ≠ ascii "/" ++ r' := by
    intro r r' heq
    exact absurd (List.cons.inj heq).1 (by decide)
  intro a b hab
  cases a with
  | kept r =>
    cases b with
    | kept r' => rw [List.append_cancel_left (List.append_cancel_left hab)]
    | staged r' => exact absurd (List.append_cancel_left hab) (hapart r r')
    | leaf l => exact ((hleaf l _).resolve_right (not_not.mpr (hkept r)) hab.symm).elim
  | staged r =>
    cases b with
    | kept r' => exact absurd (List.append_cancel_left hab).symm (hapart r' r)
    | staged r' => rw [List.append_cancel_left (List.append_cancel_left hab)]
    | leaf l => exact ((hleaf l _).resolve_right (not_not.mpr (hstaged r)) hab.symm).elim
  | leaf l =>
    cases b with
    | kept r' => exact ((hleaf l _).resolve_right (not_not.mpr (hkept r')) hab).elim
    | staged r' => exact ((hleaf l _).resolve_right (not_not.mpr (hstaged r')) hab).elim
    | leaf l' => rw [w.leafName_injective hab]

lemma name_injective : Function.Injective w.name := by
  intro a b hab
  rw [name_eq, name_eq] at hab
  exact w.innerName_injective (List.append_cancel_left hab)

/-- Not one of the item's working files. -/
def Clear (path : Bytes) : Prop := ∀ a, w.name a ≠ path

lemma clear_iff {path : Bytes} : w.Clear path ↔ ¬w.config.Works w.id path := by
  constructor
  · rintro h (⟨r, rfl⟩ | ⟨r, rfl⟩ | hmem)
    · exact h (.staged r) rfl
    · exact h (.kept r) rfl
    · simp only [List.mem_cons, List.not_mem_nil, or_false] at hmem
      rcases hmem with rfl | rfl | rfl | rfl | rfl
      · exact h (.leaf .archive) rfl
      · exact h (.leaf .list) rfl
      · exact h (.leaf .listTemporary) rfl
      · exact h (.leaf .marker) rfl
      · exact h (.leaf .markerTemporary) rfl
  · rintro h a rfl
    cases a with
    | kept r => exact h (.inr (.inl ⟨r, rfl⟩))
    | staged r => exact h (.inl ⟨r, rfl⟩)
    | leaf l => cases l <;> exact h (.inr (.inr (by simp [name])))

lemma clear_of_outside {path : Bytes} (h : w.config.Outside path) : w.Clear path := by
  rintro a rfl
  exact h ⟨w.innerName a, (w.name_eq a).symm⟩

lemma join_injective (root : Bytes) : Function.Injective (join root) := by
  intro r r' h
  simp only [join] at h
  split_ifs at h <;> exact List.append_cancel_left h

def target (relative : Bytes) : Bytes := join w.destination relative

lemma join_of_getLast {root : Bytes} {c : UInt8} (hlast : root.getLast? = some c) (hc : c ≠ byte '/')
    (relative : Bytes) : join root relative = root ++ ascii "/" ++ relative := by
  have hne : root ≠ [] := by
    rintro rfl
    cases hlast
  have hslash : root ≠ ascii "/" := by
    rintro rfl
    exact hc (Option.some.inj hlast).symm
  simp [join, hlast, hne, hslash, hc]

lemma getLast_stagingFor :
    ∃ c, (w.config.stagingFor w.id).getLast? = some c ∧ c ≠ byte '/' := by
  refine ⟨w.id.getLast w.id_ne_nil, ?_, fun heq => w.slash_not_mem_id ?_⟩
  · rw [CfwInstallConfig.stagingFor, List.getLast?_append_of_ne_nil _ w.id_ne_nil,
      List.getLast?_eq_some_getLast w.id_ne_nil]
  · exact heq ▸ List.getLast_mem w.id_ne_nil

lemma join_staged (relative : Bytes) :
    join (w.config.stagingFor w.id) relative = w.name (.staged relative) := by
  obtain ⟨c, hlast, hc⟩ := w.getLast_stagingFor
  exact join_of_getLast hlast hc relative

lemma join_kept (relative : Bytes) : join (w.config.backupFor w.id) relative = w.name (.kept relative) := by
  have hlast : (w.config.backupFor w.id).getLast? = some (byte 'p') := by
    rw [CfwInstallConfig.backupFor, List.getLast?_append_of_ne_nil _ (by decide)]
    decide
  exact join_of_getLast hlast (by decide) relative

lemma clear_of_apart {names : List Bytes} (h : w.config.Apart w.id w.destination names) :
    ∀ r ∈ names, w.Clear (w.target r) :=
  fun r hr => w.clear_iff.mpr (h r hr)

lemma target_injective : Function.Injective w.target := join_injective w.destination

def slot (c : Card) (relative : Bytes) : Slot Bytes :=
  ⟨c.lookup (w.target relative), c.lookup (w.name (.kept relative)), c.lookup (w.name (.staged relative))⟩

end Workspace

structure Desk where
  slot : Bytes → Slot Bytes
  marker : Option Bytes
  list : Option Bytes

def Desk.at (d : Desk) (relative : Bytes) (change : Slot Bytes → Slot Bytes) : Desk :=
  { d with slot := Function.update d.slot relative (change (d.slot relative)) }

lemma Desk.at_self (d : Desk) (r : Bytes) (change : Slot Bytes → Slot Bytes) :
    (d.at r change).slot r = change (d.slot r) := Function.update_self ..

lemma Desk.at_of_ne (d : Desk) {r r' : Bytes} {change : Slot Bytes → Slot Bytes} (h : r' ≠ r) :
    (d.at r change).slot r' = d.slot r' := Function.update_of_ne h ..

lemma Desk.at_forall {d : Desk} {names : List Bytes} {r : Bytes} {change : Slot Bytes → Slot Bytes}
    {P : Bytes → Slot Bytes → Prop} (h : ∀ r' ∈ names, P r' (d.slot r')) (hr : P r (change (d.slot r))) :
    ∀ r' ∈ names, P r' ((d.at r change).slot r') := by
  intro r' hr'
  by_cases heq : r' = r
  · subst heq
    rwa [d.at_self]
  · rw [d.at_of_ne heq]
    exact h r' hr'

namespace Workspace

/-- On the card, the names of the merge are as on the desk, nothing else is in the backup, and every
other file is as in `outside`. -/
structure Shows (w : Workspace) (names : List Bytes) (outside : Bytes → Option Bytes) (d : Desk) (c : Card) :
    Prop where
  slots : ∀ r ∈ names, w.slot c r = d.slot r
  spare : ∀ r ∉ names, r ≠ [] → c.lookup (w.name (.kept r)) = none
  others : ∀ path, w.Clear path → path ∉ names.map w.target → c.lookup path = outside path
  marker : c.lookup (w.name (.leaf .marker)) = d.marker
  list : c.lookup (w.name (.leaf .list)) = d.list

section Shows

variable {w : Workspace} {names : List Bytes} {outside : Bytes → Option Bytes} {d : Desk} {c c' : Card} {r : Bytes}

lemma lookup_name_erase (a b : Place) :
    (c.erase (w.name a)).lookup (w.name b) = if b = a then none else c.lookup (w.name b) := by
  rw [Card.lookup_erase_eq]
  simp only [w.name_injective.eq_iff]

lemma lookup_clear_erase {path : Bytes} (hclear : w.Clear path) (a : Place) :
    (c.erase (w.name a)).lookup path = c.lookup path := by
  rw [Card.lookup_erase_eq, if_neg (fun h => hclear a h.symm)]

lemma lookup_name_insert (a b : Place) (bytes : Bytes) :
    (c.insert (w.name a) bytes).lookup (w.name b) = if b = a then some bytes else c.lookup (w.name b) := by
  rw [Card.lookup_insert_eq]
  simp only [w.name_injective.eq_iff]

lemma lookup_clear_insert {path : Bytes} (hclear : w.Clear path) (a : Place) (bytes : Bytes) :
    (c.insert (w.name a) bytes).lookup path = c.lookup path := by
  rw [Card.lookup_insert_eq, if_neg (fun h => hclear a h.symm)]

lemma Shows.congr {d' : Desk} (hs : w.Shows names outside d c) (hslots : ∀ r ∈ names, d'.slot r = d.slot r)
    (hmarker : d'.marker = d.marker) (hlist : d'.list = d.list) : w.Shows names outside d' c :=
  ⟨fun r hr => (hs.slots r hr).trans (hslots r hr).symm, hs.spare, hs.others, hs.marker.trans hmarker.symm,
    hs.list.trans hlist.symm⟩

lemma slot_of_agree {r' : Bytes} (hr : w.Clear (w.target r)) (hr' : w.Clear (w.target r')) (hne : r' ≠ r)
    (hagree : Card.Agree [w.target r, w.name (.kept r), w.name (.staged r)] c c') : w.slot c' r' = w.slot c r' := by
  have hname : ∀ a, a ≠ .kept r → a ≠ .staged r → c'.lookup (w.name a) = c.lookup (w.name a) := by
    intro a hk hst
    refine hagree _ ?_
    simp only [List.mem_cons, w.name_injective.eq_iff, List.not_mem_nil, or_false, not_or]
    exact ⟨hr a, hk, hst⟩
  have htarget : c'.lookup (w.target r') = c.lookup (w.target r') := by
    refine hagree _ ?_
    simp only [List.mem_cons, w.target_injective.eq_iff, List.not_mem_nil, or_false, not_or]
    exact ⟨hne, fun h => hr' _ h.symm, fun h => hr' _ h.symm⟩
  rw [slot, slot, htarget, hname _ (by simpa using hne) (by simp), hname _ (by simp) (by simpa using hne)]

section Slots

variable (hne : w.Clear (w.target r))

include hne

lemma slot_displace :
    w.slot (Card.move (c.erase (w.name (.kept r))) (w.target r) (w.name (.kept r))) r = (w.slot c r).displaced := by
  simp [slot, Card.lookup_replace _ _ (hne _).symm, w.name_injective.eq_iff, (hne _).symm, hne _, Slot.displaced]

lemma slot_install :
    w.slot (Card.move (c.erase (w.target r)) (w.name (.staged r)) (w.target r)) r = (w.slot c r).installed := by
  simp [slot, Card.lookup_replace _ _ (hne _), w.name_injective.eq_iff, hne _, Slot.installed]

lemma slot_restore :
    w.slot (Card.move (c.erase (w.target r)) (w.name (.kept r)) (w.target r)) r = (w.slot c r).restored := by
  simp [slot, Card.lookup_replace _ _ (hne _), w.name_injective.eq_iff, hne _, Slot.restored]

end Slots

lemma Shows.at (hs : w.Shows names outside d c) (hclear : ∀ r ∈ names, w.Clear (w.target r)) (hr : r ∈ names)
    {change : Slot Bytes → Slot Bytes} (hslot : w.slot c' r = change (w.slot c r))
    (hagree : Card.Agree [w.target r, w.name (.kept r), w.name (.staged r)] c c') :
    w.Shows names outside (d.at r change) c' := by
  have hname : ∀ a, a ≠ .kept r → a ≠ .staged r → c'.lookup (w.name a) = c.lookup (w.name a) := by
    intro a hk hst
    refine hagree _ ?_
    simp only [List.mem_cons, w.name_injective.eq_iff, List.not_mem_nil, or_false, not_or]
    exact ⟨hclear r hr a, hk, hst⟩
  refine ⟨fun r' hr' => ?_, fun r' hr' hne => ?_, fun path hpath hnot => ?_, ?_, ?_⟩
  · by_cases h : r' = r
    · subst h
      rw [hslot, hs.slots r' hr', d.at_self]
    · rw [d.at_of_ne h, ← hs.slots r' hr', slot_of_agree (hclear r hr) (hclear r' hr') h hagree]
  · rw [hname _ (by rintro ⟨⟩; exact hr' hr) (by simp)]
    exact hs.spare r' hr' hne
  · rw [hagree path ?_]
    · exact hs.others path hpath hnot
    · simp only [List.mem_cons, List.not_mem_nil, or_false, not_or]
      exact ⟨fun h => hnot (h ▸ List.mem_map_of_mem hr), fun h => hpath _ h.symm, fun h => hpath _ h.symm⟩
  · exact (hname _ (by simp) (by simp)).trans hs.marker
  · exact (hname _ (by simp) (by simp)).trans hs.list

lemma Shows.beside (hs : w.Shows names outside d c) (hclear : ∀ r ∈ names, w.Clear (w.target r)) (a : Place)
    (hkept : ∀ r ∈ names, a ≠ .kept r) (hstaged : ∀ r ∈ names, a ≠ .staged r) :
    w.Shows names outside
      { d with marker := if a = .leaf .marker then none else d.marker,
               list := if a = .leaf .list then none else d.list } (c.erase (w.name a)) := by
  refine ⟨fun r hr => ?_, fun r hr hne => ?_, fun path hpath hnot => ?_, ?_, ?_⟩
  · rw [← hs.slots r hr, slot, slot, lookup_clear_erase (hclear r hr), lookup_name_erase, lookup_name_erase,
      if_neg (Ne.symm (hkept r hr)), if_neg (Ne.symm (hstaged r hr))]
  · rw [lookup_name_erase, hs.spare r hr hne, ite_self]
  · rw [lookup_clear_erase hpath]
    exact hs.others path hpath hnot
  · rw [lookup_name_erase, hs.marker]
    simp only [eq_comm]
  · rw [lookup_name_erase, hs.list]
    simp only [eq_comm]

section Steps

variable (hs : w.Shows names outside d c) (hclear : ∀ r ∈ names, w.Clear (w.target r)) (hr : r ∈ names)

include hs hclear hr

lemma Shows.displace : w.Shows names outside (d.at r Slot.displaced)
    (Card.move (c.erase (w.name (.kept r))) (w.target r) (w.name (.kept r))) :=
  hs.at hclear hr (slot_displace (hclear r hr)) (Card.Agree.replace (by simp) (by simp) c)

lemma Shows.install : w.Shows names outside (d.at r Slot.installed)
    (Card.move (c.erase (w.target r)) (w.name (.staged r)) (w.target r)) :=
  hs.at hclear hr (slot_install (hclear r hr)) (Card.Agree.replace (by simp) (by simp) c)

lemma Shows.restore : w.Shows names outside (d.at r Slot.restored)
    (Card.move (c.erase (w.target r)) (w.name (.kept r)) (w.target r)) :=
  hs.at hclear hr (slot_restore (hclear r hr)) (Card.Agree.replace (by simp) (by simp) c)

lemma Shows.withdraw : w.Shows names outside (d.at r Slot.withdrawn) (c.erase (w.target r)) := by
  have hne := hclear r hr
  refine hs.at hclear hr ?_ ((Card.Agree.refl _ c).erase (by simp))
  simp [slot, hne _, Slot.withdrawn]

lemma Shows.forget : w.Shows names outside (d.at r Slot.forgotten) (c.erase (w.name (.kept r))) := by
  refine hs.at hclear hr ?_ ((Card.Agree.refl _ c).erase (by simp))
  simp [slot, lookup_name_erase, lookup_clear_erase (hclear r hr), Slot.forgotten]

lemma Shows.unstage : w.Shows names outside (d.at r Slot.unstaged) (c.erase (w.name (.staged r))) := by
  refine hs.at hclear hr ?_ ((Card.Agree.refl _ c).erase (by simp))
  simp [slot, lookup_name_erase, lookup_clear_erase (hclear r hr), Slot.unstaged]

end Steps

end Shows

end Workspace

end NsxManager.Cfw
