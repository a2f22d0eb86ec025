import NsxManager.Cfw.Workspace

/-! The merge loop: wherever it stops, every file it touched is accounted for. -/

namespace NsxManager.Cfw

open NsxManager.Core Lib Infra

section Asks

variable {P : PortOp → Prop} {watched : Bool} {marker : MergeMarker}

lemma asks_report (h : ∀ progress, P (.report progress)) (progress : InstallProgress) :
    (report watched progress).Asks P := by
  unfold report
  split
  · exact ⟨h _, fun _ => trivial⟩
  · trivial

lemma asks_rename_in {source destination : Bytes} {stuck failed : Option Interruption}
    (hquiet : ∀ e : PortOp, e.changes = [] → P e) (h : P (.rename source destination)) :
    (makeParent destination >>= fun made => if !made then pure stuck
      else Ports.rename source destination >>= fun renamed => if !renamed then pure failed else pure none).Asks P := by
  have hrename : (Ports.rename source destination).Asks P := ⟨h, fun _ => trivial⟩
  refine (asks_makeParent (fun _ => hquiet _ rfl) _).bind (fun made => ?_)
  split
  · trivial
  · refine hrename.bind (fun renamed => ?_)
    split <;> trivial

lemma asks_setAside {r : Bytes} (hquiet : ∀ e : PortOp, e.changes = [] → P e)
    (h : P (.rename (join marker.destinationRoot r) (join marker.backupDir r))) : (setAside marker r).Asks P :=
  asks_rename_in hquiet h

lemma asks_moveIn {r : Bytes} (hquiet : ∀ e : PortOp, e.changes = [] → P e)
    (h : P (.rename (join marker.stagingDir r) (join marker.destinationRoot r))) : (moveIn marker r).Asks P :=
  asks_rename_in hquiet h

lemma asks_mergeLoop (hquiet : ∀ e : PortOp, e.changes = [] → P e) (total done : ℕ) (rest : List Bytes) (tally : Tally)
    (haside : ∀ r ∈ rest, P (.rename (join marker.destinationRoot r) (join marker.backupDir r)))
    (hin : ∀ r ∈ rest, P (.rename (join marker.stagingDir r) (join marker.destinationRoot r))) :
    (mergeLoop watched marker total done rest tally).Asks P := by
  induction rest generalizing done tally with
  | nil => trivial
  | cons r rest ih =>
    have hprobe : (Ports.probe (join marker.destinationRoot r)).Asks P := ⟨hquiet _ rfl, fun _ => trivial⟩
    have hnext := fun done tally => ih done tally (fun r' hr' => haside r' (List.mem_cons_of_mem _ hr'))
      (fun r' hr' => hin r' (List.mem_cons_of_mem _ hr'))
    have hmoved : ∀ {k : Option Interruption → PortProgram (Tally × Option Interruption)},
        (∀ stop, (k (some stop)).Asks P) → (k none).Asks P → (moveIn marker r >>= k).Asks P := by
      intro k hstop hgoing
      refine (asks_moveIn hquiet (hin r List.mem_cons_self)).bind (fun moved => ?_)
      cases moved with
      | some stop => exact hstop stop
      | none => exact hgoing
    refine (asks_report (fun _ => hquiet _ rfl) _).bind (fun going => ?_)
    split
    · trivial
    refine hprobe.bind (fun present => ?_)
    cases present with
    | false => exact hmoved (fun _ => trivial) (hnext _ _)
    | true =>
      refine (asks_setAside hquiet (haside r List.mem_cons_self)).bind (fun aside => ?_)
      cases aside with
      | some stop => trivial
      | none => exact hmoved (fun _ => trivial) (hnext _ _)

end Asks

section Rules

variable {blind : Bool} {L : Listing} {α : Type} {A : Event PortOp PortOp.Reply PortFate → Prop} {C : Card → Prop}
  {Q : α → Card → Prop} {c : Card} {r : Bytes}

lemma wp_makeParent {p : Bytes} {k : Bool → PortProgram α} (hC : C c)
    (hfail : (∃ ev, A ev ∧ ev.fate.failing = true) → (Ports.worldOf blind L).wp A C (k false) Q c)
    (hk : (Ports.worldOf blind L).wp A C (k true) Q c) : (Ports.worldOf blind L).wp A C (makeParent p >>= k) Q c := by
  unfold makeParent
  split
  · exact hk
  · exact Ports.wp_makeDirectories hC (fun hev => hfail ⟨_, hev, rfl⟩) hk

lemma wp_report {watched : Bool} {progress : InstallProgress} {k : Bool → PortProgram α} (hC : C c)
    (hfail : (∃ ev, A ev ∧ ev.fate.failing = true) → (Ports.worldOf blind L).wp A C (k false) Q c)
    (hk : (Ports.worldOf blind L).wp A C (k true) Q c) :
    (Ports.worldOf blind L).wp A C (report watched progress >>= k) Q c := by
  unfold report
  split
  · exact Ports.wp_report hC (fun hev => hfail ⟨_, hev, rfl⟩) hk
  · exact hk

namespace Workspace

structure Marks (w : Workspace) (marker : MergeMarker) : Prop where
  stagingDir : marker.stagingDir = w.config.stagingFor w.id
  backupDir : marker.backupDir = w.config.backupFor w.id
  destinationRoot : marker.destinationRoot = w.destination
  itemId : marker.itemId = w.id

variable {w : Workspace} {marker : MergeMarker} (hmarks : w.Marks marker)

include hmarks

lemma Marks.join_kept (r : Bytes) : join marker.backupDir r = w.name (.kept r) := by
  rw [hmarks.backupDir, w.join_kept]

lemma Marks.join_staged (r : Bytes) : join marker.stagingDir r = w.name (.staged r) := by
  rw [hmarks.stagingDir, w.join_staged]

lemma Marks.join_target (r : Bytes) : join marker.destinationRoot r = w.target r := by
  rw [hmarks.destinationRoot, target]

variable (hclear : w.Clear (w.target r)) {k : Option Interruption → PortProgram α} (hC : C c)
  (hstop : ∀ stop : Interruption, stop.result = .rolledBack → (∃ ev, A ev ∧ ev.fate.failing = true) →
    (Ports.worldOf blind L).wp A C (k (some stop)) Q c)

include hclear hC hstop

lemma Marks.wp_setAside (hlive : c.has (w.target r) = true)
    (hk : (Ports.worldOf blind L).wp A C (k none) Q
      (Card.move (c.erase (w.name (.kept r))) (w.target r) (w.name (.kept r)))) :
    (Ports.worldOf blind L).wp A C (setAside marker r >>= k) Q c := by
  rw [← Card.has_erase_of_ne c _ (w.name (.kept r)) (hclear _).symm] at hlive
  rw [setAside, Program.bind_assoc]
  refine wp_makeParent hC (hstop _ rfl) ?_
  rw [if_neg (by decide), Program.bind_assoc, hmarks.join_kept, hmarks.join_target]
  refine Ports.wp_rename hC (fun hev => hstop _ rfl ⟨_, hev, rfl⟩) ?_
  rwa [hlive]

lemma Marks.wp_moveIn (hstaged : c.has (w.name (.staged r)) = true)
    (hk : (Ports.worldOf blind L).wp A C (k none) Q
      (Card.move (c.erase (w.target r)) (w.name (.staged r)) (w.target r))) :
    (Ports.worldOf blind L).wp A C (moveIn marker r >>= k) Q c := by
  rw [← Card.has_erase_of_ne c _ (w.target r) (hclear _)] at hstaged
  rw [moveIn, Program.bind_assoc]
  refine wp_makeParent hC (hstop _ rfl) ?_
  rw [if_neg (by decide), Program.bind_assoc, hmarks.join_staged, hmarks.join_target]
  refine Ports.wp_rename hC (fun hev => hstop _ rfl ⟨_, hev, rfl⟩) ?_
  rwa [hstaged]

end Workspace

end Rules

/-- The names under which a merge can be undone, and every file beside them. -/
structure Undo extends Workspace where
  marker : MergeMarker
  names : List Bytes
  before : Bytes → Option Bytes
  stagingDir : marker.stagingDir = config.stagingFor id
  backupDir : marker.backupDir = config.backupFor id
  destinationRoot : marker.destinationRoot = destination
  itemId : marker.itemId = id
  nonempty : ∀ r ∈ names, r ≠ []
  clear : ∀ r ∈ names, toWorkspace.Clear (toWorkspace.target r)

abbrev Undo.Shows (M : Undo) (d : Desk) (c : Card) : Prop := M.toWorkspace.Shows M.names M.before d c

lemma Undo.marks (M : Undo) : M.toWorkspace.Marks M.marker := ⟨M.stagingDir, M.backupDir, M.destinationRoot, M.itemId⟩

structure Merge extends Undo where
  document : Bytes
  package : Bytes → Bytes
  nodup : names.Nodup

namespace Merge

variable (M : Merge)

def old (relative : Bytes) : Option Bytes := M.before (M.target relative)

def Underway (c : Card) : Prop :=
  ∃ d, M.Shows d c ∧ (∀ r ∈ M.names, (d.slot r).Merging (M.old r) (M.package r)) ∧
    d.marker = some M.document ∧ d.list = some (planText M.names)

structure Ahead (rest : List Bytes) (d : Desk) : Prop where
  waiting : ∀ r ∈ rest, r ∈ M.names ∧ d.slot r = ⟨M.old r, none, some (M.package r)⟩
  moved : ∀ r ∈ M.names, r ∉ rest → d.slot r = ⟨some (M.package r), M.old r, none⟩
  marker : d.marker = some M.document
  list : d.list = some (planText M.names)

variable {M}

lemma Ahead.merging {rest : List Bytes} {d : Desk} (h : M.Ahead rest d) :
    ∀ r ∈ M.names, (d.slot r).Merging (M.old r) (M.package r) := by
  intro r hr
  by_cases hrest : r ∈ rest
  · exact (h.waiting r hrest).2 ▸ .untouched
  · exact h.moved r hr hrest ▸ .installed

lemma Ahead.underway {rest : List Bytes} {d : Desk} {c : Card} (h : M.Ahead rest d) (hs : M.Shows d c) :
    M.Underway c :=
  ⟨d, hs, h.merging, h.marker, h.list⟩

section Rules

variable {L : Listing} {α : Type} {A : Event PortOp PortOp.Reply PortFate → Prop} {C : Card → Prop}
  {Q : α → Card → Prop} {c : Card} {d : Desk} {r : Bytes}

lemma wp_setAside (hs : M.Shows d c) (hr : r ∈ M.names) (hlive : (d.slot r).live.isSome)
    {k : Option Interruption → PortProgram α} (hC : C c)
    (hstop : ∀ stop : Interruption, stop.result = .rolledBack → (∃ ev, A ev ∧ ev.fate.failing = true) →
      (Ports.world L).wp A C (k (some stop)) Q c)
    (hk : ∀ c', M.Shows (d.at r Slot.displaced) c' → (Ports.world L).wp A C (k none) Q c') :
    (Ports.world L).wp A C (setAside M.marker r >>= k) Q c := by
  refine M.marks.wp_setAside (M.clear r hr) hC hstop ?_ (hk _ (hs.displace M.clear hr))
  have hslot : c.lookup (M.target r) = (d.slot r).live := congrArg Slot.live (hs.slots r hr)
  rwa [Card.has, hslot]

lemma wp_moveIn (hs : M.Shows d c) (hr : r ∈ M.names) (hstaged : (d.slot r).staged.isSome)
    {k : Option Interruption → PortProgram α} (hC : C c)
    (hstop : ∀ stop : Interruption, stop.result = .rolledBack → (∃ ev, A ev ∧ ev.fate.failing = true) →
      (Ports.world L).wp A C (k (some stop)) Q c)
    (hk : ∀ c', M.Shows (d.at r Slot.installed) c' → (Ports.world L).wp A C (k none) Q c') :
    (Ports.world L).wp A C (moveIn M.marker r >>= k) Q c := by
  refine M.marks.wp_moveIn (M.clear r hr) hC hstop ?_ (hk _ (hs.install M.clear hr))
  have hslot : c.lookup (M.name (.staged r)) = (d.slot r).staged := congrArg Slot.staged (hs.slots r hr)
  rwa [Card.has, hslot]

def Ended (M : Merge) (A : Event PortOp PortOp.Reply PortFate → Prop) (stop : Option Interruption) (c : Card) :
    Prop :=
  match stop with
  | none => ∃ d, M.Shows d c ∧ M.Ahead [] d
  | some stop => M.Underway c ∧ (stop.result = .cancelled ∨ stop.result = .rolledBack) ∧
    ∃ ev, A ev ∧ ev.fate.failing = true

lemma Ended.underway {stop : Option Interruption} (h : M.Ended A stop c) : M.Underway c := by
  cases stop with
  | none =>
    obtain ⟨d, hs, hahead⟩ := h
    exact hahead.underway hs
  | some stop => exact h.1

lemma Ahead.displace {rest : List Bytes} (h : M.Ahead (r :: rest) d) (hold : (M.old r).isSome) :
    ∀ r' ∈ M.names, ((d.at r Slot.displaced).slot r').Merging (M.old r') (M.package r') := by
  refine Desk.at_forall (P := fun r' s => s.Merging (M.old r') (M.package r')) h.merging ?_
  rw [(h.waiting r List.mem_cons_self).2]
  exact .displaced hold

lemma Ahead.next {rest : List Bytes} {d' : Desk} (h : M.Ahead (r :: rest) d) (hnodup : (r :: rest).Nodup)
    (hslot : d'.slot r = ⟨some (M.package r), M.old r, none⟩) (hother : ∀ r' ≠ r, d'.slot r' = d.slot r')
    (hmarker : d'.marker = d.marker) (hlist : d'.list = d.list) : M.Ahead rest d' := by
  have hnot : r ∉ rest := (List.nodup_cons.mp hnodup).1
  refine ⟨fun r' hr' => ?_, fun r' hr' hrest => ?_, hmarker.trans h.marker, hlist.trans h.list⟩
  · rw [hother r' (fun heq => hnot (heq ▸ hr'))]
    exact h.waiting r' (List.mem_cons_of_mem _ hr')
  · by_cases heq : r' = r
    · exact heq ▸ hslot
    · rw [hother r' heq]
      exact h.moved r' hr' (by simp [heq, hrest])

lemma wp_mergeLoop {watched : Bool} {total : ℕ} (hC : ∀ c, M.Underway c → C c) (rest : List Bytes) (done : ℕ)
    (tally : Tally) (hs : M.Shows d c) (hahead : M.Ahead rest d) (hnodup : rest.Nodup) :
    (Ports.world L).wp A C (mergeLoop watched M.marker total done rest tally) (fun out => M.Ended A out.2) c := by
  induction rest generalizing c d done tally with
  | nil => exact ⟨d, hs, hahead⟩
  | cons r rest ih =>
    obtain ⟨hr, hslot⟩ := hahead.waiting r List.mem_cons_self
    have hunderway := hahead.underway hs
    have hnow := hC c hunderway
    have hlive : c.lookup (M.target r) = M.old r := by
      rw [show c.lookup (M.target r) = (d.slot r).live from congrArg Slot.live (hs.slots r hr), hslot]
    rw [mergeLoop]
    refine wp_report hnow (fun hfailed => ⟨hunderway, .inl rfl, hfailed⟩) ?_
    rw [if_neg (by decide), M.marks.join_target]
    refine Ports.wp_probe hnow ?_
    cases hold : M.old r with
    | none =>
      rw [Card.has, hlive, hold]
      refine wp_moveIn hs hr (by simp [hslot]) hnow
        (fun stop hstop hfailed => ⟨hunderway, .inr hstop, hfailed⟩) (fun c' hs' => ih _ _ hs' ?_ ?_)
      · exact hahead.next hnodup (by rw [d.at_self, hslot, hold]; rfl) (fun r' h => d.at_of_ne h) rfl rfl
      · exact (List.nodup_cons.mp hnodup).2
    | some b =>
      rw [Card.has, hlive, hold]
      refine wp_setAside hs hr (by simp [hslot, hold]) hnow
        (fun stop hstop hfailed => ⟨hunderway, .inr hstop, hfailed⟩) (fun c₁ hs₁ => ?_)
      have hunderway₁ : M.Underway c₁ :=
        ⟨_, hs₁, hahead.displace (by simp [hold]), hahead.marker, hahead.list⟩
      refine wp_moveIn hs₁ hr (by simp [d.at_self, hslot, Slot.displaced]) (hC c₁ hunderway₁)
        (fun stop hstop hfailed => ⟨hunderway₁, .inr hstop, hfailed⟩) (fun c₂ hs₂ => ih _ _ hs₂ ?_ ?_)
      · refine hahead.next hnodup ?_ (fun r' h => ?_) rfl rfl
        · rw [Desk.at_self, Desk.at_self, hslot]
          rfl
        · rw [Desk.at_of_ne _ h, Desk.at_of_ne _ h]
      · exact (List.nodup_cons.mp hnodup).2

end Rules

end Merge

end NsxManager.Cfw
