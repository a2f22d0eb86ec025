import NsxManager.Core.PreserveText
import NsxManager.Maintenance.Cleanup

/-! Purging a directory as the file system reads its name, and when the cache lies in the way. -/

namespace NsxManager.Maintenance

open NsxManager.Core Lib Infra Ports

section Tree

def descend (place : List Bytes) (part : Bytes) : List Bytes :=
  if part = [] ∨ part = ascii "." then place
  else if part = ascii ".." then place.dropLast
  else place ++ [part]

def places (path : Bytes) : List Bytes := (List.splitOn (byte '/') path).foldl descend []

def canonical (path : Bytes) : Bytes := (places path).flatMap (byte '/' :: ·)

def Within (directory path : Bytes) : Prop := path = directory ∨ directory ++ ascii "/" <+: path

def Overlap (directory other : Bytes) : Prop := Within directory other ∨ Within other directory

structure IsName (part : Bytes) : Prop where
  ne_nil : part ≠ []
  ne_dot : part ≠ ascii "."
  ne_parent : part ≠ ascii ".."
  bare : byte '/' ∉ part

variable {path directory other part : Bytes}

lemma descend_of_isName (h : IsName part) (place : List Bytes) : descend place part = place ++ [part] := by
  rw [descend, if_neg (not_or.mpr ⟨h.ne_nil, h.ne_dot⟩), if_neg h.ne_parent]

lemma isName_of_mem_foldl {parts place : List Bytes} (hparts : ∀ part ∈ parts, byte '/' ∉ part)
    (hplace : ∀ part ∈ place, IsName part) : ∀ part ∈ parts.foldl descend place, IsName part := by
  induction parts generalizing place with
  | nil => exact hplace
  | cons part parts ih =>
    refine ih (fun p hp => hparts p (List.mem_cons_of_mem _ hp)) (fun p hp => ?_)
    rw [descend] at hp
    split at hp
    · exact hplace p hp
    · next hsome =>
      split at hp
      · exact hplace p (List.mem_of_mem_dropLast hp)
      · next hparent =>
        rcases List.mem_append.mp hp with hp | hp
        · exact hplace p hp
        · rw [List.mem_singleton.mp hp]
          exact ⟨fun h => hsome (.inl h), fun h => hsome (.inr h), hparent, hparts part List.mem_cons_self⟩

lemma isName_of_mem_places : ∀ part ∈ places path, IsName part :=
  isName_of_mem_foldl (fun _ h hc => (mem_of_mem_splitOn h hc).2 rfl) (fun _ h => absurd h List.not_mem_nil)

lemma places_append (path rest : Bytes) :
    places (path ++ byte '/' :: rest) = (List.splitOn (byte '/') rest).foldl descend (places path) := by
  rw [places, List.splitOn_append_cons_self, List.foldl_append, places]

lemma places_flatMap {names : List Bytes} (h : ∀ part ∈ names, IsName part) :
    places (names.flatMap (byte '/' :: ·)) = names := by
  induction names using List.reverseRecOn with
  | nil => rfl
  | append_singleton names part ih =>
    have hpart := h part (by simp)
    rw [List.flatMap_append, List.flatMap_singleton, places_append, ih (fun p hp => h p (List.mem_append_left _ hp)),
      List.splitOn_eq_singleton hpart.bare, List.foldl_cons, List.foldl_nil, descend_of_isName hpart]

lemma places_canonical (path : Bytes) : places (canonical path) = places path := places_flatMap isName_of_mem_places

lemma canonical_append (directory rest : Bytes) :
    canonical (canonical directory ++ ascii "/" ++ rest) = canonical (directory ++ ascii "/" ++ rest) := by
  have hslash : ∀ u : Bytes, u ++ ascii "/" ++ rest = u ++ byte '/' :: rest := fun u => List.append_assoc ..
  have hplaces : places (canonical directory ++ byte '/' :: rest) = places (directory ++ byte '/' :: rest) := by
    rw [places_append, places_append, places_canonical]
  rw [hslash, hslash]
  exact congrArg (List.flatMap (byte '/' :: ·)) hplaces

lemma canonical_child (directory : Bytes) (h : IsName part) :
    canonical (canonical directory ++ ascii "/" ++ part) = canonical directory ++ ascii "/" ++ part := by
  have hslash : ∀ u : Bytes, u ++ ascii "/" ++ part = u ++ byte '/' :: part := fun u => List.append_assoc ..
  rw [canonical, hslash, places_append, places_canonical, List.splitOn_eq_singleton h.bare, List.foldl_cons, List.foldl_nil,
    descend_of_isName h, List.flatMap_append, List.flatMap_singleton, ← canonical]

lemma overlap_of_within (h : directory ++ ascii "/" <+: path) (hother : Within other path) : Overlap directory other := by
  rcases hother with rfl | hother
  · exact .inl (.inr h)
  · rcases List.prefix_or_prefix_of_prefix h hother with hle | hle
    · rcases List.prefix_concat_iff.mp hle with heq | hle
      · exact .inl (.inl (List.append_cancel_right heq).symm)
      · exact .inl (.inr hle)
    · rcases List.prefix_concat_iff.mp hle with heq | hle
      · exact .inl (.inl (List.append_cancel_right heq))
      · exact .inr (.inr hle)

lemma Within.child (h : Within directory other) : directory ++ ascii "/" <+: other ++ ascii "/" ++ part := by
  rcases h with rfl | h
  · exact List.prefix_append _ _
  · exact h.trans (List.append_assoc other (ascii "/") part ▸ List.prefix_append _ _)

end Tree

/-- The program on a card whose file system takes the paths it is given apart. -/
def onTree {α : Type} : PortProgram α → PortProgram α
  | .done a => .done a
  | .call (.listFilesRecursive directory) next =>
    .call (.listFilesRecursive (canonical directory)) (fun files => onTree (next files))
  | .call (.unlink path) next => .call (.unlink (canonical path)) (fun done => onTree (next done))
  | .call e next => .call e (fun reply => onTree (next reply))

def Tidy (c : Card) : Prop := ∀ path, c.has path = true → canonical path = path

section OnTree

variable {α β : Type}

lemma onTree_bind (p : PortProgram α) (k : α → PortProgram β) : onTree (p >>= k) = onTree p >>= fun a => onTree (k a) := by
  induction p with
  | done a => rfl
  | call e next ih => cases e <;> exact congrArg (Program.call _) (funext ih)

lemma onTree_each {ι : Type} (f : ι → PortProgram Unit) (l : List ι) :
    onTree (Program.each f l) = Program.each (fun i => onTree (f i)) l := by
  induction l with
  | nil => rfl
  | cons i l ih => rw [Program.each, onTree_bind, ih, Program.each]

lemma each_congr {ι : Type} {f g : ι → PortProgram Unit} {l : List ι} (h : ∀ i ∈ l, f i = g i) :
    Program.each f l = Program.each g l := by
  induction l with
  | nil => rfl
  | cons i l ih =>
    rw [Program.each, Program.each, h i List.mem_cons_self, ih (fun j hj => h j (List.mem_cons_of_mem _ hj))]

variable {L : Listing} {A : Event PortOp PortOp.Reply PortFate → Prop} {C : Card → Prop} {c : Card}

lemma wp_onTree_removeTree {Q : Unit → Card → Prop} (hc : Tidy c) (hC : C c) {directory : Bytes}
    (h : (world L).wp A C (removeTree (canonical directory)) Q c) :
    (world L).wp A C (onTree (removeTree directory)) Q c := by
  have hfiles : ∀ relative ∈ L.files c (canonical directory),
      canonical (directory ++ ascii "/" ++ relative) = canonical directory ++ ascii "/" ++ relative := by
    intro relative hrelative
    rw [← canonical_append]
    exact hc _ ((L.complete c _ relative).mp hrelative).2
  have heach : Program.each (fun relative => onTree (unlink (directory ++ ascii "/" ++ relative) >>= fun _ => pure ()))
      (L.files c (canonical directory)) = Program.each (fun relative =>
        unlink (canonical directory ++ ascii "/" ++ relative) >>= fun _ => pure ()) (L.files c (canonical directory)) := by
    refine each_congr (fun relative hrelative => ?_)
    rw [onTree_bind, ← hfiles relative hrelative]
    rfl
  rw [removeTree, onTree_bind]
  refine (World.wp_call _ _).mpr ⟨hC, fun f hA => ?_⟩
  change (world L).wp A C (onTree (Program.each _ (L.files c (canonical directory)))) Q c
  rw [onTree_each, heach]
  exact ((World.wp_call _ _).mp h).2 f hA

lemma asks_onTree {p : PortProgram α} (h : p.Asks (· ≠ .abort)) : (onTree p).Asks (· ≠ .abort) := by
  induction p with
  | done a => trivial
  | call e next ih =>
    cases e with
    | abort => exact absurd rfl h.1
    | _ => exact ⟨PortOp.noConfusion, fun reply => ih reply (h.2 reply)⟩

end OnTree

def CleanupConfig.Refused (config : CleanupConfig) : Prop :=
  config.stagingDir = [] ∨ config.stagingDir = ascii "/" ∨ config.stagingDir = ascii "/config" ∨
    config.stagingDir <+: config.cacheDir

section Cleaning

variable {config : CleanupConfig} {L : Listing}

lemma cleanStaging_of_refused (h : config.Refused) : ∃ report, cleanStaging config = .done report := by
  rw [cleanStaging]
  split
  · exact ⟨_, rfl⟩
  · next hroot =>
    refine ⟨_, if_pos ?_⟩
    simp only [Bool.or_eq_true, List.isEmpty_iff, decide_eq_true_eq, not_or] at hroot
    rcases h with h | h | h | h
    · exact absurd h hroot.1.1
    · exact absurd h hroot.1.2
    · exact absurd h hroot.2
    · simp [h]

lemma wp_onTree_cleanStaging (h : ¬config.Refused) {A : Event PortOp PortOp.Reply PortFate → Prop} {C Q : Card → Prop}
    {c : Card} (hC : C c) (hQ : ∀ c, Q c → C c)
    (htree : (world L).wp A C (onTree (removeTree config.stagingDir)) (fun _ => Q) c) :
    (world L).wp A C (onTree (cleanStaging config)) (fun _ => Q) c := by
  simp only [CleanupConfig.Refused, not_or] at h
  obtain ⟨hempty, hroot, hconfig, hcache⟩ := h
  have hne : config.stagingDir ≠ config.cacheDir := fun heq => hcache (heq ▸ List.prefix_rfl)
  rw [cleanStaging, if_neg (by simp [hempty, hroot, hconfig]), if_neg (by simp [hcache, hne]), onTree_bind]
  refine wp_listFilesRecursive hC ?_
  rw [onTree_bind, World.wp_bind]
  refine World.wp_post htree (fun _ c' hQ' => ?_)
  rw [onTree_bind]
  refine wp_listFilesRecursive (hQ c' hQ') ?_
  split <;> exact hQ'

end Cleaning

def SparesCache (L : Listing) (config : CleanupConfig) : Prop :=
  ∀ card fates, Tidy card → ∀ path, Within (canonical config.cacheDir) (canonical path) →
    ((world L).exec (onTree (cleanStaging config)) fates card).state.lookup (canonical path) =
      card.lookup (canonical path)

section Spared

variable {config : CleanupConfig} {L : Listing}

lemma sparesCache_of_refused (h : config.Refused) : SparesCache L config := by
  intro card fates _ path _
  obtain ⟨report, hreport⟩ := cleanStaging_of_refused h
  rw [hreport, onTree, World.exec_done]

lemma sparesCache_of_apart (hrefused : ¬config.Refused)
    (hapart : ¬Overlap (canonical config.stagingDir) (canonical config.cacheDir)) : SparesCache L config := by
  intro card fates htidy path hpath
  let I : Card → Prop := fun c => Tidy c ∧
    ∀ p, Within (canonical config.cacheDir) p → c.lookup p = card.lookup p
  have herase : ∀ c relative, relative ≠ [] → I c →
      I (c.erase (canonical config.stagingDir ++ ascii "/" ++ relative)) := by
    rintro c relative - ⟨hc, hkept⟩
    refine ⟨fun p hp => hc p ?_, fun p hp => ?_⟩
    · rw [Card.has, Card.lookup_erase_eq] at hp
      split at hp
      · exact absurd hp Bool.false_ne_true
      · exact hp
    · rw [Card.lookup_erase_eq, if_neg ?_, hkept p hp]
      rintro rfl
      exact hapart (overlap_of_within (List.prefix_append _ relative) hp)
  have hI : I card := ⟨htidy, fun _ _ => rfl⟩
  have hkept : I ((world L).exec (onTree (cleanStaging config)) fates card).state := by
    refine World.exec_invariant (wp_onTree_cleanStaging hrefused hI (fun _ h => h) (wp_onTree_removeTree htidy hI ?_))
    exact World.wp_post (wp_removeTree hI (fun _ h => h) herase) (fun _ _ h => h.1)
  exact hkept.2 _ hpath

lemma not_sparesCache_of_shared (hrefused : ¬config.Refused) {path relative : Bytes} (hcanonical : canonical path = path)
    (hstaged : path = canonical config.stagingDir ++ ascii "/" ++ relative) (hne : relative ≠ [])
    (hcached : Within (canonical config.cacheDir) path) : ¬SparesCache L config := by
  intro hspares
  let card : Card := (∅ : Card).insert path []
  have htidy : Tidy card := by
    intro p hp
    rw [Card.has, Card.lookup_insert_eq] at hp
    split at hp
    · next heq => rw [heq, hcanonical]
    · exact absurd hp Bool.false_ne_true
  have hgone : (world L).wp (fun ev => ev.fate = .ok) (fun _ => True) (onTree (cleanStaging config))
      (fun _ c => c.lookup path = none) card := by
    refine wp_onTree_cleanStaging hrefused trivial (fun _ _ => trivial) (wp_onTree_removeTree htidy trivial ?_)
    refine World.wp_post (wp_removeTree (I := fun _ => True) trivial (fun _ h => h) (fun _ _ _ h => h)) ?_
    rintro _ c ⟨-, hremoved⟩
    rw [hstaged]
    exact hremoved relative hne PortFate.noConfusion
  have hasks : (onTree (cleanStaging config)).Asks (· ≠ .abort) :=
    asks_onTree (asks_cleanStaging PortOp.noConfusion (fun _ => PortOp.noConfusion))
  obtain ⟨report, c, hrun, hnone⟩ := World.run_of_wp hgone hasks (fun e c he => step_isSome L e c he) (fun _ _ => rfl)
  obtain ⟨n, -, hstate⟩ := World.exec_of_run _ hrun
  have hkept := hspares card (List.replicate n .ok) htidy path (hcanonical.symm ▸ hcached)
  rw [hcanonical, hstate, hnone, Card.lookup_insert_eq, if_pos rfl] at hkept
  exact absurd hkept (by simp)

lemma not_sparesCache_of_overlap (hrefused : ¬config.Refused)
    (h : Overlap (canonical config.stagingDir) (canonical config.cacheDir)) : ¬SparesCache L config := by
  have hname : IsName (ascii "x") := ⟨by decide, by decide, by decide, by decide⟩
  have hlast : ∀ {directory other relative : Bytes}, directory ++ ascii "/" ++ ascii "x" = other ++ ascii "/" ++ relative →
      relative ≠ [] := by
    rintro directory other relative heq rfl
    rw [List.append_nil] at heq
    exact absurd (List.append_inj_right' heq rfl) (by decide)
  rcases h with hwithin | hwithin
  · obtain ⟨relative, hrelative⟩ : canonical config.stagingDir ++ ascii "/" <+:
        canonical config.cacheDir ++ ascii "/" ++ ascii "x" := hwithin.child
    exact not_sparesCache_of_shared hrefused (canonical_child _ hname) hrelative.symm (hlast hrelative.symm)
      (.inr (List.prefix_append _ _))
  · exact not_sparesCache_of_shared hrefused (canonical_child _ hname) rfl (by decide) (.inr hwithin.child)

end Spared

theorem cleaning_spares_the_cache_iff (L : Listing) (config : CleanupConfig) :
    SparesCache L config ↔
      config.Refused ∨ ¬Overlap (canonical config.stagingDir) (canonical config.cacheDir) := by
  by_cases hrefused : config.Refused
  · exact iff_of_true (sparesCache_of_refused hrefused) (.inl hrefused)
  · rw [or_iff_right hrefused]
    exact ⟨fun hspares hoverlap => not_sparesCache_of_overlap hrefused hoverlap hspares, sparesCache_of_apart hrefused⟩

theorem a_slash_hides_the_cache :
    let config : CleanupConfig := { stagingDir := ascii "/a/", cacheDir := ascii "/a" }
    let card : Card := (∅ : Card).insert (ascii "/a/x") []
    Within (canonical config.cacheDir) (ascii "/a/x") ∧
      ((world Listing.stored).exec (onTree (cleanStaging config)) (List.replicate 9 .ok) card).state.lookup
        (ascii "/a/x") = none := by
  refine ⟨.inr (by decide), ?_⟩
  decide +kernel

end NsxManager.Maintenance
