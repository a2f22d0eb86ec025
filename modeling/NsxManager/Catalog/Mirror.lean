import Mathlib.Algebra.Group.Nat.Even
import NsxManager.Catalog.Service
import NsxManager.SelfUpdate.Conditional

/-! The toggle that asks for the mirror first, pressed any number of times. -/

namespace NsxManager.Catalog

open NsxManager.Core Lib Infra SelfUpdate

def CatalogConfig.setPreferMirror (config : CatalogConfig) (prefer : Bool) : CatalogConfig :=
  if prefer && !config.mirrorUrl.isEmpty && config.catalogUrl != config.mirrorUrl then
    { config with catalogUrl := config.mirrorUrl, mirrorUrl := config.catalogUrl }
  else config

def hostsTried {α : Type} (program : ServiceProgram α) : List Bytes :=
  let log := (Service.world.exec program [.refused .timeout, .refused .timeout] { card := ∅ }).log
  log.filterMap (fun event => match event.asked with | .fetch url _ => some url | _ => none)

structure Hosts where
  first : Bytes
  fallback : Bytes
  deriving DecidableEq

namespace Hosts

variable (hosts : Hosts)

def tried : List Bytes := hosts.first :: if hosts.fallback.isEmpty then [] else [hosts.fallback]

def swapped : Hosts := ⟨hosts.fallback, hosts.first⟩

def preferred (prefer : Bool) : Hosts := if prefer && !hosts.fallback.isEmpty then hosts.swapped else hosts

def press (prefer : Bool) : Hosts :=
  if prefer && !hosts.fallback.isEmpty && hosts.first != hosts.fallback then hosts.swapped else hosts

def Turned (presses : List Bool) : Prop :=
  if hosts.first = [] then true ∈ presses else Odd (presses.count true)

instance (presses : List Bool) : Decidable (hosts.Turned presses) := by
  unfold Turned
  infer_instance

lemma tried_inj {other : Hosts} : hosts.tried = other.tried ↔ hosts = other := by
  refine ⟨fun h => ?_, congrArg tried⟩
  obtain ⟨first, fallback⟩ := hosts
  obtain ⟨first', fallback'⟩ := other
  obtain ⟨rfl, hrest⟩ := List.cons.inj h
  cases fallback <;> cases fallback' <;> simp_all

variable {hosts}

lemma turned_append (presses : List Bool) (last : Bool) (hfirst : hosts.first ≠ []) :
    hosts.Turned (presses ++ [last]) ↔ (last = true ↔ ¬hosts.Turned presses) := by
  rw [Turned, Turned, if_neg hfirst, if_neg hfirst, List.count_append]
  cases last
  · simp
  · simp [Nat.odd_add_one]

lemma turned_append_of_no_first (presses : List Bool) (last : Bool) (hfirst : hosts.first = []) :
    hosts.Turned (presses ++ [last]) ↔ last = true ∨ hosts.Turned presses := by
  rw [Turned, Turned, if_pos hfirst, if_pos hfirst, List.mem_append, List.mem_singleton, or_comm, eq_comm]

lemma foldl_press (hfallback : hosts.fallback ≠ []) (hne : hosts.first ≠ hosts.fallback) (presses : List Bool) :
    presses.foldl press hosts = if hosts.Turned presses then hosts.swapped else hosts := by
  induction presses using List.reverseRecOn with
  | nil => simp [Turned]
  | append_singleton presses last ih =>
    rw [List.foldl_append, List.foldl_cons, List.foldl_nil, ih]
    by_cases hfirst : hosts.first = []
    · simp only [turned_append_of_no_first presses last hfirst]
      by_cases hturned : hosts.Turned presses
      · simp [hturned, press, swapped, hfirst]
      · cases last <;> simp [hturned, press, hfallback, hne]
    · simp only [turned_append presses last hfirst]
      by_cases hturned : hosts.Turned presses
      · cases last <;> simp [hturned, press, swapped, hfirst, hne.symm]
      · cases last <;> simp [hturned, press, hfallback, hne]

lemma foldl_press_of_one (h : hosts.fallback = [] ∨ hosts.fallback = hosts.first) (presses : List Bool) :
    presses.foldl press hosts = hosts := by
  have hpress : ∀ prefer, hosts.press prefer = hosts := by
    intro prefer
    rcases h with hnone | hsame
    · simp [press, hnone]
    · simp [press, hsame]
  induction presses with
  | nil => rfl
  | cons prefer presses ih => rw [List.foldl_cons, hpress, ih]

lemma preferred_of_one (h : hosts.fallback = [] ∨ hosts.fallback = hosts.first) (prefer : Bool) :
    hosts.preferred prefer = hosts := by
  rcases h with hnone | hsame
  · simp [preferred, hnone]
  · obtain ⟨first, fallback⟩ := hosts
    cases hsame
    simp [preferred, swapped]

def Settled (hosts : Hosts) (presses : List Bool) (last : Bool) : Prop :=
  (hosts.fallback = [] ∨ hosts.fallback = hosts.first) ∨ (last = true ↔ hosts.Turned (presses ++ [last]))

lemma foldl_press_eq_preferred_iff (presses : List Bool) (last : Bool) :
    (presses ++ [last]).foldl press hosts = hosts.preferred last ↔ hosts.Settled presses last := by
  rw [Settled]
  by_cases hone : hosts.fallback = [] ∨ hosts.fallback = hosts.first
  · rw [foldl_press_of_one hone, preferred_of_one hone]
    exact iff_of_true rfl (.inl hone)
  obtain ⟨hfallback, hne⟩ := not_or.mp hone
  have hswapped : hosts.swapped ≠ hosts := fun h => hne (congrArg first h)
  rw [or_iff_right hone, foldl_press hfallback (Ne.symm hne)]
  by_cases hturned : hosts.Turned (presses ++ [last])
  · cases last <;> simp [hturned, preferred, hfallback, hswapped]
  · cases last <;> simp [hturned, preferred, hfallback, hswapped.symm]

end Hosts

section Services

variable (config : CatalogConfig) (update : SelfUpdateConfig)

def CatalogConfig.hosts : Hosts := ⟨config.catalogUrl, config.mirrorUrl⟩

lemma CatalogConfig.hosts_setPreferMirror (prefer : Bool) :
    (config.setPreferMirror prefer).hosts = config.hosts.press prefer := by
  rw [setPreferMirror, Hosts.press]
  split <;> simp_all [hosts, Hosts.swapped]

lemma CatalogConfig.hosts_foldl (presses : List Bool) :
    (presses.foldl setPreferMirror config).hosts = presses.foldl Hosts.press config.hosts := by
  induction presses generalizing config with
  | nil => rfl
  | cons prefer presses ih => rw [List.foldl_cons, ih, hosts_setPreferMirror, List.foldl_cons]

lemma hostsTried_request (tag : Bytes) : hostsTried (request config tag) = config.hosts.tried := by
  rw [hostsTried, request, Hosts.tried, CatalogConfig.hosts]
  cases config.mirrorUrl.isEmpty with
  | true => rfl
  | false => rfl

end Services

end NsxManager.Catalog

namespace NsxManager.SelfUpdate

open NsxManager.Core Lib Infra Catalog

section Services

variable (config : SelfUpdateConfig)

def SelfUpdateConfig.hosts : Hosts := ⟨config.manifestUrl, config.mirrorUrl⟩

lemma SelfUpdateConfig.hosts_setPreferMirror (prefer : Bool) :
    (config.setPreferMirror prefer).hosts = config.hosts.press prefer := by
  rw [setPreferMirror, Hosts.press]
  split <;> simp_all [hosts, Hosts.swapped]

lemma SelfUpdateConfig.hosts_foldl (presses : List Bool) :
    (presses.foldl setPreferMirror config).hosts = presses.foldl Hosts.press config.hosts := by
  induction presses generalizing config with
  | nil => rfl
  | cons prefer presses ih => rw [List.foldl_cons, ih, hosts_setPreferMirror, List.foldl_cons]

lemma hostsTried_request (tag : Bytes) : hostsTried (request config tag) = config.hosts.tried := by
  rw [hostsTried, request, Hosts.tried, SelfUpdateConfig.hosts]
  cases config.mirrorUrl.isEmpty with
  | true => rfl
  | false => rfl

end Services

end NsxManager.SelfUpdate

namespace NsxManager.Catalog

open NsxManager.Core Lib Infra SelfUpdate

theorem mirror_preference_is_a_setting_iff (config : CatalogConfig) (update : SelfUpdateConfig) (tag : Bytes)
    (presses : List Bool) (last : Bool) :
    (hostsTried (Catalog.request ((presses ++ [last]).foldl CatalogConfig.setPreferMirror config) tag) =
        (config.hosts.preferred last).tried ↔ config.hosts.Settled presses last) ∧
      (hostsTried (SelfUpdate.request ((presses ++ [last]).foldl SelfUpdateConfig.setPreferMirror update) tag) =
        (update.hosts.preferred last).tried ↔ update.hosts.Settled presses last) := by
  constructor
  · rw [hostsTried_request, CatalogConfig.hosts_foldl, Hosts.tried_inj, Hosts.foldl_press_eq_preferred_iff]
  · rw [SelfUpdate.hostsTried_request, SelfUpdateConfig.hosts_foldl, Hosts.tried_inj,
      Hosts.foldl_press_eq_preferred_iff]

theorem mirror_stays_first_when_turned_off :
    let config : CatalogConfig := { catalogUrl := ascii "https://a", mirrorUrl := ascii "https://b" }
    hostsTried (Catalog.request ([true, false].foldl CatalogConfig.setPreferMirror config) []) =
        [ascii "https://b", ascii "https://a"] ∧
      (config.hosts.preferred false).tried = [ascii "https://a", ascii "https://b"] := by
  decide

end NsxManager.Catalog
