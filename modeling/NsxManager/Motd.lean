import NsxManager.Core.JsonCodec
import NsxManager.Core.SemVer

/-! The bulletin of the update manifest, as it is cached from one manifest to the next. -/

namespace NsxManager.Motd

open NsxManager.Core

structure MessageOfTheDay where
  id : Bytes := []
  severity : Bytes := ascii "info"
  title : Bytes := []
  message : Bytes := []
  minAppVersion : Bytes := []
  deriving DecidableEq

structure MotdService where
  appVersion : Bytes := []
  cachedBulletin : Option MessageOfTheDay := none
  dismissedIds : Finset Bytes := ∅
  deriving DecidableEq

def optionalString (members : Members) (key : Bytes) : Option Bytes :=
  match members.lookup key with
  | some (.string s) => some s
  | _ => none

/-- A member that is converted without a look at its type. -/
def stringOf (members : Members) (key : Bytes) : Parse Empty Bytes := do
  (← members.index key).getString

def belowMinimum (appVersion minAppVersion : Bytes) : Bool :=
  !appVersion.isEmpty &&
    match parseSemVer appVersion, parseSemVer minAppVersion with
    | .ok app, .ok least => (SemVer.compare app least).isLT
    | _, _ => false

namespace MotdService

def readMotd (service : MotdService) (motd : Members) : Parse Empty (Bool × MotdService) :=
  if !motd.has (ascii "id") || !motd.has (ascii "title") || !motd.has (ascii "message") then .ok (false, service)
  else do
    let id ← stringOf motd (ascii "id")
    let title ← stringOf motd (ascii "title")
    let message ← stringOf motd (ascii "message")
    let severity := (optionalString motd (ascii "severity")).getD (ascii "info")
    match optionalString motd (ascii "min_app_version") with
    | some minAppVersion =>
      if belowMinimum service.appVersion minAppVersion then return (false, service)
      return (true, { service with cachedBulletin := some { id, severity, title, message, minAppVersion } })
    | none => return (true, { service with cachedBulletin := some { id, severity, title, message } })

def parseAndCache (J : JsonLibrary) (service : MotdService) (jsonManifest : Bytes) : Parse Empty (Bool × MotdService) :=
  match J.parse jsonManifest with
  | some (.object doc) =>
    match doc.lookup (ascii "motd") with
    | some (.object motd) => service.readMotd motd
    | _ => .ok (false, { service with cachedBulletin := none })
  | _ => .ok (false, service)

def isDismissed (service : MotdService) (bulletinId : Bytes) : Bool := bulletinId ∈ service.dismissedIds

def currentBulletin (service : MotdService) : Option MessageOfTheDay :=
  service.cachedBulletin.filter (fun bulletin => !service.isDismissed bulletin.id)

def dismiss (service : MotdService) (bulletinId : Bytes) : MotdService :=
  { service with dismissedIds := insert bulletinId service.dismissedIds }

def resetDismissals (service : MotdService) : MotdService := { service with dismissedIds := ∅ }

end MotdService

inductive Call where
  | parseAndCache (jsonManifest : Bytes)
  | dismiss (bulletinId : Bytes)
  | resetDismissals

/-- One call; a wrong conversion ends the sequence it stands in. -/
def Call.step (J : JsonLibrary) (service : MotdService) : Call → Parse Empty MotdService
  | .parseAndCache jsonManifest => do
    let (_, service) ← service.parseAndCache J jsonManifest
    return service
  | .dismiss bulletinId => .ok (service.dismiss bulletinId)
  | .resetDismissals => .ok service.resetDismissals

def session (J : JsonLibrary) (appVersion : Bytes) (calls : List Call) : Parse Empty MotdService :=
  calls.foldlM (Call.step J) { appVersion }

section Manifest

variable (J : JsonLibrary) (appVersion : Bytes)

def required : List Bytes := [ascii "id", ascii "title", ascii "message"]

def Suppressed (motd : Members) : Prop :=
  ∃ minimum app least, motd.lookup (ascii "min_app_version") = some (.string minimum) ∧
    parseSemVer appVersion = .ok app ∧ parseSemVer minimum = .ok least ∧ SemVer.compare app least = .lt

def Carries (doc : Members) (id title message : Bytes) : Prop :=
  ∃ motd, doc.lookup (ascii "motd") = some (.object motd) ∧ motd.lookup (ascii "id") = some (.string id) ∧
    motd.lookup (ascii "title") = some (.string title) ∧ motd.lookup (ascii "message") = some (.string message) ∧
    ¬Suppressed appVersion motd

def Texts (motd : Members) : Prop :=
  (∀ key ∈ required, motd.has key = true) → ∀ key ∈ required, ∃ s, motd.lookup key = some (.string s)

def HasMotd (text : Bytes) (motd : Members) : Prop :=
  ∃ doc, J.parse text = some (.object doc) ∧ doc.lookup (ascii "motd") = some (.object motd)

def Typed (text : Bytes) : Prop := ∀ motd, HasMotd J text motd → Texts motd

def Withholds (text : Bytes) : Prop :=
  ∃ motd, HasMotd J text motd ∧ ((∃ key ∈ required, motd.has key = false) ∨ Suppressed appVersion motd)

def Brings (call : Call) (id : Bytes) : Prop :=
  ∃ text doc title message, call = .parseAndCache text ∧ J.parse text = some (.object doc) ∧
    Carries appVersion doc id title message

def Clears (call : Call) : Prop :=
  ∃ text doc, call = .parseAndCache text ∧ J.parse text = some (.object doc) ∧
    ∀ motd, doc.lookup (ascii "motd") ≠ some (.object motd)

def Speaks (call : Call) : Prop := Clears J call ∨ ∃ id, Brings J appVersion call id

def Standing (calls : List Call) (id : Bytes) : Prop :=
  ∃ earlier call later, calls = earlier ++ call :: later ∧ Brings J appVersion call id ∧
    ∀ call' ∈ later, ¬Speaks J appVersion call'

def Call.dismisses (ids : Finset Bytes) : Call → Finset Bytes
  | .parseAndCache _ => ids
  | .dismiss bulletinId => insert bulletinId ids
  | .resetDismissals => ∅

def dismissed (calls : List Call) : Finset Bytes := calls.foldl Call.dismisses ∅

def Follows (calls : List Call) : Prop :=
  session J appVersion calls ≠ .error .fault ∧
    ∀ before text after doc service, calls = before ++ .parseAndCache text :: after →
      J.parse text = some (.object doc) →
      session J appVersion (before ++ [.parseAndCache text]) = .ok service →
      ∀ bulletin ∈ service.currentBulletin,
        Carries appVersion doc bulletin.id bulletin.title bulletin.message ∧ bulletin.id ∉ dismissed before

end Manifest

section Step

variable {J : JsonLibrary} {appVersion text : Bytes} {service : MotdService} {motd : Members}

lemma belowMinimum_eq_true {minimum : Bytes} : belowMinimum appVersion minimum = true ↔
    ∃ app least, parseSemVer appVersion = .ok app ∧ parseSemVer minimum = .ok least ∧
      SemVer.compare app least = .lt := by
  have hnonempty : ∀ {app}, parseSemVer appVersion = .ok app → appVersion.isEmpty = false := by
    intro app happ
    cases appVersion with
    | nil => cases happ
    | cons b rest => rfl
  rw [belowMinimum, Bool.and_eq_true]
  cases happ : parseSemVer appVersion with
  | error e => simp
  | ok app =>
    cases hleast : parseSemVer minimum with
    | error e => simp
    | ok least => simp [hnonempty happ, Ordering.isLT_iff_eq_lt]

lemma optionalString_eq_some {key s : Bytes} : optionalString motd key = some s ↔ motd.lookup key = some (.string s) := by
  rw [optionalString]
  cases motd.lookup key with
  | none => simp
  | some v => cases v <;> simp

lemma stringOf_of_lookup {key s : Bytes} (h : motd.lookup key = some (.string s)) : stringOf motd key = .ok s := by
  simp [stringOf, Members.index, h, Json.getString]

lemma stringOf_cases (motd : Members) (key : Bytes) :
    (∃ s, motd.lookup key = some (.string s)) ∨ stringOf motd key = .error .fault := by
  rw [stringOf, Members.index]
  cases motd.lookup key with
  | none => simp
  | some v => cases v <;> simp [Json.getString]

lemma brings_iff {doc : Members} {id : Bytes} (hdoc : J.parse text = some (.object doc)) :
    Brings J appVersion (.parseAndCache text) id ↔ ∃ title message, Carries appVersion doc id title message := by
  simp [Brings, hdoc]

lemma clears_iff {doc : Members} (hdoc : J.parse text = some (.object doc)) :
    Clears J (.parseAndCache text) ↔ ∀ motd, doc.lookup (ascii "motd") ≠ some (.object motd) := by
  simp [Clears, hdoc]

lemma not_carries_of_withheld {doc : Members} {id title message : Bytes}
    (hmotd : doc.lookup (ascii "motd") = some (.object motd))
    (h : (∃ key ∈ required, motd.has key = false) ∨ Suppressed appVersion motd) :
    ¬Carries appVersion doc id title message := by
  rintro ⟨motd', hmotd', hid, htitle, hmessage, hfree⟩
  obtain rfl : motd = motd' := by simpa [hmotd] using hmotd'
  rcases h with ⟨key, hkey, habsent⟩ | hsuppressed
  · simp only [required, List.mem_cons, List.not_mem_nil, or_false] at hkey
    rcases hkey with rfl | rfl | rfl <;> simp_all [Members.has]
  · exact hfree hsuppressed

lemma carries_unique {doc : Members} {id title message id' title' message' : Bytes}
    (h : Carries appVersion doc id title message) (h' : Carries appVersion doc id' title' message') : id = id' := by
  obtain ⟨motd, hmotd, hid, _⟩ := h
  obtain ⟨motd', hmotd', hid', _⟩ := h'
  rw [hmotd] at hmotd'
  obtain rfl : motd = motd' := by simpa using hmotd'
  rw [hid] at hid'
  simpa using hid'

lemma not_speaks_of_withholds (h : Withholds J appVersion text) : ¬Speaks J appVersion (.parseAndCache text) := by
  obtain ⟨motd, ⟨doc, hdoc, hmotd⟩, hwithheld⟩ := h
  rintro (hclears | ⟨id, hbrings⟩)
  · exact (clears_iff hdoc).mp hclears motd hmotd
  · obtain ⟨title, message, hcarries⟩ := (brings_iff hdoc).mp hbrings
    exact not_carries_of_withheld hmotd hwithheld hcarries

inductive Caches (J : JsonLibrary) (appVersion text : Bytes) (old : Option MessageOfTheDay) :
    Option MessageOfTheDay → Prop
  | offered {doc : Members} {bulletin : MessageOfTheDay} (hdoc : J.parse text = some (.object doc))
      (hcarries : Carries appVersion doc bulletin.id bulletin.title bulletin.message) :
      Caches J appVersion text old (some bulletin)
  | cleared {doc : Members} (hdoc : J.parse text = some (.object doc))
      (hnone : ∀ motd, doc.lookup (ascii "motd") ≠ some (.object motd)) : Caches J appVersion text old none
  | withheld (h : Withholds J appVersion text) : Caches J appVersion text old old
  | unread (h : ∀ doc, J.parse text ≠ some (.object doc)) : Caches J appVersion text old old

lemma required_iff {P : Bytes → Prop} :
    (∀ key ∈ required, P key) ↔ P (ascii "id") ∧ P (ascii "title") ∧ P (ascii "message") := by
  simp [required]

lemma readMotd_of_strings {id title message : Bytes} (hid : motd.lookup (ascii "id") = some (.string id))
    (htitle : motd.lookup (ascii "title") = some (.string title))
    (hmessage : motd.lookup (ascii "message") = some (.string message)) :
    (Suppressed service.appVersion motd ∧ service.readMotd motd = .ok (false, service)) ∨
      ¬Suppressed service.appVersion motd ∧ ∃ bulletin : MessageOfTheDay, bulletin.id = id ∧ bulletin.title = title ∧
        bulletin.message = message ∧
        service.readMotd motd = .ok (true, { service with cachedBulletin := some bulletin }) := by
  have hall : (!motd.has (ascii "id") || !motd.has (ascii "title") || !motd.has (ascii "message")) = false := by
    simp [Members.has, hid, htitle, hmessage]
  rw [MotdService.readMotd, hall, if_neg Bool.false_ne_true, stringOf_of_lookup hid, stringOf_of_lookup htitle,
    stringOf_of_lookup hmessage]
  simp only [Parse.ok_bind]
  cases hminimum : optionalString motd (ascii "min_app_version") with
  | none =>
    refine .inr ⟨?_, _, rfl, rfl, rfl, rfl⟩
    rintro ⟨minimum, _, _, hlookup, _⟩
    rw [optionalString_eq_some.mpr hlookup] at hminimum
    cases hminimum
  | some minimum =>
    have hsuppressed : Suppressed service.appVersion motd ↔ belowMinimum service.appVersion minimum = true := by
      rw [belowMinimum_eq_true, Suppressed, optionalString_eq_some.mp hminimum]
      simp
    by_cases hbelow : belowMinimum service.appVersion minimum = true
    · exact .inl ⟨hsuppressed.mpr hbelow, if_pos hbelow⟩
    · exact .inr ⟨fun h => hbelow (hsuppressed.mp h), _, rfl, rfl, rfl, if_neg hbelow⟩

lemma readMotd_of_not_string (hall : (!motd.has (ascii "id") || !motd.has (ascii "title") ||
      !motd.has (ascii "message")) = false)
    (h : ¬∀ key ∈ required, ∃ s, motd.lookup key = some (.string s)) : service.readMotd motd = .error .fault := by
  rw [MotdService.readMotd, hall, if_neg Bool.false_ne_true]
  obtain ⟨id, hid⟩ | hfault := stringOf_cases motd (ascii "id")
  · obtain ⟨title, htitle⟩ | hfault := stringOf_cases motd (ascii "title")
    · obtain ⟨message, hmessage⟩ | hfault := stringOf_cases motd (ascii "message")
      · exact absurd (required_iff.mpr ⟨⟨id, hid⟩, ⟨title, htitle⟩, ⟨message, hmessage⟩⟩) h
      · rw [stringOf_of_lookup hid, stringOf_of_lookup htitle, hfault]
        rfl
    · rw [stringOf_of_lookup hid, hfault]
      rfl
  · rw [hfault]
    rfl

lemma readMotd_cases (service : MotdService) (motd : Members) :
    (¬Texts motd ∧ service.readMotd motd = .error .fault) ∨
      Texts motd ∧
        ((((∃ key ∈ required, motd.has key = false) ∨ Suppressed service.appVersion motd) ∧
            service.readMotd motd = .ok (false, service)) ∨
          ∃ bulletin : MessageOfTheDay, motd.lookup (ascii "id") = some (.string bulletin.id) ∧
            motd.lookup (ascii "title") = some (.string bulletin.title) ∧
            motd.lookup (ascii "message") = some (.string bulletin.message) ∧ ¬Suppressed service.appVersion motd ∧
            service.readMotd motd = .ok (true, { service with cachedBulletin := some bulletin })) := by
  have hhas : (!motd.has (ascii "id") || !motd.has (ascii "title") || !motd.has (ascii "message")) = false ↔
      ∀ key ∈ required, motd.has key = true := by
    rw [required_iff]
    simp [and_assoc]
  by_cases hall : ∀ key ∈ required, motd.has key = true
  · by_cases hstrings : ∀ key ∈ required, ∃ s, motd.lookup key = some (.string s)
    · obtain ⟨⟨id, hid⟩, ⟨title, htitle⟩, ⟨message, hmessage⟩⟩ := required_iff.mp hstrings
      refine .inr ⟨fun _ => hstrings, ?_⟩
      obtain ⟨hsuppressed, hkept⟩ | ⟨hfree, bulletin, rfl, rfl, rfl, hcached⟩ :=
        (readMotd_of_strings hid htitle hmessage : (Suppressed service.appVersion motd ∧ _) ∨ _)
      · exact .inl ⟨.inr hsuppressed, hkept⟩
      · exact .inr ⟨bulletin, hid, htitle, hmessage, hfree, hcached⟩
    · exact .inl ⟨fun h => hstrings (h hall), readMotd_of_not_string (hhas.mpr hall) hstrings⟩
  · refine .inr ⟨fun h => absurd h hall, .inl ⟨.inl (by simpa using hall), ?_⟩⟩
    rw [MotdService.readMotd, if_pos (Bool.not_eq_false _ ▸ mt hhas.mp hall)]

lemma hasMotd_iff {doc : Members} (hdoc : J.parse text = some (.object doc)) :
    HasMotd J text motd ↔ doc.lookup (ascii "motd") = some (.object motd) := by
  simp [HasMotd, hdoc]

lemma parseAndCache_cases (J : JsonLibrary) (service : MotdService) (text : Bytes) :
    (¬Typed J text ∧ service.parseAndCache J text = .error .fault) ∨
      Typed J text ∧ ∃ done cached, Caches J service.appVersion text service.cachedBulletin cached ∧
        service.parseAndCache J text = .ok (done, { service with cachedBulletin := cached }) := by
  by_cases hdoc : ∃ doc, J.parse text = some (.object doc)
  · obtain ⟨doc, hdoc⟩ := hdoc
    by_cases hmotd : ∃ motd, doc.lookup (ascii "motd") = some (.object motd)
    · obtain ⟨motd, hmotd⟩ := hmotd
      have hread : service.parseAndCache J text = service.readMotd motd := by
        simp only [MotdService.parseAndCache, hdoc, hmotd]
      have htyped : Typed J text ↔ Texts motd := by
        simp only [Typed, hasMotd_iff hdoc, hmotd, Option.some.injEq, Json.object.injEq, forall_eq']
      rw [hread, htyped]
      obtain hfault | ⟨htexts, ⟨hwithheld, hkept⟩ | ⟨bulletin, hid, htitle, hmessage, hfree, hcached⟩⟩ :=
        readMotd_cases service motd
      · exact .inl hfault
      · exact .inr ⟨htexts, false, _, .withheld ⟨motd, ⟨doc, hdoc, hmotd⟩, hwithheld⟩, hkept⟩
      · exact .inr ⟨htexts, true, _, .offered hdoc ⟨motd, hmotd, hid, htitle, hmessage, hfree⟩, hcached⟩
    · have hnone : ∀ motd, doc.lookup (ascii "motd") ≠ some (.object motd) := fun motd h => hmotd ⟨motd, h⟩
      refine .inr ⟨fun motd h => absurd ((hasMotd_iff hdoc).mp h) (hnone motd), false, none, .cleared hdoc hnone, ?_⟩
      simp only [MotdService.parseAndCache, hdoc]
  · have hunread : ∀ doc, J.parse text ≠ some (.object doc) := fun doc h => hdoc ⟨doc, h⟩
    refine .inr ⟨fun motd ⟨doc, h, _⟩ => absurd h (hunread doc), false, _, .unread hunread, ?_⟩
    rw [MotdService.parseAndCache]
    split
    · next doc h => exact absurd h (hunread doc)
    · rfl

end Step

section Session

variable {J : JsonLibrary} {appVersion : Bytes} {calls : List Call} {call : Call} {service : MotdService}

lemma session_concat : session J appVersion (calls ++ [call]) =
    session J appVersion calls >>= fun service => call.step J service := by
  simp only [session, List.foldlM_append, List.foldlM_cons, List.foldlM_nil, bind_pure]

lemma dismissed_concat : dismissed (calls ++ [call]) = call.dismisses (dismissed calls) := by
  simp [dismissed]

lemma standing_concat {id : Bytes} : Standing J appVersion (calls ++ [call]) id ↔
    Brings J appVersion call id ∨ ¬Speaks J appVersion call ∧ Standing J appVersion calls id := by
  constructor
  · rintro ⟨earlier, source, later, hcalls, hbrings, hsilent⟩
    rcases List.eq_nil_or_concat later with rfl | ⟨later, last, rfl⟩
    · obtain ⟨rfl, hlast⟩ := List.append_inj' hcalls rfl
      obtain rfl : call = source := by simpa using hlast
      exact .inl hbrings
    · rw [List.concat_eq_append] at hcalls hsilent
      rw [← List.cons_append, ← List.append_assoc] at hcalls
      obtain ⟨rfl, hlast⟩ := List.append_inj' hcalls rfl
      obtain rfl : call = last := by simpa using hlast
      exact .inr ⟨hsilent _ (by simp), earlier, source, later, rfl, hbrings,
        fun c hc => hsilent c (List.mem_append_left _ hc)⟩
  · rintro (hbrings | ⟨hquiet, earlier, source, later, rfl, hbrings, hsilent⟩)
    · exact ⟨calls, call, [], rfl, hbrings, fun _ h => absurd h List.not_mem_nil⟩
    · refine ⟨earlier, source, later ++ [call], by simp, hbrings, ?_⟩
      simpa [or_imp, forall_and] using ⟨hsilent, hquiet⟩

lemma standing_of_quiet {id : Bytes} (hquiet : ¬Speaks J appVersion call) :
    Standing J appVersion (calls ++ [call]) id ↔ Standing J appVersion calls id := by
  rw [standing_concat]
  refine ⟨?_, fun hstanding => .inr ⟨hquiet, hstanding⟩⟩
  rintro (hbrings | ⟨_, hstanding⟩)
  · exact absurd (.inr ⟨id, hbrings⟩) hquiet
  · exact hstanding

lemma standing_of_speaks {id : Bytes} (hspeaks : Speaks J appVersion call) :
    Standing J appVersion (calls ++ [call]) id ↔ Brings J appVersion call id := by
  rw [standing_concat]
  exact or_iff_left (fun h => h.1 hspeaks)

lemma caches_of_step {text : Bytes} {service' : MotdService} (h : (Call.parseAndCache text).step J service = .ok service') :
    ∃ cached, Caches J service.appVersion text service.cachedBulletin cached ∧
      service' = { service with cachedBulletin := cached } := by
  obtain ⟨_, hfault⟩ | ⟨_, done, cached, hcaches, hparsed⟩ := parseAndCache_cases J service text
  · simp [Call.step, hfault] at h
  · refine ⟨cached, hcaches, ?_⟩
    simpa [Call.step, hparsed] using h.symm

structure Remembers (J : JsonLibrary) (appVersion : Bytes) (calls : List Call) (service : MotdService) : Prop where
  version : service.appVersion = appVersion
  ids : service.dismissedIds = dismissed calls
  standing : ∀ id, Standing J appVersion calls id ↔ ∃ bulletin ∈ service.cachedBulletin, bulletin.id = id

lemma standing_of_caches {text id : Bytes} {old cached : Option MessageOfTheDay} (h : Caches J appVersion text old cached)
    (hold : Standing J appVersion calls id ↔ ∃ bulletin ∈ old, bulletin.id = id) :
    Standing J appVersion (calls ++ [.parseAndCache text]) id ↔ ∃ bulletin ∈ cached, bulletin.id = id := by
  cases h with
  | @offered doc bulletin hdoc hcarries =>
    rw [standing_of_speaks (.inr ⟨_, (brings_iff hdoc).mpr ⟨_, _, hcarries⟩⟩), brings_iff hdoc]
    constructor
    · rintro ⟨title, message, hcarries'⟩
      exact ⟨bulletin, rfl, carries_unique hcarries hcarries'⟩
    · rintro ⟨_, hbulletin, rfl⟩
      obtain rfl := Option.some.inj hbulletin
      exact ⟨_, _, hcarries⟩
  | @cleared doc hdoc hnone =>
    rw [standing_of_speaks (.inl ((clears_iff hdoc).mpr hnone)), brings_iff hdoc]
    refine iff_of_false ?_ (by simp)
    rintro ⟨title, message, motd, hmotd, _⟩
    exact hnone motd hmotd
  | withheld h => exact (standing_of_quiet (not_speaks_of_withholds h)).trans hold
  | unread h =>
    refine (standing_of_quiet ?_).trans hold
    simp [Speaks, Clears, Brings, h]

lemma remembers_step {service' : MotdService} (h : Remembers J appVersion calls service)
    (hstep : call.step J service = .ok service') : Remembers J appVersion (calls ++ [call]) service' := by
  cases call with
  | dismiss id =>
    obtain rfl : service.dismiss id = service' := by simpa [Call.step] using hstep
    refine ⟨h.version, ?_, fun id' => (standing_of_quiet (by simp [Speaks, Clears, Brings])).trans (h.standing id')⟩
    rw [dismissed_concat, Call.dismisses, ← h.ids]
    rfl
  | resetDismissals =>
    obtain rfl : service.resetDismissals = service' := by simpa [Call.step] using hstep
    refine ⟨h.version, ?_, fun id' => (standing_of_quiet (by simp [Speaks, Clears, Brings])).trans (h.standing id')⟩
    rw [dismissed_concat]
    rfl
  | parseAndCache text =>
    obtain ⟨cached, hcaches, rfl⟩ := caches_of_step hstep
    rw [h.version] at hcaches
    refine ⟨h.version, ?_, fun id => standing_of_caches hcaches (h.standing id)⟩
    rw [dismissed_concat]
    exact h.ids

lemma remembers_of_session (h : session J appVersion calls = .ok service) : Remembers J appVersion calls service := by
  induction calls using List.reverseRecOn generalizing service with
  | nil =>
    obtain rfl : { appVersion } = service := by simpa [session] using h
    exact ⟨rfl, rfl, fun id => by simp [Standing]⟩
  | append_singleton calls call ih =>
    rw [session_concat, Parse.bind_eq_ok] at h
    obtain ⟨between, hbetween, hstep⟩ := h
    exact remembers_step (ih hbetween) hstep

lemma session_eq_ok_iff : (∃ service, session J appVersion calls = .ok service) ↔
    ∀ text, .parseAndCache text ∈ calls → Typed J text := by
  induction calls using List.reverseRecOn with
  | nil => exact iff_of_true ⟨_, rfl⟩ (by simp)
  | append_singleton calls call ih =>
    have hstep : ∀ service, (∃ service', call.step J service = .ok service') ↔
        ∀ text, call = .parseAndCache text → Typed J text := by
      intro service
      cases call with
      | parseAndCache text =>
        obtain ⟨htyped, hparsed⟩ | ⟨htyped, done, cached, _, hparsed⟩ := parseAndCache_cases J service text
        · simp [Call.step, hparsed, htyped]
        · simp [Call.step, hparsed, htyped]
      | _ => simp [Call.step]
    simp only [session_concat, Parse.bind_eq_ok, List.mem_append, List.mem_singleton, or_imp, forall_and]
    rw [← ih]
    constructor
    · rintro ⟨service', service, hsession, hlast⟩
      exact ⟨⟨service, hsession⟩, fun text htext => (hstep service).mp ⟨service', hlast⟩ text htext.symm⟩
    · rintro ⟨⟨service, hsession⟩, htyped⟩
      obtain ⟨service', hlast⟩ := (hstep service).mpr (fun text htext => htyped text htext.symm)
      exact ⟨service', service, hsession, hlast⟩

lemma session_ne_fault_iff : session J appVersion calls ≠ .error .fault ↔
    ∀ text, .parseAndCache text ∈ calls → Typed J text := by
  rw [← @session_eq_ok_iff J appVersion]
  rcases session J appVersion calls with (⟨⟨⟩⟩ | _) | service <;> simp

lemma mem_currentBulletin {bulletin : MessageOfTheDay} :
    bulletin ∈ service.currentBulletin ↔ bulletin ∈ service.cachedBulletin ∧ bulletin.id ∉ service.dismissedIds := by
  simp [MotdService.currentBulletin, MotdService.isDismissed, Option.filter_eq_some_iff]

end Session

theorem bulletin_follows_the_manifest_iff (J : JsonLibrary) (appVersion : Bytes) (calls : List Call) :
    Follows J appVersion calls ↔
      (∀ text, .parseAndCache text ∈ calls → Typed J text) ∧
        ∀ before text after id, calls = before ++ .parseAndCache text :: after → Withholds J appVersion text →
          Standing J appVersion before id → id ∈ dismissed before := by
  rw [Follows, session_ne_fault_iff]
  refine and_congr_right (fun htyped => ⟨fun hshown => ?_, fun hdismissed => ?_⟩)
  · intro before text after id hcalls hwithholds hstanding
    by_contra hundismissed
    have hbegins : before ++ [.parseAndCache text] <+: calls := ⟨after, by simp [hcalls]⟩
    obtain ⟨service, hservice⟩ := (@session_eq_ok_iff J appVersion _).mpr
      (fun text' h => htyped text' (hbegins.subset h))
    have hremembers := remembers_of_session hservice
    obtain ⟨bulletin, hcached, rfl⟩ := (hremembers.standing id).mp
      ((standing_of_quiet (not_speaks_of_withholds hwithholds)).mpr hstanding)
    have hcurrent : bulletin ∈ service.currentBulletin := by
      rw [mem_currentBulletin, hremembers.ids, dismissed_concat]
      exact ⟨hcached, hundismissed⟩
    obtain ⟨motd, ⟨doc, hdoc, hmotd⟩, hwithheld⟩ := hwithholds
    exact not_carries_of_withheld hmotd hwithheld
      (hshown before text after doc service hcalls hdoc hservice bulletin hcurrent).1
  · intro before text after doc service hcalls hdoc hservice bulletin hcurrent
    rw [session_concat, Parse.bind_eq_ok] at hservice
    obtain ⟨old, hold, hstep⟩ := hservice
    have hremembers := remembers_of_session hold
    obtain ⟨cached, hcaches, rfl⟩ := caches_of_step hstep
    rw [mem_currentBulletin, hremembers.ids] at hcurrent
    rw [hremembers.version] at hcaches
    refine ⟨?_, hcurrent.2⟩
    cases hcaches with
    | @offered doc' bulletin' hdoc' hcarries =>
      obtain rfl : doc' = doc := by simpa [hdoc] using hdoc'.symm
      obtain rfl := Option.some.inj hcurrent.1
      exact hcarries
    | cleared => cases hcurrent.1
    | withheld h =>
      have hstanding : Standing J appVersion before bulletin.id := (hremembers.standing _).mpr ⟨bulletin, hcurrent.1, rfl⟩
      exact absurd (hdismissed before text after bulletin.id hcalls h hstanding) hcurrent.2
    | unread h => exact absurd hdoc (h doc)

namespace Sample

def bulletinId : Json → Option Bytes
  | .object doc =>
    match doc.lookup (ascii "motd") with
    | some (.object motd) => optionalString motd (ascii "id")
    | _ => none
  | _ => none

lemma bulletinId_of_carries {appVersion id title message : Bytes} {doc : Members}
    (h : Carries appVersion doc id title message) : bulletinId (.object doc) = some id := by
  obtain ⟨motd, hmotd, hid, _⟩ := h
  simp only [bulletinId, hmotd]
  exact optionalString_eq_some.mpr hid

def untimed : Bytes := ascii "\x7b\"motd\":\x7b\"id\":\"a\",\"title\":\"b\",\"message\":\"c\"\x7d\x7d"

def gated : Bytes :=
  ascii "\x7b\"motd\":\x7b\"id\":\"d\",\"title\":\"e\",\"message\":\"f\",\"min_app_version\":\"2.0.0\"\x7d\x7d"

def numbered : Bytes := ascii "\x7b\"motd\":\x7b\"id\":1,\"title\":\"b\",\"message\":\"c\"\x7d\x7d"

def bulletin : MessageOfTheDay := { id := ascii "a", title := ascii "b", message := ascii "c" }

end Sample

open Sample in
theorem a_withdrawn_bulletin_is_shown :
    ¬Follows JsonCodec.library (ascii "1.0.0") [.parseAndCache untimed, .parseAndCache gated] ∧
      session JsonCodec.library (ascii "1.0.0") [.parseAndCache untimed, .parseAndCache gated] =
        .ok { appVersion := ascii "1.0.0", cachedBulletin := some bulletin } ∧
      ¬Follows JsonCodec.library (ascii "1.0.0") [.parseAndCache numbered] := by
  have hruns : session JsonCodec.library (ascii "1.0.0") [.parseAndCache untimed, .parseAndCache gated] =
        .ok { appVersion := ascii "1.0.0", cachedBulletin := some bulletin } ∧
      (JsonCodec.library.parse gated).bind bulletinId = some (ascii "d") ∧
      session JsonCodec.library (ascii "1.0.0") [.parseAndCache numbered] = .error .fault := by
    decide +kernel
  obtain ⟨hsession, hnamed, hfault⟩ := hruns
  refine ⟨fun hfollows => ?_, hsession, fun hfollows => hfollows.1 hfault⟩
  obtain ⟨v, hparse, hid⟩ := Option.bind_eq_some_iff.mp hnamed
  cases v with
  | object doc =>
    have hcarries := (hfollows.2 [.parseAndCache untimed] gated [] doc _ rfl hparse hsession bulletin rfl).1
    rw [bulletinId_of_carries hcarries] at hid
    exact absurd hid (by decide +kernel)
  | _ => cases hid

end NsxManager.Motd
