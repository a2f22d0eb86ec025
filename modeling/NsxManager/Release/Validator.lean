import NsxManager.Core.JsonCodec
import NsxManager.Release.Schema

/-! The release tool that a manifest has to pass before it is published. -/

namespace NsxManager.Release

open NsxManager.Core

/-- The interpreter the tool runs in: its decimal digits, how it prints a value, the messages of the schema
library, and what reading and `json.loads` make of the bytes of a file, or the message of their failure. -/
structure Python where
  digits : Digits
  repr : Document → Bytes
  schemaMessage : Violation → Bytes
  loads : Bytes → Except Bytes Document

namespace Sample

def python : Python where
  digits := ⟨0, fun _ h => absurd h (by simp)⟩
  repr := fun _ => ascii "a value"
  schemaMessage := fun _ => ascii "it is not valid"
  loads := fun bytes => match (JsonCodec.parse bytes).bind Document.ofJson with
    | some d => .ok d
    | none => .error (ascii "not valid JSON")

lemma client_of_loads {bytes : Bytes} {d : Document} (h : python.loads bytes = .ok d) :
    JsonCodec.library.parse bytes = d.client := by
  simp only [python] at h
  split at h
  · next d' hd =>
    obtain rfl := Except.ok.inj h
    obtain ⟨v, hv, hdocument⟩ := Option.bind_eq_some_iff.mp hd
    exact hv.trans (Document.client_ofJson hdocument).symm
  · cases h

end Sample

section Checks

variable (py : Python)

def complain (valid : Bool) (message : Bytes) : List Bytes := if valid then [] else [message]

def knownKinds : List Bytes := [ascii "app-nro", ascii "forwarder-nro", ascii "sd-overlay-zip"]

def versionCheck (m : Dict) (field : Bytes) : List Bytes :=
  complain ((m.get field).isText (Pattern.line (Pattern.semver py.digits)))
    (field ++ ascii ": " ++ py.repr (m.get field) ++ ascii " is not SemVer 2.0.0")

def tagCheck (m : Dict) : List Bytes :=
  match m.get (ascii "tag") with
  | .str tag =>
    if (ascii "v").isPrefixOf tag then
      match m.get (ascii "version") with
      | .str version => complain (tag.drop 1 == version)
          (ascii "tag " ++ py.repr (.str tag) ++ ascii " does not match version " ++ py.repr (.str version))
      | _ => []
    else [ascii "tag: " ++ py.repr (.str tag) ++ ascii " must be a string starting with 'v'"]
  | tag => [ascii "tag: " ++ py.repr tag ++ ascii " must be a string starting with 'v'"]

def mandatoryCheck (m : Dict) : List Bytes :=
  match m.get (ascii "mandatory") with
  | .bool _ => []
  | mandatory => [ascii "mandatory: " ++ py.repr mandatory ++ ascii " must be a boolean"]

def channelCheck (m : Dict) : List Bytes :=
  complain ((m.get (ascii "channel")).isText [ascii "stable", ascii "beta"].contains)
    (ascii "channel: " ++ py.repr (m.get (ascii "channel")) ++ ascii " must be 'stable' or 'beta'")

def publishedCheck (m : Dict) : List Bytes :=
  complain ((m.get (ascii "published_at")).isText (Pattern.line (Pattern.isoUtc py.digits)))
    (ascii "published_at: " ++ py.repr (m.get (ascii "published_at")) ++ ascii " must be ISO-8601 UTC")

def isBareName (name : Bytes) : Bool :=
  !(contains name (ascii "/") || contains name (ascii "\\") || contains name (ascii "..") ||
    (ascii ".").isPrefixOf name)

def nameCheck (place : Bytes) (a : Dict) : List Bytes :=
  match a.get (ascii "name") with
  | .str (c :: name) => complain (isBareName (c :: name))
      (place ++ ascii ".name: " ++ py.repr (.str (c :: name)) ++
        ascii " must be a bare filename. A name that can traverse directories must never reach a filesystem call.")
  | _ => [place ++ ascii ".name: must be a non-empty string"]

def urlCheck (place : Bytes) (a : Dict) : List Bytes :=
  match a.get (ascii "url") with
  | .str url =>
    if !(ascii "https://").isPrefixOf url then
      [place ++ ascii ".url: " ++ py.repr (.str url) ++ ascii " must use https"]
    else complain ((ascii "https://github.com/").isPrefixOf url)
      (place ++ ascii ".url: " ++ py.repr (.str url) ++ ascii " must point at a GitHub release asset")
  | _ => [place ++ ascii ".url: must be a string"]

def digestCheck (place : Bytes) (a : Dict) : List Bytes :=
  complain ((a.get (ascii "sha256")).isText (Pattern.line Pattern.sha256))
    (place ++ ascii (".sha256: must be 64 lowercase hex characters. An asset without a verifiable digest " ++
      "must never be downloadable."))

/-- Neither a float without a fraction nor a boolean is an `int` here. -/
def sizeCheck (place : Bytes) (a : Dict) : List Bytes :=
  let valid := match a.get (ascii "size") with
    | .int minus digits => decide (0 < Document.intValue minus digits)
    | _ => false
  complain valid (place ++ ascii ".size: must be a positive integer, got " ++ py.repr (a.get (ascii "size")))

/-- Lists and objects have no hash: looking one up among the known kinds raises an error nobody handles. -/
def kindCheck (place : Bytes) (a : Dict) : Option (List Bytes × Bool) :=
  match a.get (ascii "kind") with
  | .list _ | .dict _ => none
  | kind =>
    if kind.isText knownKinds.contains then some ([], kind.isText (· == ascii "app-nro"))
    else some ([place ++ ascii ".kind: " ++ py.repr kind ++
      ascii " is not one of ['app-nro', 'forwarder-nro', 'sd-overlay-zip']"], false)

def assetCheck (i : ℕ) : Document → Option (List Bytes × Bool)
  | .dict a =>
    let place := ascii "assets[" ++ decimal i ++ ascii "]"
    (kindCheck py place a).map (fun (complaints, app) =>
      (nameCheck py place a ++ urlCheck py place a ++ digestCheck place a ++ sizeCheck py place a ++ complaints, app))
  | _ => some ([ascii "assets[" ++ decimal i ++ ascii "]: must be an object"], false)

def assetLoop : ℕ → List Document → Option (List Bytes × Bool)
  | _, [] => some ([], false)
  | i, a :: rest => do
    let (complaints, app) ← assetCheck py i a
    let (more, seenApp) ← assetLoop (i + 1) rest
    return (complaints ++ more, app || seenApp)

/-- `semantic_checks`; nothing stands for an error that is raised. -/
def semanticChecks (m : Dict) : Option (List Bytes) :=
  if !(m.get (ascii "schema_version")).equals 1 then
    some [ascii "schema_version is " ++ py.repr (m.get (ascii "schema_version")) ++
      ascii ("; this client understands 1. A newer manifest must make the app say 'update manually', not guess.")]
  else
    let complaints := versionCheck py m (ascii "version") ++ versionCheck py m (ascii "min_supported") ++ tagCheck py m ++
      mandatoryCheck py m ++ channelCheck py m ++ publishedCheck py m
    match m.get (ascii "assets") with
    | .list assets => (assetLoop py 0 assets).map (fun (more, seenApp) => complaints ++ more ++
        complain seenApp (ascii "no asset of kind 'app-nro' - the updater has nothing to download"))
    | assets => some (complaints ++ [ascii "assets: must be a list, got " ++ assets.typeName])

def Step.text : Step → Bytes
  | .key name => name
  | .index i => decimal i

/-- `schema: path: message` -/
def Violation.text (v : Violation) : Bytes :=
  let place := (ascii "/").intercalate (v.path.map Step.text)
  ascii "schema: " ++ (if place.isEmpty then ascii "<root>" else place) ++ ascii ": " ++ py.schemaMessage v

def schemaReport (d : Document) : List Bytes :=
  ((updateSchema py.digits d).mergeSort (fun v w => (compare v.path w.path).isLE)).map (Violation.text py)

/-- `validate`, given the bytes of the file; `installed` says whether the schema and its library are there. -/
def validate (installed : Bool) (bytes : Bytes) : Option (List Bytes) :=
  match py.loads bytes with
  | .error message => some [message]
  | .ok (.dict m) => (semanticChecks py m).map (fun complaints =>
      (if installed then schemaReport py (.dict m) else []) ++ complaints)
  | .ok _ => some [ascii "top level must be an object"]

end Checks

end NsxManager.Release
