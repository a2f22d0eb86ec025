import NsxManager.Core.Json
import Mathlib.Data.Rat.Defs

/-! One JSON document, as the release tools and as the client hold it. -/

namespace NsxManager.Release

open NsxManager.Core

/-- What `json.loads` returns. The sign of an integer stands apart from its digits, as the client's
library tells `-0` from `0`. A float is the number its text was rounded to. A text is in UTF-8; a lone
surrogate, which `json.loads` lets through, is three bytes that are not. A dict has each key once, in the order
the client's library keeps them, as no check depends on it. -/
inductive Document where
  | null
  | bool (value : Bool)
  | int (minus : Bool) (digits : ℕ)
  | float (value : ℚ)
  | nan
  | infinite (minus : Bool)
  | str (text : Bytes)
  | list (items : List Document)
  | dict (members : List (Bytes × Document))

abbrev Dict := List (Bytes × Document)

/-- `m.get(key)`, where `None` stands for an absent key. -/
def Dict.get (m : Dict) (key : Bytes) : Document := (m.lookup key).getD .null

namespace Document

def intValue (minus : Bool) (digits : ℕ) : ℤ := if minus then -digits else digits

/-- `d == n` -/
def equals (n : ℤ) : Document → Bool
  | .bool b => (if b then 1 else 0) == n
  | .int minus digits => intValue minus digits == n
  | .float q => q == n
  | _ => false

def isText (p : Bytes → Bool) : Document → Bool
  | .str s => p s
  | _ => false

/-- `type(d).__name__` -/
def typeName : Document → Bytes
  | .null => ascii "NoneType"
  | .bool _ => ascii "bool"
  | .int _ _ => ascii "int"
  | .float _ | .nan | .infinite _ => ascii "float"
  | .str _ => ascii "str"
  | .list _ => ascii "list"
  | .dict _ => ascii "dict"

/-- Integers that fit no 64-bit type are read as floats, and numbers that round to infinity not at all. -/
def clientInt (minus : Bool) (digits : ℕ) : Option Json :=
  if minus ∧ digits ≤ 2 ^ 63 then some (.integer (Int64.ofInt (-digits)))
  else if ¬ minus ∧ digits < 2 ^ 64 then some (.unsigned (UInt64.ofNat digits))
  else if digits < 2 ^ 1024 - 2 ^ 970 then some .float
  else none

mutual

/-- The value the client's library holds for the same text, or nothing where it refuses that text. -/
def client : Document → Option Json
  | .null => some .null
  | .bool b => some (.boolean b)
  | .int minus digits => clientInt minus digits
  | .float _ => some .float
  | .nan | .infinite _ => none
  | .str s => if validUtf8 s then some (.string s) else none
  | .list items => (clientItems items).map .array
  | .dict members => (clientMembers members).map .object

def clientItems : List Document → Option (List Json)
  | [] => some []
  | d :: ds => do
    let v ← client d
    let vs ← clientItems ds
    return v :: vs

def clientMembers : List (Bytes × Document) → Option Members
  | [] => some []
  | (key, d) :: ds =>
    if validUtf8 key then do
      let v ← client d
      let vs ← clientMembers ds
      return (key, v) :: vs
    else none

end

lemma forall₂_clientItems {ds : List Document} {vs : List Json} (h : clientItems ds = some vs) :
    List.Forall₂ (fun d v => client d = some v) ds vs := by
  induction ds generalizing vs with
  | nil =>
    cases h
    exact .nil
  | cons d ds ih =>
    simp only [clientItems, Option.bind_eq_bind, Option.bind_eq_some_iff, Option.pure_def, Option.some.injEq] at h
    obtain ⟨v, hv, vs, hvs, rfl⟩ := h
    exact .cons hv (ih hvs)

lemma lookup_clientMembers {m : Dict} {doc : Members} (h : clientMembers m = some doc) (key : Bytes) :
    Option.Rel (fun d v => client d = some v) (m.lookup key) (doc.lookup key) := by
  induction m generalizing doc with
  | nil =>
    cases h
    exact .none
  | cons entry m ih =>
    obtain ⟨k, d⟩ := entry
    rw [clientMembers] at h
    split at h
    · simp only [Option.bind_eq_bind, Option.bind_eq_some_iff, Option.pure_def, Option.some.injEq] at h
      obtain ⟨v, hv, vs, hvs, rfl⟩ := h
      rw [List.lookup_cons, List.lookup_cons]
      cases key == k with
      | true => exact .some hv
      | false => exact ih hvs
    · cases h

section Lookup

variable {m : Dict} {doc : Members} {key : Bytes}

lemma lookup_of_clientMembers (h : clientMembers m = some doc) {d : Document} (hd : m.lookup key = some d) :
    ∃ v, doc.lookup key = some v ∧ client d = some v := by
  have hrel := lookup_clientMembers h key
  rw [hd] at hrel
  generalize doc.lookup key = x at hrel
  cases hrel with
  | some hv => exact ⟨_, rfl, hv⟩

lemma exists_lookup_of_clientMembers (h : clientMembers m = some doc) {v : Json} (hv : doc.lookup key = some v) :
    ∃ d, m.lookup key = some d ∧ client d = some v := by
  have hrel := lookup_clientMembers h key
  rw [hv] at hrel
  generalize m.lookup key = x at hrel
  cases hrel with
  | some hd => exact ⟨_, rfl, hd⟩

end Lookup

inductive Held : Document → Json → Prop
  | null : Held .null .null
  | bool (b : Bool) : Held (.bool b) (.boolean b)
  | negative (digits : ℕ) (n : Int64) : Held (.int true digits) (.integer n)
  | natural (digits : ℕ) : digits < 2 ^ 64 → Held (.int false digits) (.unsigned (UInt64.ofNat digits))
  | rounded (minus : Bool) (digits : ℕ) : Held (.int minus digits) .float
  | float (q : ℚ) : Held (.float q) .float
  | str (s : Bytes) : Held (.str s) (.string s)
  | list {ds : List Document} {vs : List Json} : clientItems ds = some vs → Held (.list ds) (.array vs)
  | dict {m : Dict} {doc : Members} : clientMembers m = some doc → Held (.dict m) (.object doc)

section Held

variable {d : Document}

lemma held_of_clientInt {minus : Bool} {digits : ℕ} {v : Json} (h : clientInt minus digits = some v) :
    Held (.int minus digits) v := by
  rw [clientInt] at h
  split_ifs at h with hneg hpos
  · rw [hneg.1, ← Option.some.inj h]
    exact .negative digits _
  · rw [Bool.eq_false_iff.mpr hpos.1, ← Option.some.inj h]
    exact .natural digits hpos.2
  · rw [← Option.some.inj h]
    exact .rounded minus digits

lemma held_of_client {v : Json} (h : client d = some v) : Held d v := by
  cases d with
  | int minus digits => exact held_of_clientInt (by rwa [client] at h)
  | str s =>
    rw [client] at h
    split at h
    · rw [← Option.some.inj h]
      exact .str s
    · cases h
  | list ds =>
    rw [client] at h
    obtain ⟨vs, hvs, rfl⟩ := Option.map_eq_some_iff.mp h
    exact .list hvs
  | dict m =>
    rw [client] at h
    obtain ⟨doc, hdoc, rfl⟩ := Option.map_eq_some_iff.mp h
    exact .dict hdoc
  | null | bool _ | float _ =>
    rw [client] at h
    rw [← Option.some.inj h]
    constructor
  | nan | infinite _ =>
    rw [client] at h
    cases h

lemma client_str {s : Bytes} {v : Json} (h : client (.str s) = some v) : v = .string s := by
  cases held_of_client h with
  | str => rfl

lemma client_list {ds : List Document} {v : Json} (h : client (.list ds) = some v) :
    ∃ vs, v = .array vs ∧ clientItems ds = some vs := by
  cases held_of_client h with
  | list hds => exact ⟨_, rfl, hds⟩

lemma client_dict {m : Dict} {v : Json} (h : client (.dict m) = some v) :
    ∃ doc, v = .object doc ∧ clientMembers m = some doc := by
  cases held_of_client h with
  | dict hm => exact ⟨_, rfl, hm⟩

lemma client_eq_string {s : Bytes} (h : client d = some (.string s)) : d = .str s := by
  cases held_of_client h with
  | str => rfl

lemma client_eq_boolean {b : Bool} (h : client d = some (.boolean b)) : d = .bool b := by
  cases held_of_client h with
  | bool => rfl

lemma client_eq_array {vs : List Json} (h : client d = some (.array vs)) :
    ∃ ds, d = .list ds ∧ clientItems ds = some vs := by
  cases held_of_client h with
  | list hds => exact ⟨_, rfl, hds⟩

lemma client_eq_object {doc : Members} (h : client d = some (.object doc)) :
    ∃ m, d = .dict m ∧ clientMembers m = some doc := by
  cases held_of_client h with
  | dict hm => exact ⟨_, rfl, hm⟩

lemma client_eq_unsigned {n : UInt64} (h : client d = some (.unsigned n)) : d = .int false n.toNat := by
  cases held_of_client h with
  | natural digits hfits => rw [UInt64.toNat_ofNat_of_lt' hfits]

lemma client_eq_integer {n : Int64} (h : client d = some (.integer n)) : ∃ digits, d = .int true digits := by
  cases held_of_client h with
  | negative digits => exact ⟨digits, rfl⟩

end Held

mutual

/-- The document that the client's library holds as the value, where it is free of floats. -/
def ofJson : Json → Option Document
  | .null => some .null
  | .boolean b => some (.bool b)
  | .integer n => if n.toInt ≤ 0 then some (.int true n.toInt.natAbs) else none
  | .unsigned n => some (.int false n.toNat)
  | .float => none
  | .string s => if validUtf8 s then some (.str s) else none
  | .array items => (ofItems items).map .list
  | .object members => (ofMembers members).map .dict

def ofItems : List Json → Option (List Document)
  | [] => some []
  | v :: vs => do
    let d ← ofJson v
    let ds ← ofItems vs
    return d :: ds

def ofMembers : Members → Option Dict
  | [] => some []
  | (key, v) :: vs =>
    if validUtf8 key then do
      let d ← ofJson v
      let ds ← ofMembers vs
      return (key, d) :: ds
    else none

end

mutual

lemma client_ofJson {v : Json} {d : Document} (h : ofJson v = some d) : d.client = some v := by
  cases v with
  | null | boolean b =>
    obtain rfl := Option.some.inj h
    rfl
  | integer n =>
    rw [ofJson] at h
    split at h
    · next hneg =>
      obtain rfl := Option.some.inj h
      have hrange := n.minValue_le_toInt
      have habs : -(n.toInt.natAbs : ℤ) = n.toInt := by omega
      rw [client, clientInt, if_pos ⟨rfl, by simp at hrange; omega⟩, habs, Int64.ofInt_toInt]
    · cases h
  | unsigned n =>
    obtain rfl := Option.some.inj h
    rw [client, clientInt, if_neg (by simp), if_pos ⟨by simp, n.toNat_lt⟩, UInt64.ofNat_toNat]
  | float => cases h
  | string s =>
    rw [ofJson] at h
    split at h
    · next hs =>
      obtain rfl := Option.some.inj h
      rw [client, if_pos hs]
    · cases h
  | array items =>
    obtain ⟨ds, hds, rfl⟩ := Option.map_eq_some_iff.mp h
    rw [client, clientItems_ofItems hds]
    rfl
  | object members =>
    obtain ⟨m, hm, rfl⟩ := Option.map_eq_some_iff.mp h
    rw [client, clientMembers_ofMembers hm]
    rfl

lemma clientItems_ofItems {vs : List Json} {ds : List Document} (h : ofItems vs = some ds) :
    clientItems ds = some vs := by
  cases vs with
  | nil =>
    cases h
    rfl
  | cons v vs =>
    simp only [ofItems, Option.bind_eq_bind, Option.bind_eq_some_iff, Option.pure_def, Option.some.injEq] at h
    obtain ⟨d, hd, ds, hds, rfl⟩ := h
    simp [clientItems, client_ofJson hd, clientItems_ofItems hds]

lemma clientMembers_ofMembers {doc : Members} {m : Dict} (h : ofMembers doc = some m) : clientMembers m = some doc := by
  cases doc with
  | nil =>
    cases h
    rfl
  | cons entry doc =>
    obtain ⟨key, v⟩ := entry
    rw [ofMembers] at h
    split at h
    · next hkey =>
      simp only [Option.bind_eq_bind, Option.bind_eq_some_iff, Option.pure_def, Option.some.injEq] at h
      obtain ⟨d, hd, m, hm, rfl⟩ := h
      simp [clientMembers, hkey, client_ofJson hd, clientMembers_ofMembers hm]
    · cases h

end

end Document

end NsxManager.Release
