import NsxManager.Core.Text
import Mathlib.Tactic

/-! The JSON library as the parsers and serialisers of this code base use it. -/

namespace NsxManager.Core

/-- `nlohmann::json`; an integer without a minus sign is held as an unsigned one. -/
inductive Json where
  | null
  | boolean (value : Bool)
  | integer (value : Int64)
  | unsigned (value : UInt64)
  | float
  | string (value : Bytes)
  | array (items : List Json)
  | object (members : List (Bytes × Json))

abbrev Members := List (Bytes × Json)

inductive Scalar where
  | string (value : Bytes)
  | integer (value : Int64)
  | unsigned (value : UInt64)
  deriving DecidableEq

def Scalar.reread : Scalar → Json
  | .string s => .string s
  | .integer n => if 0 ≤ n then .unsigned n.toUInt64 else .integer n
  | .unsigned n => .unsigned n

def isContinuation (b : UInt8) : Bool := 0x80 ≤ b && b ≤ 0xbf

def isThreeByteLead (b b₁ : UInt8) : Bool :=
  (b == 0xe0 && 0xa0 ≤ b₁ && b₁ ≤ 0xbf) || (0xe1 ≤ b && b ≤ 0xec && isContinuation b₁) ||
    (b == 0xed && 0x80 ≤ b₁ && b₁ ≤ 0x9f) || (0xee ≤ b && b ≤ 0xef && isContinuation b₁)

def isFourByteLead (b b₁ : UInt8) : Bool :=
  (b == 0xf0 && 0x90 ≤ b₁ && b₁ ≤ 0xbf) || (0xf1 ≤ b && b ≤ 0xf3 && isContinuation b₁) ||
    (b == 0xf4 && 0x80 ≤ b₁ && b₁ ≤ 0x8f)

def validUtf8 : Bytes → Bool
  | [] => true
  | b :: rest =>
    if b < 0x80 then validUtf8 rest
    else
      match rest with
      | [] => false
      | b₁ :: rest₁ =>
        if 0xc2 ≤ b && b ≤ 0xdf && isContinuation b₁ then validUtf8 rest₁
        else
          match rest₁ with
          | [] => false
          | b₂ :: rest₂ =>
            if isThreeByteLead b b₁ && isContinuation b₂ then validUtf8 rest₂
            else
              match rest₂ with
              | [] => false
              | b₃ :: rest₃ =>
                if isFourByteLead b b₁ && isContinuation b₂ && isContinuation b₃ then
                  validUtf8 rest₃
                else false

lemma validUtf8_of_ascii {s : Bytes} (h : ∀ b ∈ s, b < 0x80) : validUtf8 s = true := by
  induction s with
  | nil => rfl
  | cons b s ih =>
    rw [validUtf8.eq_def]
    simp only [h b List.mem_cons_self, if_true]
    exact ih (fun c hc => h c (List.mem_cons_of_mem _ hc))

-- Written with `all`: over a type as small as a byte, deciding `∀ b ∈ key` would try all 256 of them.
lemma ascii_of_all {keys : List Bytes} (h : keys.all (fun key => key.all (fun b => decide (b < 0x80))) = true) :
    ∀ key ∈ keys, ∀ b ∈ key, b < 0x80 := by
  simpa using h

def Scalar.Utf8 : Scalar → Prop
  | .string s => validUtf8 s = true
  | _ => True

def isJsonSpace (b : UInt8) : Bool := b == 0x20 || b == 0x09 || b == 0x0a || b == 0x0d

/-- `parse` is `json::parse` in its non-throwing mode, where nothing stands for a discarded value;
`dump` is `dump(2)` of a flat object, where nothing stands for a thrown `type_error`. -/
structure JsonLibrary where
  parse : Bytes → Option Json
  dump : List (Bytes × Scalar) → Option Bytes
  dump_isSome : ∀ members, (dump members).isSome ↔
    ∀ m ∈ members, validUtf8 m.1 = true ∧ m.2.Utf8
  parse_dump : ∀ members text tail, (members.map Prod.fst).Pairwise (· < ·) →
    dump members = some text → tail.all isJsonSpace = true →
    parse (text ++ tail) = some (.object (members.map (fun m => (m.1, m.2.reread))))
  parse_utf8 : ∀ text members key s, parse text = some (.object members) →
    members.lookup key = some (.string s) → validUtf8 s = true

def Scalar.width : Scalar → ℕ
  | .string s => 6 * s.length + 2
  | _ => 20

/-- Nothing is printed but the members, their quotation marks, colons, commas and indentation. -/
structure JsonLibrary.Concise (J : JsonLibrary) : Prop where
  length_dump : ∀ members text, J.dump members = some text →
    text.length ≤ 3 + (members.map (fun m => 6 * m.1.length + 8 + m.2.width)).sum

/-- A parser rejects a document with an error of its own; a fault is a use of the library outside
its preconditions. -/
inductive Stop (ε : Type) where
  | rejected (error : ε)
  | fault
  deriving DecidableEq

abbrev Parse (ε α : Type) := Except (Stop ε) α

@[simp] lemma Parse.ok_bind {ε α β : Type} (a : α) (k : α → Parse ε β) :
    ((Except.ok a : Parse ε α) >>= k) = k a := rfl

@[simp] lemma Parse.error_bind {ε α β : Type} (e : Stop ε) (k : α → Parse ε β) :
    ((Except.error e : Parse ε α) >>= k) = .error e := rfl

@[simp] lemma Parse.pure_eq {ε α : Type} (a : α) : (pure a : Parse ε α) = .ok a := rfl

lemma Parse.bind_eq_ok {ε α β : Type} {x : Parse ε α} {k : α → Parse ε β} {b : β} :
    (x >>= k) = .ok b ↔ ∃ a, x = .ok a ∧ k a = .ok b := by
  cases x with
  | error e => simp
  | ok a => simp

namespace Json

variable {ε : Type}

def isNumberInteger : Json → Bool
  | .integer _ | .unsigned _ => true
  | _ => false

def isString : Json → Bool
  | .string _ => true
  | _ => false

def isBoolean : Json → Bool
  | .boolean _ => true
  | _ => false

def isNumberUnsigned : Json → Bool
  | .unsigned _ => true
  | _ => false

/-- `get<int>()`, which truncates the 64 bits it converts. -/
def getInt : Json → Parse ε Int32
  | .integer n => .ok n.toInt32
  | .unsigned n => .ok n.toUInt32.toInt32
  | _ => .error .fault

def getInt64 : Json → Parse ε Int64
  | .integer n => .ok n
  | .unsigned n => .ok n.toInt64
  | _ => .error .fault

def getString : Json → Parse ε Bytes
  | .string s => .ok s
  | _ => .error .fault

def getBool : Json → Parse ε Bool
  | .boolean b => .ok b
  | _ => .error .fault

def getUInt64 : Json → Parse ε UInt64
  | .integer n => .ok n.toUInt64
  | .unsigned n => .ok n
  | _ => .error .fault

/-! Whether two values are one, by computation. -/

mutual

def same : Json → Json → Bool
  | .null, .null | .float, .float => true
  | .boolean b, .boolean b' => b == b'
  | .integer n, .integer n' => n == n'
  | .unsigned n, .unsigned n' => n == n'
  | .string s, .string s' => s == s'
  | .array items, .array items' => sameItems items items'
  | .object members, .object members' => sameMembers members members'
  | _, _ => false

def sameItems : List Json → List Json → Bool
  | [], [] => true
  | v :: items, v' :: items' => v.same v' && sameItems items items'
  | _, _ => false

def sameMembers : List (Bytes × Json) → List (Bytes × Json) → Bool
  | [], [] => true
  | (key, v) :: members, (key', v') :: members' => key == key' && v.same v' && sameMembers members members'
  | _, _ => false

end

mutual

lemma eq_of_same {v v' : Json} (h : v.same v' = true) : v = v' := by
  cases v <;> cases v' <;> simp only [same, Bool.false_eq_true, beq_iff_eq] at h <;>
    first
    | rfl
    | rw [h]
    | exact congrArg Json.array (eq_of_sameItems h)
    | exact congrArg Json.object (eq_of_sameMembers h)

lemma eq_of_sameItems {items items' : List Json} (h : sameItems items items' = true) : items = items' := by
  cases items <;> cases items' <;> simp only [sameItems, Bool.false_eq_true, Bool.and_eq_true] at h
  · rfl
  · rw [eq_of_same h.1, eq_of_sameItems h.2]

lemma eq_of_sameMembers {members members' : List (Bytes × Json)} (h : sameMembers members members' = true) :
    members = members' := by
  rcases members with _ | ⟨⟨key, v⟩, members⟩ <;> rcases members' with _ | ⟨⟨key', v'⟩, members'⟩ <;>
    simp only [sameMembers, Bool.false_eq_true, Bool.and_eq_true, beq_iff_eq] at h
  · rfl
  · rw [h.1.1, eq_of_same h.1.2, eq_of_sameMembers h.2]

end

end Json

namespace Members

variable {ε : Type}

def has (doc : Members) (key : Bytes) : Bool := (doc.lookup key).isSome

/-- `doc[key]` on a constant object. -/
def index (doc : Members) (key : Bytes) : Parse ε Json :=
  match doc.lookup key with
  | some value => .ok value
  | none => .error .fault

end Members

def need {ε : Type} (error : ε) (condition : Bool) : Parse ε Unit :=
  if condition then .ok () else .error (.rejected error)

@[simp] lemma need_true {ε : Type} (error : ε) : need error true = .ok () := rfl

@[simp] lemma need_eq_ok {ε : Type} {error : ε} {condition : Bool} {u : Unit} :
    need error condition = .ok u ↔ condition = true := by
  cases condition <;> simp [need]

namespace Parse

variable {ε α β : Type} {x : Parse ε α} {k k' : α → Parse ε β}

lemma bind_eq_ok_and {b : β} {P : Prop} (h : ∀ a, k a = .ok b ↔ k' a = .ok b ∧ P) :
    (x >>= k) = .ok b ↔ (x >>= k') = .ok b ∧ P := by
  cases x with
  | error e => simp
  | ok a => exact h a

lemma of_bind_eq_ok {P : β → Prop} (h : ∀ a b, k a = .ok b → P b) : ∀ b, (x >>= k) = .ok b → P b := by
  cases x with
  | error e => simp
  | ok a => exact h a

lemma of_need_bind_eq_ok {e : ε} {condition : Bool} {k : Unit → Parse ε β} {P : β → Prop}
    (h : condition = true → ∀ b, k () = .ok b → P b) : ∀ b, (need e condition >>= k) = .ok b → P b := by
  cases condition with
  | true => exact h rfl
  | false => exact fun b hb => absurd hb (by simp [need])

lemma need_bind_eq_ok_and {e : ε} {condition : Bool} {k : Unit → Parse ε β} {P : β → Prop} {b : β}
    (h : ∀ b, k () = .ok b → (condition = true ↔ P b)) : (need e condition >>= k) = .ok b ↔ k () = .ok b ∧ P b := by
  cases condition with
  | true => exact ⟨fun hb => ⟨hb, (h b hb).mp rfl⟩, And.left⟩
  | false => exact ⟨fun hb => absurd hb (by simp [need]), fun hb => absurd ((h b hb.1).mpr hb.2) Bool.false_ne_true⟩

end Parse

def stringField {ε : Type} (wrongType : ε) (doc : Members) (key : Bytes) : Parse ε Bytes := do
  let value ← doc.index key
  need wrongType value.isString
  value.getString

def integerField {ε : Type} (wrongType : ε) (doc : Members) (key : Bytes) : Parse ε Json := do
  let value ← doc.index key
  need wrongType value.isNumberInteger
  return value

def isSafeAbsolutePath (path : Bytes) : Bool :=
  path.head? == some (byte '/') && !contains path (ascii "..") && !contains path (ascii "\\")

def pathField {ε : Type} (wrongType relativePath pathTraversal : ε) (doc : Members) (key : Bytes) :
    Parse ε Bytes := do
  let path ← stringField wrongType doc key
  need relativePath (path.head? == some (byte '/'))
  need pathTraversal (isSafeAbsolutePath path)
  return path

section Fields

variable {ε : Type} (e : ε) (doc : Members) (key : Bytes)

lemma stringField_eq {s : Bytes} (h : doc.lookup key = some (.string s)) :
    stringField e doc key = .ok s := by
  simp [stringField, Members.index, h, need, Json.isString, Json.getString]

lemma integerField_eq {v : Json} (h : doc.lookup key = some v) (hv : v.isNumberInteger = true) :
    integerField e doc key = .ok v := by
  simp only [integerField, Members.index, h, need, hv, Parse.ok_bind, if_true, Parse.pure_eq]

lemma stringField_ok {s : Bytes} (h : stringField e doc key = .ok s) :
    doc.lookup key = some (.string s) := by
  simp only [stringField, Parse.bind_eq_ok, Members.index] at h
  obtain ⟨v, hv, _, _, hs⟩ := h
  cases hl : doc.lookup key with
  | none => simp [hl] at hv
  | some w =>
    simp only [hl, Except.ok.injEq] at hv
    subst hv
    cases w <;> simp_all [Json.getString]

lemma pathField_eq {e₁ e₂ e₃ : ε} {path : Bytes} (h : doc.lookup key = some (.string path))
    (hs : isSafeAbsolutePath path = true) : pathField e₁ e₂ e₃ doc key = .ok path := by
  have hroot : (path.head? == some (byte '/')) = true := by
    simp only [isSafeAbsolutePath, Bool.and_eq_true] at hs
    exact hs.1.1
  simp only [pathField, stringField_eq _ _ _ h, Parse.ok_bind, hroot, hs, need_true, Parse.pure_eq]

lemma pathField_ok {e₁ e₂ e₃ : ε} {path : Bytes} (h : pathField e₁ e₂ e₃ doc key = .ok path) :
    doc.lookup key = some (.string path) ∧ isSafeAbsolutePath path = true := by
  simp only [pathField, Parse.bind_eq_ok, need_eq_ok, Parse.pure_eq, Except.ok.injEq] at h
  obtain ⟨p, hp, _, _, _, hs, rfl⟩ := h
  exact ⟨stringField_ok _ _ _ hp, hs⟩

lemma reread_integer (n : Int64) : (Scalar.integer n).reread.isNumberInteger = true := by
  simp only [Scalar.reread]
  split <;> rfl

lemma getInt64_reread (n : Int64) : (Scalar.integer n).reread.getInt64 = (.ok n : Parse ε Int64) := by
  simp only [Scalar.reread]
  split <;> simp [Json.getInt64]

lemma toInt32_toUInt32_toInt64 (n : Int32) : n.toInt64.toUInt64.toUInt32.toInt32 = n := by
  apply Int32.toBitVec_inj.mp
  ext i hi
  simp [BitVec.getElem_signExtend, hi, (by omega : i < 64)]

lemma getInt_reread (n : Int32) :
    (Scalar.integer n.toInt64).reread.getInt = (.ok n : Parse ε Int32) := by
  simp only [Scalar.reread]
  split <;> simp [Json.getInt, toInt32_toUInt32_toInt64]

end Fields

end NsxManager.Core
