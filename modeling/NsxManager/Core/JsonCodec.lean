import NsxManager.Core.Json
import NsxManager.Core.Sha256

/-! JSON documents as the library reads them, and the flat ones the serialisers write as it prints them. -/

namespace NsxManager.Core.JsonCodec

def escapes : List (UInt8 × UInt8) :=
  [(0x22, 0x22), (0x5c, 0x5c), (0x08, byte 'b'), (0x0c, byte 'f'), (0x0a, byte 'n'),
    (0x0d, byte 'r'), (0x09, byte 't')]

def escape (b : UInt8) : Bytes :=
  match escapes.lookup b with
  | some c => [0x5c, c]
  | none => if b < 0x20 then ascii "\\u00" ++ hexOfByte b else [b]

def unescape (c : UInt8) : Option UInt8 := (escapes.find? (fun e => e.2 == c)).map Prod.fst

def quote (s : Bytes) : Bytes := 0x22 :: (s.flatMap escape ++ [0x22])

def dumpScalar : Scalar → Bytes
  | .string s => quote s
  | .integer n => decimal n.toInt
  | .unsigned n => decimal n.toNat

def dumpMember (m : Bytes × Scalar) : Bytes :=
  ascii "\n  " ++ quote m.1 ++ ascii ": " ++ dumpScalar m.2

def dumpMembers : List (Bytes × Scalar) → Bytes
  | [] => []
  | [m] => dumpMember m
  | m :: m' :: ms => dumpMember m ++ byte ',' :: dumpMembers (m' :: ms)

def dumpObject (members : List (Bytes × Scalar)) : Bytes :=
  if members.isEmpty then [0x7b, 0x7d]
  else 0x7b :: (dumpMembers members ++ [0x0a, 0x7d])

/-- The rest of a string whose opening quote is read; of the numeric escapes only those printed above. -/
def readString : Bytes → Option (Bytes × Bytes)
  | [] => none
  | b :: rest =>
    if b = 0x22 then some ([], rest)
    else if b = 0x5c then
      match rest with
      | [] => none
      | c :: rest₁ =>
        if c = byte 'u' then
          match rest₁ with
          | _ :: _ :: x :: y :: rest₂ =>
            match hexPairs [x, y] with
            | some [value] => (readString rest₂).map (fun r => (value :: r.1, r.2))
            | _ => none
          | _ => none
        else
          match unescape c with
          | some value => (readString rest₁).map (fun r => (value :: r.1, r.2))
          | none => none
    else if b < 0x20 then none
    else (readString rest).map (fun r => (b :: r.1, r.2))

def isDigit (b : UInt8) : Bool := byte '0' ≤ b && b ≤ byte '9'

def readDigits (text : Bytes) : Option (ℕ × Bytes) :=
  if (text.takeWhile isDigit).isEmpty then none
  else some ((text.takeWhile isDigit).foldl (fun n b => 10 * n + (b.toNat - 48)) 0, text.dropWhile isDigit)

def readNumber (text : Bytes) : Option (Json × Bytes) :=
  if text.head? = some (byte '-') then
    (readDigits text.tail).map (fun r =>
      (if r.1 ≤ 2 ^ 63 then .integer (Int64.ofInt (-r.1)) else .float, r.2))
  else
    (readDigits text).map (fun r => (if r.1 < 2 ^ 64 then .unsigned (UInt64.ofNat r.1) else .float, r.2))

def skipSpace (text : Bytes) : Bytes := text.dropWhile isJsonSpace

def expect (b : UInt8) (text : Bytes) : Option Bytes :=
  if text.head? = some b then some text.tail else none

def readText (text : Bytes) : Option (Bytes × Bytes) := (readString text).filter (fun r => validUtf8 r.1)

def readScalar (text : Bytes) : Option (Json × Bytes) :=
  match expect (0x22) text with
  | some rest => (readText rest).map (fun r => (.string r.1, r.2))
  | none => readNumber text

def readLiteral (literal : Bytes) (value : Json) (text : Bytes) : Option (Json × Bytes) :=
  if literal.isPrefixOf text then some (value, text.drop literal.length) else none

section Containers

variable (readValue : Bytes → Option (Json × Bytes))

def readMember (text : Bytes) : Option ((Bytes × Json) × Bytes) := do
  let rest ← expect (0x22) (skipSpace text)
  let (key, rest) ← readText rest
  let rest ← expect (byte ':') (skipSpace rest)
  let (value, rest) ← readValue (skipSpace rest)
  return ((key, value), rest)

/-- One round per member; a document has fewer members than bytes. -/
def readMembers : ℕ → Bytes → Option (Members × Bytes)
  | 0, _ => none
  | n + 1, text => do
    let (member, rest) ← readMember readValue text
    match expect (byte ',') (skipSpace rest) with
    | some rest => (readMembers n rest).map (fun r => (member :: r.1, r.2))
    | none => (expect (0x7d) (skipSpace rest)).map (fun rest => ([member], rest))

def readObject (text : Bytes) : Option (Members × Bytes) := do
  let rest ← expect (0x7b) (skipSpace text)
  match expect (0x7d) (skipSpace rest) with
  | some rest => return ([], rest)
  | none => readMembers readValue rest.length rest

def readItems : ℕ → Bytes → Option (List Json × Bytes)
  | 0, _ => none
  | n + 1, text => do
    let (item, rest) ← readValue (skipSpace text)
    match expect (byte ',') (skipSpace rest) with
    | some rest => (readItems n rest).map (fun r => (item :: r.1, r.2))
    | none => (expect (0x5d) (skipSpace rest)).map (fun rest => ([item], rest))

def readArray (text : Bytes) : Option (List Json × Bytes) := do
  let rest ← expect (0x5b) text
  match expect (0x5d) (skipSpace rest) with
  | some rest => return ([], rest)
  | none => readItems readValue rest.length rest

end Containers

def readValue : ℕ → Bytes → Option (Json × Bytes)
  | 0, text => readScalar text
  | depth + 1, text =>
    if text.head? = some 0x7b then (readObject (readValue depth) text).map (fun r => (.object r.1, r.2))
    else if text.head? = some 0x5b then (readArray (readValue depth) text).map (fun r => (.array r.1, r.2))
    else if text.head? = some (byte 't') then readLiteral (ascii "true") (.boolean true) text
    else if text.head? = some (byte 'f') then readLiteral (ascii "false") (.boolean false) text
    else if text.head? = some (byte 'n') then readLiteral (ascii "null") .null text
    else readScalar text

def parse (text : Bytes) : Option Json :=
  match readValue (text.length + 1) (skipSpace text) with
  | some (value, rest) => if rest.all isJsonSpace then some value else none
  | none => none

def scalarValid : Scalar → Bool
  | .string s => validUtf8 s
  | _ => true

def dump (members : List (Bytes × Scalar)) : Option Bytes :=
  if members.all (fun m => validUtf8 m.1 && scalarValid m.2) then some (dumpObject members) else none

lemma readString_escape (b : UInt8) (rest : Bytes) :
    readString (escape b ++ rest) = (readString rest).map (fun r => (b :: r.1, r.2)) := by
  have hback : escapes.all (fun e => unescape e.2 == some e.1 && e.2 != byte 'u') = true := by decide
  have hmark : (0x5c : UInt8) ≠ 0x22 := by decide
  cases hlook : escapes.lookup b with
  | some c =>
    obtain ⟨l₁, l₂, hl, _⟩ := List.lookup_eq_some_iff.mp hlook
    obtain ⟨hun, hu⟩ : unescape c = some b ∧ c ≠ byte 'u' := by
      simpa using List.all_eq_true.mp hback (b, c) (by rw [hl]; simp)
    simp only [escape, hlook, List.cons_append, List.nil_append]
    rw [readString.eq_def]
    simp only [hu, hun, hmark, if_true, if_false]
  | none =>
    have hplain := List.lookup_eq_none_iff.mp hlook
    have hquote : b ≠ 0x22 := by simpa using hplain (0x22, 0x22) (by decide)
    have hslash : b ≠ 0x5c := by simpa using hplain (0x5c, 0x5c) (by decide)
    simp only [escape, hlook]
    split
    · have hhex : hexPairs (hexOfByte b) = some [b] := by simpa [hexPairs] using hexPairs_hexOfByte b []
      obtain ⟨x, y, hxy⟩ : ∃ x y, hexOfByte b = [x, y] := ⟨_, _, rfl⟩
      rw [hxy] at hhex ⊢
      change readString (0x5c :: byte 'u' :: byte '0' :: byte '0' :: x :: y :: rest) = _
      rw [readString.eq_def]
      simp only [hmark, hhex, if_true, if_false]
    · next hlow =>
      rw [List.singleton_append, readString.eq_def]
      simp only [hquote, hslash, hlow, if_false]

lemma readString_quoted (s rest : Bytes) : readString (s.flatMap escape ++ 0x22 :: rest) = some (s, rest) := by
  induction s with
  | nil => rw [List.flatMap_nil, List.nil_append, readString.eq_def]; rfl
  | cons b s ih => rw [List.flatMap_cons, List.append_assoc, readString_escape, ih]; rfl

lemma isDigit_byte {c : Char} (hc : c.isDigit = true) : isDigit (byte c) = true ∧ (byte c).toNat = c.toNat := by
  obtain ⟨hlow, hhigh⟩ := Bool.and_eq_true_iff.mp hc
  have h₀ : 48 ≤ c.toNat := UInt32.le_iff_toNat_le.mp (of_decide_eq_true hlow)
  have h₁ : c.toNat ≤ 57 := UInt32.le_iff_toNat_le.mp (of_decide_eq_true hhigh)
  have hb : (byte c).toNat = c.toNat := by
    simp [byte]
    omega
  refine ⟨?_, hb⟩
  simp only [isDigit, Bool.and_eq_true, decide_eq_true_eq, UInt8.le_iff_toNat_le, hb]
  exact ⟨h₀, h₁⟩

def digitsOf (n : ℕ) : Bytes := (Nat.toDigits 10 n).map byte

lemma digitsOf_spec (n : ℕ) : digitsOf n ≠ [] ∧ ∀ b ∈ digitsOf n, isDigit b = true := by
  refine ⟨by simp [digitsOf, Nat.toDigits_ne_nil], fun b hb => ?_⟩
  obtain ⟨c, hc, rfl⟩ := List.mem_map.mp hb
  exact (isDigit_byte (Nat.isDigit_of_mem_toDigits (by decide) (by decide) hc)).1

lemma head_digitsOf_ne (n : ℕ) (rest : Bytes) {b : UInt8} (hb : isDigit b = false) :
    (digitsOf n ++ rest).head? ≠ some b := by
  obtain ⟨hne, hall⟩ := digitsOf_spec n
  obtain ⟨d, l, hd⟩ := List.exists_cons_of_ne_nil hne
  intro h
  rw [hd, List.cons_append, List.head?_cons, Option.some.injEq] at h
  simp [← h, hall d (by simp [hd])] at hb

def Stops (rest : Bytes) : Prop := ∀ b, rest.head? = some b → isDigit b = false

lemma readDigits_digitsOf (n : ℕ) {rest : Bytes} (hrest : Stops rest) :
    readDigits (digitsOf n ++ rest) = some (n, rest) := by
  obtain ⟨hnonempty, hall⟩ := digitsOf_spec n
  have hstop : rest.takeWhile isDigit = [] ∧ rest.dropWhile isDigit = rest := by
    cases rest with
    | nil => exact ⟨rfl, rfl⟩
    | cons b rest => simp [hrest b rfl]
  have htake : (digitsOf n ++ rest).takeWhile isDigit = digitsOf n := by
    rw [List.takeWhile_append_of_pos hall, hstop.1, List.append_nil]
  have hdrop : (digitsOf n ++ rest).dropWhile isDigit = rest := by
    rw [List.dropWhile_append_of_pos hall, hstop.2]
  have hne : (digitsOf n).isEmpty = false := by simpa using hnonempty
  have hvalue : (digitsOf n).foldl (fun n b => 10 * n + (b.toNat - 48)) 0 = n := by
    rw [digitsOf, List.foldl_map, List.foldl_ext _ (fun sofar c => 10 * sofar + (c.toNat - '0'.toNat)) 0
      (fun a c hc => by
        rw [(isDigit_byte (Nat.isDigit_of_mem_toDigits (by decide) (by decide) hc)).2]; rfl)]
    exact Nat.ofDigitChars_toDigits (by decide) (by decide)
  simp only [readDigits, htake, hdrop, hne, hvalue, Bool.false_eq_true, if_false]

lemma readNumber_natural (n : ℕ) (hn : n < 2 ^ 64) {rest : Bytes} (hrest : Stops rest) :
    readNumber (digitsOf n ++ rest) = some (.unsigned (UInt64.ofNat n), rest) := by
  rw [readNumber, if_neg (head_digitsOf_ne n rest (by decide)), readDigits_digitsOf n hrest]
  simp only [Option.map_some, if_pos hn]

lemma readNumber_negative (n : ℕ) (hn : n ≤ 2 ^ 63) {rest : Bytes} (hrest : Stops rest) :
    readNumber (byte '-' :: (digitsOf n ++ rest)) = some (.integer (Int64.ofInt (-n)), rest) := by
  rw [readNumber, if_pos List.head?_cons, List.tail_cons, readDigits_digitsOf n hrest]
  simp only [Option.map_some, if_pos hn]

lemma expect_cons (b : UInt8) (rest : Bytes) : expect b (b :: rest) = some rest := by
  simp [expect]

lemma expect_none {b : UInt8} {text : Bytes} (h : text.head? ≠ some b) : expect b text = none :=
  if_neg h

lemma readText_quoted {s : Bytes} (hs : validUtf8 s = true) (rest : Bytes) :
    readText (s.flatMap escape ++ 0x22 :: rest) = some (s, rest) := by
  rw [readText, readString_quoted, Option.filter_some, if_pos hs]

lemma readScalar_dumpScalar {s : Scalar} (hs : s.Utf8) {rest : Bytes} (hrest : Stops rest) :
    readScalar (dumpScalar s ++ rest) = some (s.reread, rest) := by
  cases s with
  | string s =>
    simp only [readScalar, dumpScalar, quote, List.cons_append, expect_cons, List.append_assoc,
      List.nil_append, readText_quoted hs]
    rfl
  | integer n =>
    by_cases hneg : n.toInt < 0
    · have hbound : n.toInt.natAbs ≤ 2 ^ 63 := by
        have := n.le_toInt
        omega
      have hminus : ¬0 ≤ n := by simpa [Int64.le_iff_toInt_le] using hneg
      have hvalue : Int64.ofInt (-(n.toInt.natAbs : ℤ)) = n := by
        rw [Int.ofNat_natAbs_of_nonpos hneg.le, neg_neg, Int64.ofInt_toInt]
      have hhead : (byte '-' :: (digitsOf n.toInt.natAbs ++ rest)).head? ≠ some 0x22 := by
        rw [List.head?_cons]
        decide
      simp only [dumpScalar, decimal, if_pos hneg, List.cons_append]
      change readScalar (byte '-' :: (digitsOf n.toInt.natAbs ++ rest)) = _
      rw [readScalar, expect_none hhead, readNumber_negative _ hbound hrest, hvalue]
      simp only [Scalar.reread, if_neg hminus]
    · have hbound : n.toInt.natAbs < 2 ^ 64 := by
        have := n.toInt_lt
        omega
      have hplus : 0 ≤ n := by simpa [Int64.le_iff_toInt_le] using hneg
      have hvalue : UInt64.ofNat n.toInt.natAbs = n.toUInt64 := by
        have hmsb : n.toBitVec.msb = false := by
          rw [BitVec.msb_eq_toInt]
          exact decide_eq_false hneg
        have hint : n.toInt = n.toUInt64.toNat := BitVec.toInt_eq_toNat_of_msb hmsb
        rw [hint, Int.natAbs_natCast, UInt64.ofNat_toNat]
      simp only [dumpScalar, decimal, if_neg hneg]
      change readScalar (digitsOf n.toInt.natAbs ++ rest) = _
      rw [readScalar, expect_none (head_digitsOf_ne _ _ (by decide)), readNumber_natural _ hbound hrest, hvalue]
      simp only [Scalar.reread, if_pos hplus]
  | unsigned n =>
    change readScalar (digitsOf n.toNat ++ rest) = _
    rw [readScalar, expect_none (head_digitsOf_ne _ _ (by decide)), readNumber_natural _ n.toNat_lt hrest]
    simp [Scalar.reread]

lemma skipSpace_cons {b : UInt8} (hb : isJsonSpace b = false) (rest : Bytes) :
    skipSpace (b :: rest) = b :: rest := by
  simp [skipSpace, hb]

lemma isJsonSpace_of_isDigit {b : UInt8} (hb : isDigit b = true) : isJsonSpace b = false := by
  rw [Bool.eq_false_iff]
  intro hs
  simp only [isJsonSpace, Bool.or_eq_true, beq_iff_eq] at hs
  rcases hs with ((rfl | rfl) | rfl) | rfl <;> exact absurd hb (by decide)

lemma dumpScalar_cons (s : Scalar) : ∃ b l, dumpScalar s = b :: l ∧ isJsonSpace b = false := by
  have hnumber : ∀ n : ℕ, ∃ b l, digitsOf n = b :: l ∧ isJsonSpace b = false := by
    intro n
    obtain ⟨hne, hall⟩ := digitsOf_spec n
    obtain ⟨b, l, hb⟩ := List.exists_cons_of_ne_nil hne
    exact ⟨b, l, hb, isJsonSpace_of_isDigit (hall b (by simp [hb]))⟩
  cases s with
  | string s => exact ⟨_, _, rfl, by decide⟩
  | integer n =>
    simp only [dumpScalar, decimal]
    split
    · exact ⟨_, _, rfl, by decide⟩
    · exact hnumber _
  | unsigned n => exact hnumber n.toNat

lemma head_dumpScalar (s : Scalar) (rest : Bytes) {b : UInt8} (hdigit : isDigit b = false)
    (hquote : b ≠ 0x22) (hminus : b ≠ byte '-') : (dumpScalar s ++ rest).head? ≠ some b := by
  cases s with
  | string s => simpa [dumpScalar, quote] using hquote.symm
  | integer n =>
    simp only [dumpScalar, decimal]
    split
    · simpa using hminus.symm
    · exact head_digitsOf_ne _ rest hdigit
  | unsigned n => exact head_digitsOf_ne _ rest hdigit

lemma readValue_dumpScalar (depth : ℕ) {s : Scalar} (hs : s.Utf8) {rest : Bytes} (hrest : Stops rest) :
    readValue depth (dumpScalar s ++ rest) = some (s.reread, rest) := by
  cases depth with
  | zero => exact readScalar_dumpScalar hs hrest
  | succ depth =>
    have hhead : ∀ b, isDigit b = false → b ≠ 0x22 → b ≠ byte '-' → (dumpScalar s ++ rest).head? ≠ some b :=
      fun b => head_dumpScalar s rest
    simp only [readValue, hhead 0x7b (by decide) (by decide) (by decide),
      hhead 0x5b (by decide) (by decide) (by decide), hhead (byte 't') (by decide) (by decide) (by decide),
      hhead (byte 'f') (by decide) (by decide) (by decide), hhead (byte 'n') (by decide) (by decide) (by decide),
      if_false]
    exact readScalar_dumpScalar hs hrest

lemma readMember_dumpMember (depth : ℕ) {m : Bytes × Scalar} (hm : validUtf8 m.1 = true ∧ m.2.Utf8)
    {rest : Bytes} (hrest : Stops rest) :
    readMember (readValue depth) (dumpMember m ++ rest) = some ((m.1, m.2.reread), rest) := by
  have htext : dumpMember m ++ rest = 0x0a :: 0x20 :: 0x20 :: 0x22 ::
      (m.1.flatMap escape ++ 0x22 :: 0x3a :: 0x20 :: (dumpScalar m.2 ++ rest)) := by
    simp [dumpMember, quote, ascii, byte]
  have hkey : ∀ text : Bytes, skipSpace (0x0a :: 0x20 :: 0x20 :: 0x22 :: text) = 0x22 :: text := fun _ => rfl
  have hcolon : ∀ text : Bytes, expect (byte ':') (skipSpace (0x3a :: text)) = some text := fun _ => rfl
  have hvalue : skipSpace (0x20 :: (dumpScalar m.2 ++ rest)) = dumpScalar m.2 ++ rest := by
    obtain ⟨b, l, hb, hspace⟩ := dumpScalar_cons m.2
    rw [hb]
    exact skipSpace_cons hspace _
  simp only [readMember, htext, hkey, expect_cons, readText_quoted hm.1, hcolon, hvalue,
    readValue_dumpScalar depth hm.2 hrest, Option.bind_eq_bind, Option.bind_some, Option.pure_def]

lemma stops_cons {b : UInt8} (hb : isDigit b = false) (rest : Bytes) : Stops (b :: rest) := by
  intro b' hb'
  obtain rfl : b = b' := by simpa using hb'
  exact hb

lemma readMembers_dumpMembers (depth : ℕ) (m : Bytes × Scalar) (ms : List (Bytes × Scalar)) (rest : Bytes) {n : ℕ}
    (hvalid : ∀ m' ∈ m :: ms, validUtf8 m'.1 = true ∧ m'.2.Utf8) (hn : ms.length < n) :
    readMembers (readValue depth) n (dumpMembers (m :: ms) ++ 0x0a :: 0x7d :: rest) =
      some ((m :: ms).map (fun m => (m.1, m.2.reread)), rest) := by
  induction ms generalizing m n with
  | nil =>
    obtain ⟨n, rfl⟩ := Nat.exists_eq_succ_of_ne_zero (Nat.ne_of_gt hn)
    have hmember := readMember_dumpMember depth (hvalid m List.mem_cons_self)
      (stops_cons (by decide : isDigit 0x0a = false) (0x7d :: rest))
    have hcomma : expect (byte ',') (skipSpace (0x0a :: 0x7d :: rest)) = none := rfl
    have hclose : expect 0x7d (skipSpace (0x0a :: 0x7d :: rest)) = some rest := rfl
    simp only [readMembers, dumpMembers, hmember, Option.bind_eq_bind, Option.bind_some, hcomma, hclose,
      Option.map_some, List.map_cons, List.map_nil]
  | cons m' ms ih =>
    obtain ⟨n, rfl⟩ := Nat.exists_eq_succ_of_ne_zero (Nat.ne_of_gt (Nat.zero_lt_of_lt hn))
    have hmember := readMember_dumpMember depth (hvalid m List.mem_cons_self)
      (stops_cons (by decide : isDigit (byte ',') = false) (dumpMembers (m' :: ms) ++ 0x0a :: 0x7d :: rest))
    have hcomma : ∀ text, expect (byte ',') (skipSpace (byte ',' :: text)) = some text := fun _ => rfl
    simp only [readMembers, dumpMembers, List.append_assoc, List.cons_append, hmember, Option.bind_eq_bind,
      Option.bind_some, hcomma, ih m' (fun m hm => hvalid m (List.mem_cons_of_mem _ hm))
        (Nat.lt_of_succ_lt_succ hn), Option.map_some, List.map_cons]

lemma length_dumpMembers (m : Bytes × Scalar) (ms : List (Bytes × Scalar)) :
    ms.length < (dumpMembers (m :: ms)).length := by
  have hmember : 0 < (dumpMember m).length := by simp [dumpMember, quote]
  induction ms generalizing m with
  | nil => simpa [dumpMembers] using hmember
  | cons m' ms ih =>
    have hrest := ih m' (by simp [dumpMember, quote])
    simp only [dumpMembers, List.length_append, List.length_cons]
    omega

lemma readObject_dumpObject (depth : ℕ) {members : List (Bytes × Scalar)}
    (hvalid : ∀ m ∈ members, validUtf8 m.1 = true ∧ m.2.Utf8) (rest : Bytes) :
    readObject (readValue depth) (dumpObject members ++ rest) = some (members.map (fun m => (m.1, m.2.reread)), rest) := by
  cases members with
  | nil => rfl
  | cons m ms =>
    have hopen : ∀ text, expect 0x7b (skipSpace (0x7b :: text)) = some text := fun _ => rfl
    have hnonempty : ∀ text, expect 0x7d (skipSpace (dumpMember m ++ text)) = none := by
      intro text
      simp [dumpMember, quote, ascii, byte, skipSpace, isJsonSpace, expect]
    have hsome : ∃ text, dumpMembers (m :: ms) ++ 0x0a :: 0x7d :: rest = dumpMember m ++ text := by
      cases ms with
      | nil => exact ⟨_, rfl⟩
      | cons m' ms => exact ⟨_, by rw [dumpMembers, List.append_assoc]⟩
    obtain ⟨text, htext⟩ := hsome
    simp only [readObject, dumpObject, List.isEmpty_cons, Bool.false_eq_true, if_false, List.cons_append,
      List.append_assoc, List.nil_append, hopen, Option.bind_eq_bind, Option.bind_some]
    rw [htext, hnonempty, ← htext]
    refine readMembers_dumpMembers depth m ms rest hvalid ?_
    have := length_dumpMembers m ms
    simp only [List.length_append]
    omega

lemma scalarValid_iff (v : Scalar) : scalarValid v = true ↔ v.Utf8 := by
  cases v <;> simp [scalarValid, Scalar.Utf8]

lemma dump_isSome (members : List (Bytes × Scalar)) :
    (dump members).isSome ↔ ∀ m ∈ members, validUtf8 m.1 = true ∧ m.2.Utf8 := by
  simp only [dump, Option.isSome_ite, List.all_eq_true, Bool.and_eq_true, scalarValid_iff]

lemma dumpObject_cons (members : List (Bytes × Scalar)) : ∃ l, dumpObject members = 0x7b :: l := by
  unfold dumpObject
  split
  · exact ⟨_, rfl⟩
  · exact ⟨_, rfl⟩

lemma parse_dump (members : List (Bytes × Scalar)) (text tail : Bytes)
    (htext : dump members = some text) (htail : tail.all isJsonSpace = true) :
    parse (text ++ tail) = some (.object (members.map (fun m => (m.1, m.2.reread)))) := by
  have hvalid := (dump_isSome members).mp (by rw [htext]; rfl)
  obtain rfl : dumpObject members = text := by
    simp only [dump] at htext
    split at htext
    · exact Option.some.inj htext
    · exact absurd htext (by simp)
  have hread := readObject_dumpObject (dumpObject members ++ tail).length hvalid tail
  obtain ⟨l, hl⟩ := dumpObject_cons members
  have hskip : skipSpace (dumpObject members ++ tail) = dumpObject members ++ tail := by
    rw [hl]
    exact skipSpace_cons (by decide) _
  have hhead : (dumpObject members ++ tail).head? = some 0x7b := by
    rw [hl]
    rfl
  rw [parse, hskip, readValue, if_pos hhead, hread]
  simp only [Option.map_some, htail, if_true]

def Sound (read : Bytes → Option (Json × Bytes)) : Prop :=
  ∀ text s rest, read text = some (.string s, rest) → validUtf8 s = true

lemma readScalar_cases {text rest : Bytes} {value : Json} (h : readScalar text = some (value, rest)) :
    (∃ s, value = .string s ∧ validUtf8 s = true) ∨ value.isNumberInteger = true ∨ value = .float := by
  unfold readScalar at h
  split at h
  · obtain ⟨r, hr, heq⟩ := Option.map_eq_some_iff.mp h
    exact .inl ⟨r.1, (congrArg Prod.fst heq).symm, (Option.filter_eq_some_iff.mp hr).2⟩
  · right
    unfold readNumber at h
    split at h
    all_goals
      obtain ⟨r, _, heq⟩ := Option.map_eq_some_iff.mp h
      obtain rfl : _ = value := congrArg Prod.fst heq
      dsimp only
      split
      · exact .inl rfl
      · exact .inr rfl

lemma readLiteral_eq {literal text rest : Bytes} {value value' : Json}
    (h : readLiteral literal value text = some (value', rest)) : value = value' := by
  unfold readLiteral at h
  split at h
  · exact congrArg Prod.fst (Option.some.inj h)
  · cases h

lemma map_value {α : Type} {o : Option (α × Bytes)} {f : α → Json} {value : Json} {rest : Bytes}
    (h : o.map (fun r => (f r.1, r.2)) = some (value, rest)) : ∃ a, o = some (a, rest) ∧ f a = value := by
  obtain ⟨⟨a, _⟩, ho, heq⟩ := Option.map_eq_some_iff.mp h
  obtain ⟨rfl, rfl⟩ := Prod.mk.inj heq
  exact ⟨a, ho, rfl⟩

lemma sound_readScalar : Sound readScalar := by
  intro text s rest h
  rcases readScalar_cases h with ⟨s', heq, hvalid⟩ | hnumber | hfloat
  · obtain rfl : s = s' := Json.string.inj heq
    exact hvalid
  · cases hnumber
  · cases hfloat

lemma sound_readValue (depth : ℕ) : Sound (readValue depth) := by
  intro text s rest h
  cases depth with
  | zero => exact sound_readScalar text s rest h
  | succ depth =>
    rw [readValue] at h
    split_ifs at h
    · obtain ⟨_, _, heq⟩ := map_value h
      cases heq
    · obtain ⟨_, _, heq⟩ := map_value h
      cases heq
    · cases readLiteral_eq h
    · cases readLiteral_eq h
    · cases readLiteral_eq h
    · exact sound_readScalar text s rest h

lemma readValue_object {depth : ℕ} {text rest : Bytes} {members : Members}
    (h : readValue (depth + 1) text = some (.object members, rest)) :
    readObject (readValue depth) text = some (members, rest) := by
  rw [readValue] at h
  split_ifs at h
  · obtain ⟨_, hread, heq⟩ := map_value h
    obtain rfl := Json.object.inj heq
    exact hread
  · obtain ⟨_, _, heq⟩ := map_value h
    cases heq
  · cases readLiteral_eq h
  · cases readLiteral_eq h
  · cases readLiteral_eq h
  · rcases readScalar_cases h with ⟨_, heq, _⟩ | heq | heq <;> cases heq

lemma readMembers_utf8 {read : Bytes → Option (Json × Bytes)} (hread : Sound read) {n : ℕ} {text rest : Bytes}
    {members : Members} (h : readMembers read n text = some (members, rest)) {key s : Bytes}
    (hmem : (key, Json.string s) ∈ members) : validUtf8 s = true := by
  induction n generalizing text members rest with
  | zero => cases h
  | succ n ih =>
    simp only [readMembers, Option.bind_eq_bind, Option.bind_eq_some_iff] at h
    obtain ⟨⟨member, rest₁⟩, hmember, h⟩ := h
    have hhead : member = (key, Json.string s) → validUtf8 s = true := by
      rintro rfl
      simp only [readMember, Option.bind_eq_bind, Option.bind_eq_some_iff, Option.pure_def, Option.some.injEq] at hmember
      obtain ⟨_, _, ⟨_, _⟩, _, _, _, ⟨value, _⟩, hvalue, heq⟩ := hmember
      obtain rfl : value = .string s := congrArg (fun r => r.1.2) heq
      exact hread _ _ _ hvalue
    dsimp only at h
    split at h
    · obtain ⟨⟨rest', _⟩, hr, heq⟩ := Option.map_eq_some_iff.mp h
      obtain rfl : member :: rest' = members := congrArg Prod.fst heq
      rcases List.mem_cons.mp hmem with rfl | hmem
      · exact hhead rfl
      · exact ih hr hmem
    · obtain ⟨r, _, heq⟩ := Option.map_eq_some_iff.mp h
      obtain rfl : [member] = members := congrArg Prod.fst heq
      exact hhead (List.mem_singleton.mp hmem).symm

lemma parse_utf8 (text : Bytes) (members : Members) (key s : Bytes) (h : parse text = some (.object members))
    (hs : members.lookup key = some (.string s)) : validUtf8 s = true := by
  obtain ⟨l₁, l₂, hl, _⟩ := List.lookup_eq_some_iff.mp hs
  have hmem : (key, Json.string s) ∈ members := by
    rw [hl]
    simp
  unfold parse at h
  split at h
  · next value rest hread =>
    split at h
    · obtain rfl : value = .object members := Option.some.inj h
      have hobject := readValue_object hread
      simp only [readObject, Option.bind_eq_bind, Option.bind_eq_some_iff] at hobject
      obtain ⟨rest', _, hobject⟩ := hobject
      split at hobject
      · obtain rfl : [] = members := congrArg Prod.fst (Option.some.inj hobject)
        cases hmem
      · exact readMembers_utf8 (sound_readValue _) hobject hmem
    · cases h
  · cases h

def library : JsonLibrary where
  parse := parse
  dump := dump
  dump_isSome := dump_isSome
  parse_dump := fun members text tail _ => parse_dump members text tail
  parse_utf8 := parse_utf8

lemma length_quote (s : Bytes) : (quote s).length ≤ 6 * s.length + 2 := by
  have hescape : ∀ b : UInt8, (escape b).length ≤ 6 := by
    intro b
    unfold escape
    split
    · simp
    · split
      · exact le_of_eq (by simp [ascii, hexOfByte])
      · simp
  have hbody : (s.flatMap escape).length ≤ 6 * s.length := by
    induction s with
    | nil => simp
    | cons b s ih =>
      have hb := hescape b
      simp only [List.flatMap_cons, List.length_append, List.length_cons]
      omega
  simp only [quote, List.length_cons, List.length_append, List.length_nil]
  omega

lemma length_dumpScalar (s : Scalar) : (dumpScalar s).length ≤ s.width := by
  have hdigits : ∀ n e : ℕ, 0 < e → n < 10 ^ e → ((Nat.toDigits 10 n).map byte).length ≤ e := by
    intro n e he hn
    rw [List.length_map]
    exact Nat.toDigits_length 10 n e he hn
  cases s with
  | string s => exact length_quote s
  | integer n =>
    have hlow := n.le_toInt
    have hhigh := n.toInt_lt
    simp only [dumpScalar, decimal, Scalar.width]
    split
    · have := hdigits n.toInt.natAbs 19 (by decide) (by omega)
      rw [List.length_cons]
      omega
    · have := hdigits n.toInt.natAbs 19 (by decide) (by omega)
      omega
  | unsigned n =>
    have hhigh := n.toNat_lt
    have hpos : ¬(n.toNat : ℤ) < 0 := by omega
    simp only [dumpScalar, decimal, Scalar.width, if_neg hpos]
    exact hdigits _ 20 (by decide) (by simp; omega)

lemma length_dumpMembers_le (members : List (Bytes × Scalar)) :
    (dumpMembers members).length ≤ (members.map (fun m => 6 * m.1.length + 8 + m.2.width)).sum := by
  have hmember : ∀ m : Bytes × Scalar, (dumpMember m).length + 1 ≤ 6 * m.1.length + 8 + m.2.width := by
    intro m
    have hkey := length_quote m.1
    have hvalue := length_dumpScalar m.2
    simp only [dumpMember, List.length_append, show (ascii "\n  ").length = 3 from rfl,
      show (ascii ": ").length = 2 from rfl]
    omega
  induction members with
  | nil => simp [dumpMembers]
  | cons m ms ih =>
    have hm := hmember m
    cases ms with
    | nil =>
      simp only [dumpMembers, List.map_cons, List.map_nil, List.sum_cons, List.sum_nil]
      omega
    | cons m' ms =>
      simp only [dumpMembers, List.length_append, List.length_cons, List.map_cons, List.sum_cons] at ih ⊢
      omega

lemma concise_library : library.Concise where
  length_dump members text htext := by
    obtain rfl : dumpObject members = text := by
      simp only [library, dump] at htext
      split at htext
      · exact Option.some.inj htext
      · exact absurd htext (by simp)
    have hmembers := length_dumpMembers_le members
    unfold dumpObject
    split
    · simp only [List.length_cons, List.length_nil]
      omega
    · simp only [List.length_cons, List.length_append, List.length_nil]
      omega

lemma parse_of_same {text : Bytes} {v : Json} (h : (parse text).any (·.same v) = true) :
    library.parse text = some v := by
  cases hparsed : parse text with
  | none =>
    rw [hparsed] at h
    exact absurd h Bool.false_ne_true
  | some v' =>
    rw [hparsed] at h
    rw [← Json.eq_of_same h]
    exact hparsed

end NsxManager.Core.JsonCodec
