import NsxManager.Core.Text

/-! Streaming SHA-256 and the hexadecimal spelling of its digests. -/

namespace NsxManager.Core

abbrev Digest := Vector UInt8 32

namespace Sha256

def kRoundConstants : List UInt32 :=
  [0x428a2f98, 0x71374491, 0xb5c0fbcf, 0xe9b5dba5, 0x3956c25b, 0x59f111f1, 0x923f82a4, 0xab1c5ed5,
   0xd807aa98, 0x12835b01, 0x243185be, 0x550c7dc3, 0x72be5d74, 0x80deb1fe, 0x9bdc06a7, 0xc19bf174,
   0xe49b69c1, 0xefbe4786, 0x0fc19dc6, 0x240ca1cc, 0x2de92c6f, 0x4a7484aa, 0x5cb0a9dc, 0x76f988da,
   0x983e5152, 0xa831c66d, 0xb00327c8, 0xbf597fc7, 0xc6e00bf3, 0xd5a79147, 0x06ca6351, 0x14292967,
   0x27b70a85, 0x2e1b2138, 0x4d2c6dfc, 0x53380d13, 0x650a7354, 0x766a0abb, 0x81c2c92e, 0x92722c85,
   0xa2bfe8a1, 0xa81a664b, 0xc24b8b70, 0xc76c51a3, 0xd192e819, 0xd6990624, 0xf40e3585, 0x106aa070,
   0x19a4c116, 0x1e376c08, 0x2748774c, 0x34b0bcb5, 0x391c0cb3, 0x4ed8aa4a, 0x5b9cca4f, 0x682e6ff3,
   0x748f82ee, 0x78a5636f, 0x84c87814, 0x8cc70208, 0x90befffa, 0xa4506ceb, 0xbef9a3f7, 0xc67178f2]

structure State where
  a : UInt32
  b : UInt32
  c : UInt32
  d : UInt32
  e : UInt32
  f : UInt32
  g : UInt32
  h : UInt32
  deriving DecidableEq

def kInitialState : State :=
  ⟨0x6a09e667, 0xbb67ae85, 0x3c6ef372, 0xa54ff53a, 0x510e527f, 0x9b05688c, 0x1f83d9ab, 0x5be0cd19⟩

def rotr (x n : UInt32) : UInt32 := (x >>> n) ||| (x <<< (32 - n))
def ch (x y z : UInt32) : UInt32 := (x &&& y) ^^^ (~~~x &&& z)
def maj (x y z : UInt32) : UInt32 := (x &&& y) ^^^ (x &&& z) ^^^ (y &&& z)
def bigSigma0 (x : UInt32) : UInt32 := rotr x 2 ^^^ rotr x 13 ^^^ rotr x 22
def bigSigma1 (x : UInt32) : UInt32 := rotr x 6 ^^^ rotr x 11 ^^^ rotr x 25
def smallSigma0 (x : UInt32) : UInt32 := rotr x 7 ^^^ rotr x 18 ^^^ (x >>> 3)
def smallSigma1 (x : UInt32) : UInt32 := rotr x 17 ^^^ rotr x 19 ^^^ (x >>> 10)

def loadBigEndian (p : Bytes) : UInt32 :=
  ((p.getD 0 0).toUInt32 <<< 24) ||| ((p.getD 1 0).toUInt32 <<< 16) |||
    ((p.getD 2 0).toUInt32 <<< 8) ||| (p.getD 3 0).toUInt32

/-- The message schedule, latest word first. -/
def extend : ℕ → List UInt32 → List UInt32
  | 0, w => w
  | n + 1, w =>
    extend n ((smallSigma1 (w.getD 1 0) + w.getD 6 0 + smallSigma0 (w.getD 14 0) + w.getD 15 0) :: w)

def schedule (block : Bytes) : List UInt32 :=
  (extend 48 ((List.range 16).map (fun i => loadBigEndian (block.drop (i * 4)))).reverse).reverse

def round (s : State) (kw : UInt32 × UInt32) : State :=
  let t1 := s.h + bigSigma1 s.e + ch s.e s.f s.g + kw.1 + kw.2
  let t2 := bigSigma0 s.a + maj s.a s.b s.c
  ⟨t1 + t2, s.a, s.b, s.c, s.d + t1, s.e, s.f, s.g⟩

def compress (s : State) (block : Bytes) : State :=
  let r := (kRoundConstants.zip (schedule block)).foldl round s
  ⟨s.a + r.a, s.b + r.b, s.c + r.c, s.d + r.d, s.e + r.e, s.f + r.f, s.g + r.g, s.h + r.h⟩

end Sha256

/-- `buffer` is the used part of `m_buffer`. -/
structure Sha256 where
  state : Sha256.State
  buffer : Bytes
  bitCount : UInt64
  finished : Bool

namespace Sha256

def reset : Sha256 := ⟨kInitialState, [], 0, false⟩

/-- The `while (size >= 64)` loop, with the number of whole blocks. -/
def absorb : ℕ → State → Bytes → State × Bytes
  | 0, s, p => (s, p)
  | n + 1, s, p => absorb n (compress s (p.take 64)) (p.drop 64)

def topUp (s : Sha256) (p : Bytes) : Sha256 × Bytes :=
  if 0 < s.buffer.length then
    let take := min p.length (64 - s.buffer.length)
    let filled := s.buffer ++ p.take take
    if filled.length = 64 then
      ({ s with state := compress s.state filled, buffer := [] }, p.drop take)
    else ({ s with buffer := filled }, p.drop take)
  else (s, p)

def update (s : Sha256) (data : Bytes) : Sha256 :=
  if s.finished ∨ data.length = 0 then s
  else
    let topped := topUp { s with bitCount := s.bitCount + data.length.toUInt64 * 8 } data
    let absorbed := absorb (topped.2.length / 64) topped.1.state topped.2
    if 0 < absorbed.2.length then { topped.1 with state := absorbed.1, buffer := absorbed.2 }
    else { topped.1 with state := absorbed.1 }

/-- The `while (m_bufferUsed != 56)` loop; a block has 64 bytes, so 64 rounds suffice. -/
def padZeros (bits : UInt64) : ℕ → Sha256 → Sha256
  | 0, s => s
  | n + 1, s =>
    if s.buffer.length = 56 then s else padZeros bits n { s.update [0] with bitCount := bits }

def lengthBytes (bits : UInt64) : Bytes :=
  (List.range 8).map (fun i => ((bits >>> ((7 - i) * 8).toUInt64) &&& 0xff).toUInt8)

def close (s : Sha256) : Sha256 :=
  if s.finished then s
  else
    let bits := s.bitCount
    let padded := padZeros bits 64 { s.update [0x80] with bitCount := bits }
    { padded with
      state := compress padded.state (padded.buffer ++ lengthBytes bits), buffer := [],
      finished := true }

def wordBytes (w : UInt32) : Bytes :=
  [(w >>> 24).toUInt8, (w >>> 16).toUInt8, (w >>> 8).toUInt8, w.toUInt8]

def State.words (s : State) : List UInt32 := [s.a, s.b, s.c, s.d, s.e, s.f, s.g, s.h]

def State.digest (s : State) : Digest :=
  ⟨(s.words.flatMap wordBytes).toArray, by simp [State.words, wordBytes]⟩

def finish (s : Sha256) : Digest × Sha256 := (s.close.state.digest, s.close)

def of (data : Bytes) : Digest := (reset.update data).finish.1

end Sha256

def kHexDigits : Bytes := ascii "0123456789abcdef"

def hexOfByte (b : UInt8) : Bytes :=
  [kHexDigits.getD (b >>> 4).toNat 0, kHexDigits.getD (b &&& 0x0f).toNat 0]

def toHex (d : Digest) : Bytes := d.toList.flatMap hexOfByte

def hexDigit (c : UInt8) : Option UInt8 :=
  if byte '0' ≤ c ∧ c ≤ byte '9' then some (c - byte '0')
  else if byte 'a' ≤ c ∧ c ≤ byte 'f' then some (c - byte 'a' + 10)
  else none

def hexPairs : Bytes → Option Bytes
  | c :: c' :: rest => do
    let high ← hexDigit c
    let low ← hexDigit c'
    let value := (high <<< 4) ||| low
    let values ← hexPairs rest
    return value :: values
  | _ => some []

def fromHex (hex : Bytes) : Option Digest :=
  if hex.length ≠ 64 then none
  else do
    let out ← hexPairs hex
    if h : out.toArray.size = 32 then return ⟨out.toArray, h⟩ else none

lemma hexPairs_hexOfByte (b : UInt8) (rest : Bytes) :
    hexPairs (hexOfByte b ++ rest) = (hexPairs rest).map (b :: ·) := by
  have h : ∀ n : Fin 256,
      hexDigit (kHexDigits.getD (UInt8.ofNat n >>> 4).toNat 0) = some (UInt8.ofNat n >>> 4) ∧
      hexDigit (kHexDigits.getD (UInt8.ofNat n &&& 0x0f).toNat 0) = some (UInt8.ofNat n &&& 0x0f) ∧
      (UInt8.ofNat n >>> 4) <<< 4 ||| (UInt8.ofNat n &&& 0x0f) = UInt8.ofNat n := by
    decide +kernel
  have hb := h ⟨b.toNat, b.toNat_lt⟩
  simp only [UInt8.ofNat_toNat] at hb
  obtain ⟨hhigh, hlow, hvalue⟩ := hb
  simp only [hexOfByte, List.cons_append, List.nil_append, hexPairs, hhigh, hlow]
  cases hexPairs rest <;> simp [hvalue]

lemma hexPairs_flatMap (l : Bytes) : hexPairs (l.flatMap hexOfByte) = some l := by
  induction l with
  | nil => rfl
  | cons b l ih => simp [List.flatMap_cons, hexPairs_hexOfByte, ih]

lemma fromHex_toHex (d : Digest) : fromHex (toHex d) = some d := by
  have hlen : (toHex d).length = 64 := by simp [toHex, hexOfByte, List.length_flatMap]
  have hpairs : hexPairs (toHex d) = some d.toList := hexPairs_flatMap _
  simp only [fromHex, hlen, hpairs]
  simp [← Vector.toArray_toList]

lemma hexOfByte_of_hexDigit {c c' high low : UInt8} (hhigh : hexDigit c = some high) (hlow : hexDigit c' = some low) :
    hexOfByte ((high <<< 4) ||| low) = [c, c'] := by
  -- a digit that is read is the digit its value is written as
  have hdigits : kHexDigits = [48, 49, 50, 51, 52, 53, 54, 55, 56, 57, 97, 98, 99, 100, 101, 102] := by decide +kernel
  have hread : ∀ n : Fin 256, ∀ v ∈ hexDigit (UInt8.ofNat n), v < 16 ∧ kHexDigits.getD v.toNat 0 = UInt8.ofNat n := by
    rw [hdigits]
    decide +kernel
  have hhalves : ∀ m n : Fin 16, (UInt8.ofNat m <<< 4 ||| UInt8.ofNat n) >>> 4 = UInt8.ofNat m ∧
      (UInt8.ofNat m <<< 4 ||| UInt8.ofNat n) &&& 0x0f = UInt8.ofNat n := by
    decide +kernel
  have hdigit : ∀ {c v}, hexDigit c = some v → v < 16 ∧ kHexDigits.getD v.toNat 0 = c := by
    intro c v hv
    have hc := hread ⟨c.toNat, c.toNat_lt⟩ v
    simp only [UInt8.ofNat_toNat] at hc
    exact hc hv
  obtain ⟨hsmall, hwritten⟩ := hdigit hhigh
  obtain ⟨hsmall', hwritten'⟩ := hdigit hlow
  have hboth := hhalves ⟨high.toNat, hsmall⟩ ⟨low.toNat, hsmall'⟩
  simp only [UInt8.ofNat_toNat] at hboth
  rw [hexOfByte, hboth.1, hboth.2, hwritten, hwritten']

lemma flatMap_of_hexPairs {hex out : Bytes} (heven : hex.length % 2 = 0) (h : hexPairs hex = some out) :
    out.flatMap hexOfByte = hex := by
  induction hex using hexPairs.induct generalizing out with
  | case1 c c' rest ih =>
    simp only [hexPairs, Option.bind_eq_bind, Option.bind_eq_some_iff] at h
    obtain ⟨high, hhigh, low, hlow, values, hvalues, hout⟩ := h
    obtain rfl := Option.some.inj hout
    have hrest : rest.length % 2 = 0 := by
      simp only [List.length_cons] at heven
      omega
    rw [List.flatMap_cons, hexOfByte_of_hexDigit hhigh hlow, ih hrest hvalues]
    rfl
  | case2 hex hshort =>
    rcases hex with _ | ⟨c, _ | ⟨c', rest⟩⟩
    · obtain rfl := Option.some.inj h
      rfl
    · cases heven
    · exact absurd rfl (hshort c c' rest)

theorem digests_have_one_spelling (s : Bytes) (d : Digest) : fromHex s = some d ↔ s = toHex d := by
  refine ⟨fun h => ?_, fun h => h ▸ fromHex_toHex d⟩
  have hlen : s.length = 64 := by
    by_contra hlen
    rw [fromHex, if_pos hlen] at h
    cases h
  rw [fromHex, if_neg (not_not.mpr hlen)] at h
  obtain ⟨out, hout, hdigest⟩ := Option.bind_eq_some_iff.mp h
  rw [toHex]
  split at hdigest
  · obtain rfl := Option.some.inj hdigest
    rw [Vector.toList_mk, List.toList_toArray, flatMap_of_hexPairs (by omega) hout]
  · cases hdigest

lemma toHex_ascii (d : Digest) : ∀ c ∈ toHex d, c < 0x80 := by
  have hdigit : ∀ n, kHexDigits.getD n 0 < 0x80 := by
    intro n
    by_cases hn : n < 16
    · have h : ∀ m : Fin 16, kHexDigits.getD m 0 < 0x80 := by decide
      exact h ⟨n, hn⟩
    · rw [List.getD_eq_getElem?_getD, List.getElem?_eq_none (by simpa [kHexDigits, ascii] using hn)]
      decide
  intro c hc
  obtain ⟨b, _, hcb⟩ := List.mem_flatMap.mp hc
  simp only [hexOfByte, List.mem_cons, List.not_mem_nil, or_false] at hcb
  rcases hcb with rfl | rfl <;> exact hdigit _

/-- Accumulates the differences and tests once. -/
def digestsEqual (a b : Digest) : Bool :=
  (List.zipWith (fun x y => x ^^^ y) a.toList b.toList).foldl (fun diff x => diff ||| x) 0 == 0

lemma foldl_or_eq_zero (l : List UInt8) (diff : UInt8) :
    l.foldl (fun diff x => diff ||| x) diff = 0 ↔ diff = 0 ∧ ∀ x ∈ l, x = 0 := by
  induction l generalizing diff with
  | nil => simp
  | cons x l ih => simp [ih, UInt8.or_eq_zero_iff, and_assoc]

lemma digestsEqual_iff (a b : Digest) : digestsEqual a b = true ↔ a = b := by
  simp only [digestsEqual, beq_iff_eq, foldl_or_eq_zero, true_and]
  constructor
  · intro h
    apply Vector.toList_inj.mp
    apply List.ext_getElem (by simp)
    intro i hi hi'
    apply UInt8.xor_eq_zero_iff.mp
    exact h _ (List.mem_iff_getElem.mpr ⟨i, by simpa using hi, by simp⟩)
  · rintro rfl x hx
    obtain ⟨i, hi, rfl⟩ := List.mem_iff_getElem.mp hx
    rw [List.getElem_zipWith, UInt8.xor_self]

end NsxManager.Core
