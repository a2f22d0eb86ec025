import Mathlib.Algebra.Group.Nat.Defs
import Mathlib.Data.Nat.NthRoot.Defs
import Mathlib.Tactic.Common

/-! SHA-256 as FIPS 180-4 defines it, for messages of whole bytes. -/

namespace NsxManager.Lib.Fips180

abbrev Word := BitVec 32

section Functions

variable (x y z : Word)

def ch : Word := (x &&& y) ^^^ (~~~x &&& z)
def maj : Word := (x &&& y) ^^^ (x &&& z) ^^^ (y &&& z)
def bigSigma0 : Word := x.rotateRight 2 ^^^ x.rotateRight 13 ^^^ x.rotateRight 22
def bigSigma1 : Word := x.rotateRight 6 ^^^ x.rotateRight 11 ^^^ x.rotateRight 25
def smallSigma0 : Word := x.rotateRight 7 ^^^ x.rotateRight 18 ^^^ (x >>> 3)
def smallSigma1 : Word := x.rotateRight 17 ^^^ x.rotateRight 19 ^^^ (x >>> 10)

end Functions

def primes : List ℕ :=
  (List.range 312).filter (fun n => decide (2 ≤ n) && (List.range n).all (fun d => decide (d < 2) || n % d != 0))

/-- The first 32 bits of the fractional part of a root. -/
def rootFraction (n p : ℕ) : Word := BitVec.ofNat 32 (Nat.nthRoot n (p * 2 ^ (32 * n)))

/-- From the cube roots of the first sixty-four primes. -/
def constants : List Word := primes.map (rootFraction 3)

structure Vars where
  a : Word
  b : Word
  c : Word
  d : Word
  e : Word
  f : Word
  g : Word
  h : Word

/-- From the square roots of the first eight primes. -/
def initial : Vars where
  a := rootFraction 2 2
  b := rootFraction 2 3
  c := rootFraction 2 5
  d := rootFraction 2 7
  e := rootFraction 2 11
  f := rootFraction 2 13
  g := rootFraction 2 17
  h := rootFraction 2 19

def schedule (m : ℕ → Word) (t : ℕ) : Word :=
  if t < 16 then m t
  else smallSigma1 (schedule m (t - 2)) + schedule m (t - 7) + smallSigma0 (schedule m (t - 15)) + schedule m (t - 16)
termination_by t
decreasing_by all_goals omega

def round (v : Vars) (k w : Word) : Vars :=
  let t1 := v.h + bigSigma1 v.e + ch v.e v.f v.g + k + w
  let t2 := bigSigma0 v.a + maj v.a v.b v.c
  ⟨t1 + t2, v.a, v.b, v.c, v.d + t1, v.e, v.f, v.g⟩

def rounds (w : ℕ → Word) (v : Vars) : ℕ → Vars
  | 0 => v
  | t + 1 => round (rounds w v t) (constants.getD t 0) (w t)

def wordAt (block : List UInt8) (i : ℕ) : Word :=
  let byte := fun j => (block.getD (4 * i + j) 0).toBitVec
  byte 0 ++ byte 1 ++ byte 2 ++ byte 3

def compress (v : Vars) (block : List UInt8) : Vars :=
  let r := rounds (schedule (wordAt block)) v 64
  ⟨v.a + r.a, v.b + r.b, v.c + r.c, v.d + r.d, v.e + r.e, v.f + r.f, v.g + r.g, v.h + r.h⟩

/-- The bytes of a bit string, its first bits first. -/
def bytesOf (n : ℕ) (x : BitVec (8 * n)) : List UInt8 :=
  (List.range n).map (fun i => ⟨x.extractLsb' (8 * (n - 1 - i)) 8⟩)

/-- The smallest number of zero bits that brings a message of `l` bits and a one to 448 bits modulo 512. -/
def zeroBits (l : ℕ) : ℕ := (448 + 512 - (l + 1) % 512) % 512

/-- A one, zeros, and the length in bits, which the standard has below `2 ^ 64`; seven of the zeros share a byte
with the one. -/
def pad (message : List UInt8) : List UInt8 :=
  message ++ 0x80 :: (List.replicate (zeroBits (8 * message.length) / 8) 0 ++
    bytesOf 8 (BitVec.ofNat 64 (8 * message.length)))

def hashBlocks : ℕ → Vars → List UInt8 → Vars
  | 0, v, _ => v
  | n + 1, v, p => hashBlocks n (compress v (p.take 64)) (p.drop 64)

def Vars.words (v : Vars) : List Word := [v.a, v.b, v.c, v.d, v.e, v.f, v.g, v.h]

def sha256 (message : List UInt8) : List UInt8 :=
  (hashBlocks ((pad message).length / 64) initial (pad message)).words.flatMap (bytesOf 4)

end NsxManager.Lib.Fips180
