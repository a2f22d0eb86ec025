import NsxManager.Core.Text
import Mathlib.Tactic

/-! Semantic versions: their text, and the order between them. -/

namespace NsxManager.Core

inductive SemVerError where
  | empty
  | missingMinor
  | missingPatch
  | nonNumericField
  | leadingZero
  | numericOverflow
  | invalidPrerelease
  | invalidBuild
  | trailingGarbage
  deriving DecidableEq

structure SemVer where
  major : UInt32 := 0
  minor : UInt32 := 0
  patch : UInt32 := 0
  prerelease : Bytes := []
  build : Bytes := []
  deriving DecidableEq

namespace SemVer

def toString (v : SemVer) : Bytes :=
  decimal v.major.toNat ++ ascii "." ++ decimal v.minor.toNat ++ ascii "." ++ decimal v.patch.toNat ++
    (if v.prerelease.isEmpty then [] else ascii "-" ++ v.prerelease) ++
    (if v.build.isEmpty then [] else ascii "+" ++ v.build)

def isDigit (c : UInt8) : Bool := byte '0' ≤ c && c ≤ byte '9'

def isIdentifierChar (c : UInt8) : Bool :=
  isDigit c || (byte 'a' ≤ c && c ≤ byte 'z') || (byte 'A' ≤ c && c ≤ byte 'Z') || c == byte '-'

def isNumericIdentifier (s : Bytes) : Bool := !s.isEmpty && s.all isDigit

/-- The digits after those already in `acc`, which is checked after each of them. -/
def accumulate : UInt64 → Bytes → Except SemVerError UInt32
  | acc, [] => .ok acc.toUInt32
  | acc, c :: text =>
    if 0xffffffff < acc * 10 + (c - byte '0').toUInt64 then .error .numericOverflow
    else accumulate (acc * 10 + (c - byte '0').toUInt64) text

def parseNumber (text : Bytes) : Except SemVerError UInt32 :=
  if !isNumericIdentifier text then .error .nonNumericField
  else if 1 < text.length && text.head? == some (byte '0') then .error .leadingZero
  else accumulate 0 text

def split (s : Bytes) (sep : UInt8) : List Bytes := s.splitOn sep

def isValidDotSeparated (s : Bytes) : Bool :=
  !s.isEmpty && (split s (byte '.')).all (fun part => !part.isEmpty && part.all isIdentifierChar)

def suffixField (sep : UInt8) (invalid : SemVerError) (text : Bytes) :
    Except SemVerError (Bytes × Bytes) :=
  if sep ∈ text then
    if isValidDotSeparated ((text.dropWhile (· != sep)).drop 1) then
      .ok (text.takeWhile (· != sep), (text.dropWhile (· != sep)).drop 1)
    else .error invalid
  else .ok (text, [])

def coreFields (prerelease build : Bytes) : List Bytes → Except SemVerError SemVer
  | [] | [_] => .error .missingMinor
  | [_, _] => .error .missingPatch
  | [major, minor, patch] => do
    let major ← parseNumber major
    let minor ← parseNumber minor
    let patch ← parseNumber patch
    return { major, minor, patch, prerelease, build }
  | _ => .error .trailingGarbage

def stripV (text : Bytes) : Bytes :=
  if text.head? = some (byte 'v') ∨ text.head? = some (byte 'V') then text.drop 1 else text

/-- Numbers of the same length compare as texts. -/
def compareIdentifier (left right : Bytes) : Ordering :=
  if isNumericIdentifier left && isNumericIdentifier right then
    (Ord.compare left.length right.length).then (Ord.compare left right)
  else if isNumericIdentifier left != isNumericIdentifier right then
    if isNumericIdentifier left then .lt else .gt
  else Ord.compare left right

def compareIdentifiers : List Bytes → List Bytes → Ordering
  | l :: left, r :: right => (compareIdentifier l r).then (compareIdentifiers left right)
  | left, right => Ord.compare left.length right.length

def comparePrerelease (a b : Bytes) : Ordering :=
  if a.isEmpty && b.isEmpty then .eq
  else if a.isEmpty then .gt
  else if b.isEmpty then .lt
  else compareIdentifiers (split a (byte '.')) (split b (byte '.'))

def compare (a b : SemVer) : Ordering :=
  (Ord.compare a.major b.major).then <| (Ord.compare a.minor b.minor).then <|
    (Ord.compare a.patch b.patch).then (comparePrerelease a.prerelease b.prerelease)

def isNewerThan (candidate current : SemVer) : Bool := (compare candidate current).isGT

end SemVer

/-- Build metadata may contain hyphens, so it is cut off first. -/
def parseSemVer (text : Bytes) : Except SemVerError SemVer :=
  if (SemVer.stripV text).isEmpty then .error .empty
  else do
    let (text, build) ← SemVer.suffixField (byte '+') .invalidBuild (SemVer.stripV text)
    let (text, prerelease) ← SemVer.suffixField (byte '-') .invalidPrerelease text
    SemVer.coreFields prerelease build (SemVer.split text (byte '.'))

def SemVer.leadingRun (text : Bytes) : Bytes :=
  ((text.takeWhile (fun c => isDigit c || c == byte '.')).reverse.dropWhile (· == byte '.')).reverse

/-- Leading zeros are tolerated here. -/
def SemVer.lenientNumber (part : Bytes) : Option UInt32 :=
  if isNumericIdentifier part then (accumulate 0 part).toOption else none

def tryParseSemVer (text : Bytes) : Option SemVer :=
  match parseSemVer text with
  | .ok version => some version
  | .error _ =>
    let run := SemVer.leadingRun (SemVer.stripV text)
    if (run.head?.map SemVer.isDigit).getD false then do
      let numbers ← ((SemVer.split run (byte '.')).take 3).mapM SemVer.lenientNumber
      return { major := numbers.getD 0 0, minor := numbers.getD 1 0, patch := numbers.getD 2 0 }
    else none

end NsxManager.Core
