import Mathlib.Data.List.Infix
import Mathlib.Tactic.Common

/-! Byte strings, as `std::string` holds them. -/

namespace NsxManager.Core

abbrev Bytes := List UInt8

/-- Whether a name is among others is decided with this instance everywhere. -/
instance : LawfulBEq Bytes := inferInstance

def byte (c : Char) : UInt8 := c.toNat.toUInt8

def ascii (s : String) : Bytes := s.toList.map byte

/-- `std::to_string` -/
def decimal (n : Int) : Bytes :=
  if n < 0 then byte '-' :: (Nat.toDigits 10 n.natAbs).map byte
  else (Nat.toDigits 10 n.natAbs).map byte

/-- `text.find(part) != npos` -/
def contains (text part : Bytes) : Bool := decide (part <:+: text)

def parentOf (path : Bytes) : Bytes :=
  ((path.reverse.dropWhile (fun c => c != byte '/')).drop 1).reverse

lemma append_ne_append {x y : Bytes} (hx : x ≠ []) (hy : y ≠ []) (h : x.getLast? ≠ y.getLast?)
    (a b : Bytes) : a ++ x ≠ b ++ y := by
  intro heq
  have hlast := congrArg List.getLast? heq
  rw [List.getLast?_append_of_ne_nil _ hx, List.getLast?_append_of_ne_nil _ hy] at hlast
  exact h hlast

end NsxManager.Core
