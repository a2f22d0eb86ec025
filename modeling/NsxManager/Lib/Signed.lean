import Mathlib.Algebra.Order.Ring.Int
import Mathlib.Tactic.Common

/-! Signed words whose sums, differences and products are refused where they do not fit. -/

namespace NsxManager.Lib.Signed

def Fits (n : ℤ) : Prop := -0x8000000000000000 ≤ n ∧ n ≤ 0x7fffffffffffffff

def add (x y : Int64) : Option Int64 := if x.toBitVec.saddOverflow y.toBitVec then none else some (x + y)

def sub (x y : Int64) : Option Int64 := if x.toBitVec.ssubOverflow y.toBitVec then none else some (x - y)

def mul (x y : Int64) : Option Int64 := if x.toBitVec.smulOverflow y.toBitVec then none else some (x * y)

variable {x y : Int64}

lemma bmod_of_fits {n : ℤ} (h : Fits n) : n.bmod (2 ^ 64) = n := by
  obtain ⟨hlow, hhigh⟩ := h
  exact Int.bmod_eq_of_le (by omega) (by omega)

lemma toInt_add (h : Fits (x.toInt + y.toInt)) : (x + y).toInt = x.toInt + y.toInt := by
  rw [Int64.toInt_add, bmod_of_fits h]

lemma toInt_sub (h : Fits (x.toInt - y.toInt)) : (x - y).toInt = x.toInt - y.toInt := by
  rw [Int64.toInt_sub, bmod_of_fits h]

lemma toInt_mul (h : Fits (x.toInt * y.toInt)) : (x * y).toInt = x.toInt * y.toInt := by
  rw [Int64.toInt_mul, bmod_of_fits h]

lemma add_eq_some (h : Fits (x.toInt + y.toInt)) : add x y = some (x + y) := by
  obtain ⟨hlow, hhigh⟩ := h
  refine if_neg ?_
  simp only [BitVec.saddOverflow, Int64.toInt_toBitVec, Bool.or_eq_true, decide_eq_true_eq, not_or]
  omega

lemma sub_eq_some (h : Fits (x.toInt - y.toInt)) : sub x y = some (x - y) := by
  obtain ⟨hlow, hhigh⟩ := h
  refine if_neg ?_
  simp only [BitVec.ssubOverflow, Int64.toInt_toBitVec, Bool.or_eq_true, decide_eq_true_eq, not_or]
  omega

lemma mul_eq_some (h : Fits (x.toInt * y.toInt)) : mul x y = some (x * y) := by
  obtain ⟨hlow, hhigh⟩ := h
  refine if_neg ?_
  simp only [BitVec.smulOverflow, Int64.toInt_toBitVec, Bool.or_eq_true, decide_eq_true_eq, not_or]
  omega

lemma toInt_toInt64 {u : UInt64} (h : (u.toNat : ℤ) ≤ 0x7fffffffffffffff) : u.toInt64.toInt = u.toNat := by
  have hword : u.toInt64.toInt = (u.toNat : ℤ).bmod (2 ^ 64) := BitVec.toInt_eq_toNat_bmod u.toBitVec
  rw [hword, bmod_of_fits ⟨by omega, h⟩]

lemma toNat_toUInt64 (h : 0 ≤ x.toInt) : (x.toUInt64.toNat : ℤ) = x.toInt := by
  rw [Int64.toNat_toUInt64_of_le (Int64.le_iff_toInt_le.mpr h), Int64.toNatClampNeg, Int.toNat_of_nonneg h]

end NsxManager.Lib.Signed
