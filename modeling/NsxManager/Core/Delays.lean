import Mathlib.Algebra.Order.Ring.Int
import NsxManager.Core.Backoff
import NsxManager.Lib.Signed

/-! How long a failing endpoint is left alone, in words that do not wrap. -/

namespace NsxManager.Core

open Lib

namespace Exact

/-! The delay with every difference, product and sum of it refused that does not fit its word. -/

def growCapped (value : Int64) : ℕ → Int64 → Option Int64
  | 0, cap => some (if cap < value then cap else value)
  | steps + 1, cap => do
    let room ← Signed.sub cap value
    if room ≤ value then return cap
    else
      let doubled ← Signed.mul value 2
      growCapped doubled steps cap

def jitter (plain span cap : Int64) (jitterSeed : UInt64) : Option Int64 := do
  let doubled ← Signed.mul 2 span
  let offset ← Signed.sub (mix jitterSeed % doubled.toUInt64).toInt64 span
  let jittered ← Signed.add plain offset
  let jittered := if jittered < 1 then 1 else jittered
  return if cap < jittered then cap else jittered

def backoffDelaySeconds (consecutiveFailures : Int32) (policy : BackoffPolicy) (jitterSeed : UInt64) :
    Option Int64 :=
  if consecutiveFailures ≤ 0 then return 0
  else do
    let steps := if 40 < consecutiveFailures then 40 else consecutiveFailures - 1
    let plain ← growCapped policy.base steps.toInt.toNat policy.cap
    let spread := clamp policy.jitterPercent 0 100
    if spread = 0 then return plain
    else
      let product ← Signed.mul plain spread.toInt64
      if product / 100 ≤ 0 then return plain
      else jitter plain (product / 100) policy.cap jitterSeed

end Exact

section Growth

variable {value cap : Int64}

lemma growCapped_exact (steps : ℕ) (hvalue : 1 ≤ value.toInt) (hcap : value.toInt ≤ cap.toInt)
    (hlarge : cap.toInt ≤ 1000000000000000) :
    Exact.growCapped value steps cap = some (growCapped value steps cap) ∧
      (growCapped value steps cap).toInt = min (value.toInt * 2 ^ steps) cap.toInt := by
  induction steps generalizing value with
  | zero =>
    have hle : ¬cap < value := by
      rw [Int64.lt_iff_toInt_lt]
      omega
    refine ⟨rfl, ?_⟩
    rw [growCapped, if_neg hle, pow_zero, mul_one, min_eq_left hcap]
  | succ steps ih =>
    have hroom : Signed.Fits (cap.toInt - value.toInt) := ⟨by omega, by omega⟩
    have hiff : cap - value ≤ value ↔ cap.toInt ≤ value.toInt * 2 := by
      rw [Int64.le_iff_toInt_le, Signed.toInt_sub hroom]
      omega
    have hpow : (1 : ℤ) ≤ 2 ^ steps := one_le_pow₀ (by omega)
    rw [Exact.growCapped, growCapped, Signed.sub_eq_some hroom]
    simp only [Option.bind_eq_bind, Option.bind_some, hiff]
    split
    · next hreached =>
      refine ⟨rfl, (min_eq_right ?_).symm⟩
      calc cap.toInt ≤ value.toInt * 2 := hreached
        _ ≤ value.toInt * 2 ^ (steps + 1) := by
          rw [pow_succ']
          exact mul_le_mul_of_nonneg_left (by omega) (by omega)
    · next hbelow =>
      have hdouble : Signed.Fits (value.toInt * 2) := ⟨by omega, by omega⟩
      have htoInt : (value * 2).toInt = value.toInt * 2 := Signed.toInt_mul hdouble
      obtain ⟨hexact, hgrown⟩ := @ih (value * 2) (by omega) (by omega)
      rw [Signed.mul_eq_some (y := 2) hdouble, Option.bind_some]
      refine ⟨hexact, ?_⟩
      rw [hgrown, htoInt, mul_assoc, ← pow_succ']

end Growth

section Jitter

variable {plain span cap : Int64}

lemma toInt_drawn (seed : UInt64) (hspan : 0 < span.toInt) (hlarge : span.toInt ≤ 1000000000000000) :
    (mix seed % (2 * span).toUInt64).toInt64.toInt = (mix seed).toNat % (2 * span.toInt) := by
  have hfits : Signed.Fits (2 * span.toInt) := ⟨by omega, by omega⟩
  have htoInt : (2 * span).toInt = 2 * span.toInt := Signed.toInt_mul hfits
  have hword := Signed.toNat_toUInt64 (x := 2 * span) (by omega)
  have hmod : ((mix seed % (2 * span).toUInt64).toNat : ℤ) = (mix seed).toNat % (2 * span.toInt) := by
    rw [UInt64.toNat_mod, Int.natCast_emod, hword, htoInt]
  have hlt := Int.emod_lt_of_pos ((mix seed).toNat : ℤ) (b := 2 * span.toInt) (by omega)
  rw [Signed.toInt_toInt64 (by omega), hmod]

lemma jitter_exact (seed : UInt64) (hspan : 0 < span.toInt) (hplain : span.toInt ≤ plain.toInt)
    (hcap : plain.toInt ≤ cap.toInt) (hlarge : cap.toInt ≤ 1000000000000000) :
    Exact.jitter plain span cap seed = some (jitter plain span cap seed) ∧
      (jitter plain span cap seed).toInt =
        min (max (plain.toInt - span.toInt + (mix seed).toNat % (2 * span.toInt)) 1) cap.toInt := by
  have hdrawn := @toInt_drawn span seed hspan (by omega)
  have hlow := Int.emod_nonneg ((mix seed).toNat : ℤ) (b := 2 * span.toInt) (by omega)
  have hhigh := Int.emod_lt_of_pos ((mix seed).toNat : ℤ) (b := 2 * span.toInt) (by omega)
  have hone : (1 : Int64).toInt = 1 := rfl
  have htwo : Signed.Fits (2 * span.toInt) := ⟨by omega, by omega⟩
  rw [Exact.jitter, jitter, Signed.mul_eq_some (x := 2) htwo, Option.bind_eq_bind, Option.bind_some]
  generalize (mix seed % (2 * span).toUInt64).toInt64 = drawn at hdrawn ⊢
  rw [← hdrawn] at hlow hhigh ⊢
  have hoffset : Signed.Fits (drawn.toInt - span.toInt) := ⟨by omega, by omega⟩
  have hoffset' := Signed.toInt_sub hoffset
  have hsum : Signed.Fits (plain.toInt + (drawn - span).toInt) := ⟨by omega, by omega⟩
  have hsum' := Signed.toInt_add hsum
  rw [Signed.sub_eq_some hoffset, Option.bind_some, Signed.add_eq_some hsum, Option.bind_some]
  refine ⟨rfl, ?_⟩
  split <;> split <;> simp only [Int64.lt_iff_toInt_lt] at * <;> omega

end Jitter

namespace BackoffPolicy

variable (policy : BackoffPolicy)

lemma toInt_base : policy.base.toInt = max policy.baseSeconds.toInt 1 := by
  have hzero : (0 : Int64).toInt = 0 := rfl
  have hone : (1 : Int64).toInt = 1 := rfl
  rw [base]
  split <;> simp only [Int64.lt_iff_toInt_lt] at * <;> omega

lemma toInt_cap : policy.cap.toInt = max policy.capSeconds.toInt (max policy.baseSeconds.toInt 1) := by
  rw [← toInt_base, cap]
  split <;> simp only [Int64.lt_iff_toInt_lt] at * <;> omega

def spread : ℤ := max 0 (min policy.jitterPercent.toInt 100)

lemma toInt_clamp : (clamp policy.jitterPercent 0 100).toInt = policy.spread := by
  have hzero : (0 : Int32).toInt = 0 := rfl
  have hhundred : (100 : Int32).toInt = 100 := rfl
  rw [clamp, spread]
  split
  · simp only [Int32.lt_iff_toInt_lt] at *
    omega
  · split <;> simp only [Int32.lt_iff_toInt_lt] at * <;> omega

lemma spread_nonneg : 0 ≤ policy.spread := le_max_left _ _

lemma spread_le : policy.spread ≤ 100 := by
  rw [spread]
  omega

def unspread (failures : ℤ) : ℤ :=
  min (max policy.baseSeconds.toInt 1 * 2 ^ min (failures - 1).toNat 40)
    (max policy.capSeconds.toInt (max policy.baseSeconds.toInt 1))

def delay (failures : ℤ) (seed : UInt64) : ℤ :=
  let plain := policy.unspread failures
  let span := plain * policy.spread / 100
  if span ≤ 0 then plain
  else min (max (plain - span + (mix seed).toNat % (2 * span)) 1)
    (max policy.capSeconds.toInt (max policy.baseSeconds.toInt 1))

lemma unspread_le (failures : ℤ) :
    policy.unspread failures ≤ max policy.capSeconds.toInt (max policy.baseSeconds.toInt 1) :=
  min_le_right _ _

lemma one_le_unspread (failures : ℤ) : 1 ≤ policy.unspread failures := by
  have hpow : (1 : ℤ) ≤ 2 ^ min (failures - 1).toNat 40 := one_le_pow₀ (by omega)
  refine le_min (one_le_mul_of_one_le_of_one_le (le_max_right _ _) hpow) ?_
  exact (le_max_right _ _).trans (le_max_right _ _)

lemma span_nonneg (failures : ℤ) : 0 ≤ policy.unspread failures * policy.spread / 100 :=
  Int.ediv_nonneg (mul_nonneg (by linarith [policy.one_le_unspread failures]) policy.spread_nonneg) (by omega)

lemma delay_bounds (failures : ℤ) (seed : UInt64) : 1 ≤ policy.delay failures seed ∧
    policy.delay failures seed ≤ max policy.capSeconds.toInt (max policy.baseSeconds.toInt 1) := by
  have hone := policy.one_le_unspread failures
  have hle := policy.unspread_le failures
  rw [delay]
  split
  · exact ⟨hone, hle⟩
  · exact ⟨le_min (le_max_right _ _) (hone.trans hle), min_le_right _ _⟩

lemma abs_delay_sub_le (failures : ℤ) (seed : UInt64) :
    |policy.delay failures seed - policy.unspread failures| ≤ policy.unspread failures * policy.spread / 100 := by
  have hone := policy.one_le_unspread failures
  have hle := policy.unspread_le failures
  have hspan := policy.span_nonneg failures
  rw [delay]
  generalize max policy.capSeconds.toInt (max policy.baseSeconds.toInt 1) = cap at hle ⊢
  generalize policy.unspread failures * policy.spread / 100 = span at hspan ⊢
  generalize policy.unspread failures = plain at hone hle ⊢
  split
  · rwa [sub_self, abs_zero]
  · next hsome =>
    have hlow := Int.emod_nonneg ((mix seed).toNat : ℤ) (b := 2 * span) (by omega)
    have hhigh := Int.emod_lt_of_pos ((mix seed).toNat : ℤ) (b := 2 * span) (by omega)
    generalize ((mix seed).toNat : ℤ) % (2 * span) = drawn at hlow hhigh ⊢
    exact abs_le.mpr ⟨by omega, by omega⟩

lemma unspread_mono {fewer more : ℤ} (h : fewer ≤ more) : policy.unspread fewer ≤ policy.unspread more := by
  refine min_le_min_right _ (mul_le_mul_of_nonneg_left (pow_le_pow_right₀ (by omega) ?_) ?_)
  · omega
  · exact le_max_of_le_right zero_le_one

end BackoffPolicy

lemma toNat_steps {failures : Int32} (h : 1 ≤ failures.toInt) :
    (if 40 < failures then 40 else failures - 1).toInt.toNat = min (failures.toInt - 1).toNat 40 := by
  have hforty : (40 : Int32).toInt = 40 := rfl
  have hone : (1 : Int32).toInt = 1 := rfl
  have hlt := failures.toInt_lt
  have hsub : (failures - 1).toInt = failures.toInt - 1 := by
    rw [Int32.toInt_sub, hone, Int.bmod_eq_of_le] <;> omega
  split <;> simp only [Int32.lt_iff_toInt_lt] at * <;> omega

section Delay

variable {policy : BackoffPolicy} {failures : Int32}

lemma unspread_exact {failures : ℤ} (hbase : policy.baseSeconds.toInt ≤ 1000000000000000)
    (hcap : policy.capSeconds.toInt ≤ 1000000000000000) :
    let grown := growCapped policy.base (min (failures - 1).toNat 40) policy.cap
    Exact.growCapped policy.base (min (failures - 1).toNat 40) policy.cap = some grown ∧
      grown.toInt = policy.unspread failures := by
  have hbase' := policy.toInt_base
  have hcap' := policy.toInt_cap
  obtain ⟨hexact, hgrown⟩ := @growCapped_exact policy.base policy.cap
    (min (failures - 1).toNat 40) (by omega) (by omega) (by omega)
  refine ⟨hexact, ?_⟩
  rw [hgrown, hbase', hcap', BackoffPolicy.unspread]

lemma backoffDelaySeconds_exact (hfailures : 1 ≤ failures.toInt)
    (hbase : policy.baseSeconds.toInt ≤ 1000000000000000) (hcap : policy.capSeconds.toInt ≤ 1000000000000000)
    (seed : UInt64) :
    Exact.backoffDelaySeconds failures policy seed = some (backoffDelaySeconds failures policy seed) ∧
      (backoffDelaySeconds failures policy seed).toInt = policy.delay failures.toInt seed := by
  have hsome : ¬failures ≤ 0 := by
    rw [Int32.le_iff_toInt_le, show (0 : Int32).toInt = 0 from rfl]
    omega
  have hone := policy.one_le_unspread failures.toInt
  have hle := policy.unspread_le failures.toInt
  have hlarge : policy.cap.toInt ≤ 1000000000000000 := by
    rw [policy.toInt_cap]
    omega
  obtain ⟨hexact, hplain⟩ := @unspread_exact policy failures.toInt hbase hcap
  rw [Exact.backoffDelaySeconds, backoffDelaySeconds, if_neg hsome, if_neg hsome, BackoffPolicy.delay]
  simp only [toNat_steps hfailures, hexact, Option.bind_eq_bind, Option.bind_some]
  generalize growCapped policy.base (min (failures.toInt - 1).toNat 40) policy.cap = plain at hplain ⊢
  rw [← policy.toInt_cap] at hle ⊢
  rw [← hplain] at hone hle ⊢
  have hspread := policy.toInt_clamp
  generalize clamp policy.jitterPercent 0 100 = spread at hspread ⊢
  by_cases hnone : spread = 0
  · subst hnone
    rw [← hspread]
    simp
  have hproduct : 0 ≤ plain.toInt * policy.spread ∧ plain.toInt * policy.spread ≤ plain.toInt * 100 :=
    ⟨mul_nonneg (by omega) policy.spread_nonneg, mul_le_mul_of_nonneg_left policy.spread_le (by omega)⟩
  have hfits : Signed.Fits (plain.toInt * spread.toInt64.toInt) := by
    rw [Int32.toInt_toInt64, hspread]
    exact ⟨by omega, by omega⟩
  have hspan : (plain * spread.toInt64 / 100).toInt = plain.toInt * policy.spread / 100 := by
    rw [Int64.toInt_div_of_ne_right _ _ (by decide), Signed.toInt_mul hfits, Int32.toInt_toInt64, hspread]
    exact Int.tdiv_eq_ediv_of_nonneg hproduct.1
  rw [if_neg hnone, Signed.mul_eq_some hfits, Option.bind_some]
  generalize plain * spread.toInt64 / 100 = span at hspan ⊢
  have hiff : span ≤ 0 ↔ plain.toInt * policy.spread / 100 ≤ 0 := by
    rw [Int64.le_iff_toInt_le, hspan]
    rfl
  by_cases hsmall : span ≤ 0
  · rw [if_pos hsmall, if_pos (.inr hsmall), if_pos (hiff.mp hsmall)]
    exact ⟨rfl, rfl⟩
  · have hpos := hiff.not.mp hsmall
    rw [if_neg hsmall, if_neg (not_or.mpr ⟨hnone, hsmall⟩), if_neg hpos, ← hspan]
    exact jitter_exact seed (by omega) (by omega) hle hlarge

end Delay

theorem backoff_delay_is_bounded (failures : Int32) (policy : BackoffPolicy) (seed : UInt64)
    (hfailures : 1 ≤ failures) (hbase : policy.baseSeconds ≤ 1000000000000000)
    (hcap : policy.capSeconds ≤ 1000000000000000) :
    let delay := backoffDelaySeconds failures policy seed
    Exact.backoffDelaySeconds failures policy seed = some delay ∧ 1 ≤ delay.toInt ∧
      delay.toInt ≤ max policy.capSeconds.toInt (max policy.baseSeconds.toInt 1) ∧
      (policy.spread = 0 → delay.toInt = policy.unspread failures.toInt ∧
        ∀ more other, failures ≤ more → delay ≤ backoffDelaySeconds more policy other) ∧
      |delay.toInt - policy.unspread failures.toInt| ≤ policy.unspread failures.toInt * policy.spread / 100 := by
  rw [Int64.le_iff_toInt_le] at hbase hcap
  rw [Int32.le_iff_toInt_le] at hfailures
  have hplain : ∀ {n : Int32} (other : UInt64), 1 ≤ n.toInt → policy.spread = 0 →
      (backoffDelaySeconds n policy other).toInt = policy.unspread n.toInt := by
    intro n other hn hspread
    have hdelay := policy.abs_delay_sub_le n.toInt other
    rw [hspread, mul_zero, Int.zero_ediv] at hdelay
    rw [(backoffDelaySeconds_exact hn hbase hcap other).2]
    exact sub_eq_zero.mp (abs_nonpos_iff.mp hdelay)
  obtain ⟨hexact, hdelay⟩ := backoffDelaySeconds_exact hfailures hbase hcap seed
  obtain ⟨hlow, hhigh⟩ := policy.delay_bounds failures.toInt seed
  have hclose := policy.abs_delay_sub_le failures.toInt seed
  rw [← hdelay] at hlow hhigh hclose
  refine ⟨hexact, hlow, hhigh, fun hspread => ⟨hplain seed hfailures hspread, fun more other hmore => ?_⟩, hclose⟩
  rw [Int32.le_iff_toInt_le] at hmore
  rw [Int64.le_iff_toInt_le, hplain seed hfailures hspread, hplain other (hfailures.trans hmore) hspread]
  exact policy.unspread_mono hmore

theorem third_failure_waits_four_times_the_base :
    backoffDelaySeconds 3 { jitterPercent := 0 } 7 = 240 := by
  have h := backoff_delay_is_bounded 3 { jitterPercent := 0 } 7 (by decide) (by decide) (by decide)
  exact Int64.toInt_inj.mp (h.2.2.2.1 rfl).1

end NsxManager.Core
