import NsxManager.Core.Delays
import NsxManager.Core.ManifestCache

/-! Which recorded deadlines are waited for, and that no record keeps the program waiting. -/

namespace NsxManager.Core

open Lib

def mayAttempt (state : BackoffState) (nowUnix : Int64) (policy : BackoffPolicy) : Bool :=
  secondsUntilNextAttempt state nowUnix policy == 0

/-- The cap of the reader: the base has no part in it. -/
def BackoffPolicy.horizon (policy : BackoffPolicy) : ℤ := max policy.capSeconds.toInt 1

section Waiting

variable {state : BackoffState} {policy : BackoffPolicy} {now : Int64}

lemma toInt_secondsUntilNextAttempt (hnow : 0 ≤ now.toInt) :
    (secondsUntilNextAttempt state now policy).toInt =
      if now.toInt < state.nextAttemptUnix.toInt ∧
          state.nextAttemptUnix.toInt ≤ now.toInt + policy.horizon then state.nextAttemptUnix.toInt - now.toInt
      else 0 := by
  have hzero : (0 : Int64).toInt = 0 := rfl
  have hone : (1 : Int64).toInt = 1 := rfl
  rw [secondsUntilNextAttempt, BackoffPolicy.horizon]
  generalize state.nextAttemptUnix = next
  generalize policy.capSeconds = cap
  by_cases hpast : next ≤ now
  · rw [if_pos hpast]
    rw [Int64.le_iff_toInt_le] at hpast
    rw [if_neg (by omega), hzero]
  rw [if_neg hpast]
  rw [Int64.le_iff_toInt_le] at hpast
  have hnext := next.toInt_lt
  have hahead : (next - now).toInt = next.toInt - now.toInt := Signed.toInt_sub ⟨by omega, by omega⟩
  have hcap : (if 0 < cap then cap else 1).toInt = max cap.toInt 1 := by
    split <;> simp only [Int64.lt_iff_toInt_lt] at * <;> omega
  have hiff : (if 0 < cap then cap else 1) < next - now ↔ ¬next.toInt ≤ now.toInt + max cap.toInt 1 := by
    rw [Int64.lt_iff_toInt_lt, hcap, hahead]
    omega
  by_cases hfar : next.toInt ≤ now.toInt + max cap.toInt 1
  · rw [if_neg (fun h => hiff.mp h hfar), if_pos ⟨by omega, hfar⟩, hahead]
  · rw [if_pos (hiff.mpr hfar), if_neg (fun h => hfar h.2), hzero]

lemma mayAttempt_eq_false_iff (hnow : 0 ≤ now.toInt) : mayAttempt state now policy = false ↔
    now.toInt < state.nextAttemptUnix.toInt ∧ state.nextAttemptUnix.toInt ≤ now.toInt + policy.horizon := by
  have hseconds := @toInt_secondsUntilNextAttempt state policy now hnow
  rw [mayAttempt, beq_eq_false_iff_ne, ne_eq, ← Int64.toInt_inj, hseconds]
  split
  · next hwaits =>
    refine iff_of_true ?_ hwaits
    rw [show (0 : Int64).toInt = 0 from rfl]
    omega
  · next hdone => exact iff_of_false (fun h => h rfl) hdone

end Waiting

section Recorded

variable {state : BackoffState} {policy : BackoffPolicy} {now : Int64}

lemma one_le_counted (hstate : 0 ≤ state.consecutiveFailures.toInt) :
    1 ≤ (if state.consecutiveFailures < 1000000 then state.consecutiveFailures + 1
      else state.consecutiveFailures).toInt := by
  have hone : (1 : Int32).toInt = 1 := rfl
  have hmany : (1000000 : Int32).toInt = 1000000 := rfl
  split <;> simp only [Int32.lt_iff_toInt_lt] at *
  · rw [Int32.toInt_add, Int.bmod_eq_of_le (by omega) (by omega)]
    omega
  · omega

lemma exists_delay (hstate : 0 ≤ state.consecutiveFailures.toInt) (hbase : policy.baseSeconds.toInt ≤ 1000000000000000)
    (hcap : policy.capSeconds.toInt ≤ 1000000000000000) (hnow : 0 ≤ now.toInt)
    (hsane : now.toInt < 0x4000000000000000) (seed : UInt64) :
    ∃ failures : ℤ, (afterFailure state now policy seed).nextAttemptUnix.toInt =
      now.toInt + policy.delay failures seed := by
  have hcounted := one_le_counted hstate
  rw [afterFailure]
  generalize (if state.consecutiveFailures < 1000000 then state.consecutiveFailures + 1
    else state.consecutiveFailures) = failures at hcounted ⊢
  obtain ⟨-, hdelay⟩ := backoffDelaySeconds_exact hcounted hbase hcap seed
  obtain ⟨hlow, hhigh⟩ := policy.delay_bounds failures.toInt seed
  refine ⟨failures.toInt, ?_⟩
  rw [← hdelay] at hlow hhigh ⊢
  exact Signed.toInt_add ⟨by omega, by omega⟩

end Recorded

namespace BackoffPolicy

variable (policy : BackoffPolicy)

def Heeded (seed : UInt64) : Prop :=
  let base := max policy.baseSeconds.toInt 1
  let span := base * policy.spread / 100
  base ≤ policy.horizon ∨ base - span + (mix seed).toNat % (2 * span) ≤ policy.horizon

lemma delay_le_horizon_iff (failures : ℤ) (seed : UInt64) :
    policy.delay failures seed ≤ policy.horizon ↔ policy.Heeded seed := by
  have hhorizon : 1 ≤ policy.horizon := le_max_right _ _
  have hreader : policy.capSeconds.toInt ≤ policy.horizon := le_max_left _ _
  rw [Heeded]
  by_cases hbase : max policy.baseSeconds.toInt 1 ≤ policy.horizon
  · have hcap : max policy.capSeconds.toInt (max policy.baseSeconds.toInt 1) ≤ policy.horizon := max_le hreader hbase
    exact iff_of_true ((policy.delay_bounds failures seed).2.trans hcap) (.inl hbase)
  -- past the reader's cap the base is the writer's, and every failure waits that long
  have hcap : max policy.capSeconds.toInt (max policy.baseSeconds.toInt 1) = max policy.baseSeconds.toInt 1 :=
    max_eq_right (by omega)
  have hplain : policy.unspread failures = max policy.baseSeconds.toInt 1 := by
    have hpow : (1 : ℤ) ≤ 2 ^ min (failures - 1).toNat 40 := one_le_pow₀ (by omega)
    rw [unspread, hcap]
    exact min_eq_right (le_mul_of_one_le_right (by omega) hpow)
  have hspan := policy.span_nonneg failures
  rw [delay, hcap]
  rw [hplain] at hspan ⊢
  generalize max policy.baseSeconds.toInt 1 = base at hbase hspan ⊢
  generalize base * policy.spread / 100 = span at hspan ⊢
  rw [or_iff_right hbase]
  split
  · next hnone =>
    obtain rfl : span = 0 := le_antisymm hnone hspan
    omega
  · generalize ((mix seed).toNat : ℤ) % (2 * span) = drawn
    omega

end BackoffPolicy

theorem recorded_deadline_is_honoured_iff (policy : BackoffPolicy) (state : BackoffState) (now : Int64) (seed : UInt64)
    (hbase : policy.baseSeconds ≤ 1000000000000000) (hcap : policy.capSeconds ≤ 1000000000000000)
    (hstate : 0 ≤ state.consecutiveFailures) (hnow : 0 ≤ now) (hsane : now < 0x4000000000000000) :
    (∀ t, now ≤ t → t < (afterFailure state now policy seed).nextAttemptUnix →
      mayAttempt (afterFailure state now policy seed) t policy = false) ↔ policy.Heeded seed := by
  rw [Int64.le_iff_toInt_le] at hbase hcap hnow
  rw [Int64.lt_iff_toInt_lt] at hsane
  rw [Int32.le_iff_toInt_le] at hstate
  obtain ⟨failures, hnext⟩ := exists_delay hstate hbase hcap hnow hsane seed
  have hpos := (policy.delay_bounds failures seed).1
  rw [← policy.delay_le_horizon_iff failures seed]
  generalize afterFailure state now policy seed = recorded at hnext ⊢
  generalize policy.delay failures seed = delay at hnext hpos ⊢
  constructor
  · intro hhonoured
    have hfirst := hhonoured now (Int64.le_refl now) (by rw [Int64.lt_iff_toInt_lt]; omega)
    have hbelieved := (mayAttempt_eq_false_iff hnow).mp hfirst
    omega
  · intro hbelieved t hfrom hbefore
    rw [Int64.le_iff_toInt_le] at hfrom
    rw [Int64.lt_iff_toInt_lt] at hbefore
    exact (mayAttempt_eq_false_iff (hnow.trans hfrom)).mpr ⟨hbefore, by omega⟩

theorem default_policy_is_waited_for : mayAttempt (afterFailure {} 100 {} 7) 100 {} = false := by
  have hbase : ({} : BackoffPolicy).Heeded 7 := .inl (by decide)
  exact (recorded_deadline_is_honoured_iff {} {} 100 7 (by decide) (by decide) (by decide) (by decide) (by decide)).mpr
    hbase 100 (by decide) (by decide)

theorem base_past_the_cap_is_not_waited_for :
    let policy : BackoffPolicy := { baseSeconds := 60, capSeconds := 30, jitterPercent := 0 }
    (afterFailure {} 100 policy 7).nextAttemptUnix = 160 ∧ mayAttempt (afterFailure {} 100 policy 7) 100 policy = true := by
  decide

lemma exists_outside {long short : ℤ} (now first second : ℤ) (hlong : 0 < long) (hshort : 0 < short) :
    ∃ t, now ≤ t ∧ t ≤ now + long + short ∧ ¬(first ≤ t ∧ t < first + long) ∧ ¬(second ≤ t ∧ t < second + short) := by
  by_cases hfirst : first ≤ now ∧ now < first + long
  · by_cases hsecond : second ≤ first + long ∧ first + long < second + short
    · exact ⟨second + short, by omega, by omega, by omega, by omega⟩
    · exact ⟨first + long, by omega, by omega, by omega, hsecond⟩
  · by_cases hsecond : second ≤ now ∧ now < second + short
    · by_cases hlater : first ≤ second + short ∧ second + short < first + long
      · exact ⟨first + long, by omega, by omega, by omega, by omega⟩
      · exact ⟨second + short, by omega, by omega, hlater, by omega⟩
    · exact ⟨now, by omega, by omega, hfirst, hsecond⟩

section Planning

variable {cached : Option CacheMetadata} {backoff : BackoffState} {policy : BackoffPolicy} {t ttl : Int64}

lemma cacheIsFresh_eq_false {m : CacheMetadata} (hfetched : 0 ≤ m.fetchedAtUnix.toInt) (ht : 0 ≤ t.toInt)
    (h : ¬(m.fetchedAtUnix.toInt ≤ t.toInt ∧ t.toInt < m.fetchedAtUnix.toInt + ttl.toInt)) :
    cacheIsFresh m t ttl = false := by
  have hlarge := t.toInt_lt
  have hlarge' := m.fetchedAtUnix.toInt_lt
  have hage : (t - m.fetchedAtUnix).toInt = t.toInt - m.fetchedAtUnix.toInt :=
    Signed.toInt_sub ⟨by omega, by omega⟩
  rw [cacheIsFresh, Bool.eq_false_iff]
  simp only [ne_eq, Bool.and_eq_true, decide_eq_true_eq, Int64.le_iff_toInt_le, Int64.lt_iff_toInt_lt, hage]
  omega

lemma requestsNetwork_planManifestFetch (hfresh : ∀ m ∈ cached, cacheIsFresh m t ttl = false)
    (hwait : ¬0 < secondsUntilNextAttempt backoff t policy) :
    (planManifestFetch cached backoff t ttl policy).requestsNetwork = true := by
  cases cached with
  | none =>
    rw [planManifestFetch, if_neg hwait]
    rfl
  | some m =>
    rw [planManifestFetch, if_neg (by rw [hfresh m rfl]; exact Bool.false_ne_true), if_neg hwait]
    split <;> rfl

end Planning

theorem update_check_is_never_locked_out (cached : Option CacheMetadata) (backoff : BackoffState) (policy : BackoffPolicy)
    (now ttl : Int64) (hfetched : ∀ m ∈ cached, 0 ≤ m.fetchedAtUnix) (httl : 0 < ttl) (hcap : 0 < policy.capSeconds)
    (hnow : 0 ≤ now) (hfits : now.toInt + ttl.toInt + policy.capSeconds.toInt ≤ 0x7fffffffffffffff) :
    ∃ t, now ≤ t ∧ t ≤ now + ttl + policy.capSeconds ∧
      (planManifestFetch cached backoff t ttl policy).requestsNetwork = true := by
  rw [Int64.le_iff_toInt_le] at hnow
  rw [Int64.lt_iff_toInt_lt] at httl hcap
  have hzero : (0 : Int64).toInt = 0 := rfl
  have hsum : (now + ttl).toInt = now.toInt + ttl.toInt := Signed.toInt_add ⟨by omega, by omega⟩
  have hend : (now + ttl + policy.capSeconds).toInt = now.toInt + ttl.toInt + policy.capSeconds.toInt := by
    rw [Signed.toInt_add ⟨by omega, by omega⟩, hsum]
  obtain ⟨t, hfrom, hto, hfirst, hsecond⟩ := exists_outside now.toInt ((cached.map (·.fetchedAtUnix.toInt)).getD 0)
    (backoff.nextAttemptUnix.toInt - policy.capSeconds.toInt) httl hcap
  have ht : (Int64.ofInt t).toInt = t := Int64.toInt_ofInt_of_le (by omega) (by omega)
  refine ⟨Int64.ofInt t, ?_, ?_, requestsNetwork_planManifestFetch ?_ ?_⟩
  · rwa [Int64.le_iff_toInt_le, ht]
  · rwa [Int64.le_iff_toInt_le, ht, hend]
  · rintro m rfl
    have hm := Int64.le_iff_toInt_le.mp (hfetched m rfl)
    refine cacheIsFresh_eq_false hm (by omega) ?_
    rwa [ht]
  · rw [Int64.lt_iff_toInt_lt, toInt_secondsUntilNextAttempt (by omega), ht, if_neg, hzero]
    · exact lt_irrefl 0
    · rw [BackoffPolicy.horizon]
      omega

theorem an_hour_of_cache_then_of_waiting :
    ∃ t : Int64, 1000 ≤ t ∧ t ≤ 26200 ∧ (planManifestFetch (some { fetchedAtUnix := 1000 })
      { consecutiveFailures := 5, nextAttemptUnix := 8200 } t 3600 {}).requestsNetwork = true :=
  update_check_is_never_locked_out (some { fetchedAtUnix := 1000 })
    { consecutiveFailures := 5, nextAttemptUnix := 8200 } {} 1000 3600 (by decide) (by decide) (by decide) (by decide)
    (by decide)

end NsxManager.Core
