import QhwScheduler.Foundations.Exact
import QhwScheduler.Policy.OrderKey

/-!
# Tiers as exact urgency

The tier of a boost is a comparison of rational numbers: runtime over slack
against the thresholds.

* `passes`, `BoostConfig.passed` — the thresholds below the urgency, in unbounded
  arithmetic.
* `BoostConfig.tierBoost` — what a tier adds to the priority.
* `addI64SaturatingExact` — the saturating addition with operations that fail on
  wrapping.
* `boost_tier_exact` — rounding, saturation and the nesting of the thresholds do
  no harm.
-/

namespace QhwScheduler

open Foundations

/-! ## Urgency -/

/-- A thousand times the runtime is more than the threshold times the slack. -/
def passes (estimatedRuntimeNs slackNs : ℕ) (threshold : UInt64) : Bool :=
  threshold.toNat < 2 ^ 64 - 1 && 1000 * estimatedRuntimeNs > threshold.toNat * slackNs

/-- How many of the thresholds are passed. -/
def BoostConfig.passed (config : BoostConfig) (estimatedRuntimeNs slackNs : ℕ) : ℕ :=
  [config.normalThresholdPermille, config.urgentThresholdPermille,
    config.criticalThresholdPermille].countP (passes estimatedRuntimeNs slackNs)

/-- What a tier adds to the priority. -/
def BoostConfig.tierBoost (config : BoostConfig) : BoostTier → Int64
  | .none => 0
  | .normal => config.normalBoost
  | .urgent => config.urgentBoost
  | .critical => config.criticalBoost

/-- The rounded urgency lies above a threshold exactly when the threshold is
passed. -/
theorem urgency_gt_iff {estimatedRuntimeNs slackNs threshold : UInt64} (h : slackNs ≠ 0) :
    urgencyPermille estimatedRuntimeNs slackNs > threshold ↔
      passes estimatedRuntimeNs.toNat slackNs.toNat threshold = true := by
  have hmax := toNat_le_u64Max threshold
  rw [urgencyPermille_eq h, gt_iff_lt, ← UInt64.not_le, scaleDivCeilU64_le_iff h, not_or, not_le,
    passes, Bool.and_eq_true, decide_eq_true_eq, decide_eq_true_eq, Nat.mul_comm 1000,
    ← UInt64.toNat_inj]
  rw [u64Max_toNat] at hmax ⊢
  constructor
  · rintro ⟨hlt, hne⟩
    exact ⟨by omega, hlt⟩
  · rintro ⟨hne, hlt⟩
    exact ⟨hlt, by omega⟩

/-- A threshold below one that is passed is passed. -/
theorem passes_mono {estimatedRuntimeNs slackNs : ℕ} {threshold threshold' : UInt64}
    (hle : threshold ≤ threshold') (h : passes estimatedRuntimeNs slackNs threshold' = true) :
    passes estimatedRuntimeNs slackNs threshold = true := by
  rw [passes, Bool.and_eq_true, decide_eq_true_eq, decide_eq_true_eq] at h ⊢
  rw [UInt64.le_iff_toNat_le] at hle
  exact ⟨by omega, lt_of_le_of_lt (Nat.mul_le_mul_right slackNs hle) h.2⟩

section Tier

variable {config : BoostConfig} {base : Int64} {deadlineNs estimatedRuntimeNs now : UInt64}

/-- The tier counts the thresholds passed, because they are nested. -/
theorem deadlineBoostCompute_tier (hconfig : config.thresholdsRejected = false)
    (henabled : config.enabled = true) (hdeadline : deadlineNs ≠ 0) (hruntime : estimatedRuntimeNs ≠ 0)
    (hnow : now < deadlineNs) :
    (deadlineBoostCompute config base deadlineNs estimatedRuntimeNs now).tier.rank =
      config.passed estimatedRuntimeNs.toNat (deadlineNs.toNat - now.toNat) := by
  have hon : ¬ (!config.enabled || deadlineNs = 0 || estimatedRuntimeNs = 0) = true := by
    simp [henabled, hdeadline, hruntime]
  simp only [BoostConfig.thresholdsRejected, henabled, Bool.true_and, Bool.or_eq_false_iff,
    decide_eq_false_iff_not, UInt64.not_lt] at hconfig
  obtain ⟨⟨-, hurgent⟩, hcritical⟩ := hconfig
  have hslack := UInt64.toNat_sub_of_le _ _ (UInt64.le_of_lt hnow)
  rw [deadlineBoostCompute, if_neg hon, if_neg (UInt64.not_le.2 hnow)]
  simp only [urgency_gt_iff (slack_ne_zero hnow), hslack, BoostConfig.passed, List.countP_cons,
    List.countP_nil]
  generalize deadlineNs.toNat - now.toNat = slack
  -- whoever passes a threshold passes those below it
  split
  · next hc =>
    have hu := passes_mono hcritical hc
    rw [if_pos hu, if_pos (passes_mono hurgent hu)]
    rfl
  · split
    · next hu =>
      rw [if_pos (passes_mono hurgent hu)]
      rfl
    · split <;> rfl

/-- The boost of the tier is what is added. -/
theorem deadlineBoostCompute_priority :
    let result := deadlineBoostCompute config base deadlineNs estimatedRuntimeNs now
    result.effectivePriority = addI64Saturating base (config.tierBoost result.tier) := by
  have hzero : base = addI64Saturating base 0 := by
    rw [addI64Saturating, if_neg (by simp), if_neg (by simp), Int64.add_zero]
  dsimp only
  unfold deadlineBoostCompute
  split
  · exact hzero
  · split
    · rfl
    · dsimp only
      split
      · rfl
      · split
        · rfl
        · split
          · rfl
          · exact hzero

end Tier

/-! ## Saturating addition -/

/-- `addI64Saturating` with operations that fail on wrapping. -/
def addI64SaturatingExact (base delta : Int64) : Option Int64 :=
  if delta > 0 then do
    let room ← subExactI64 Int64.maxValue delta
    if base > room then return Int64.maxValue else addExactI64 base delta
  else if delta < 0 then do
    let room ← subExactI64 Int64.minValue delta
    if base < room then return Int64.minValue else addExactI64 base delta
  else addExactI64 base delta

/-- **Saturating addition** clamps the exact sum, and nothing wraps on the way. -/
theorem addI64Saturating_spec (base delta : Int64) :
    (addI64Saturating base delta).toInt =
        max Int64.minValue.toInt (min (base.toInt + delta.toInt) Int64.maxValue.toInt) ∧
      addI64SaturatingExact base delta = some (addI64Saturating base delta) := by
  have hmin := Int64.toInt_minValue
  have hmax := Int64.toInt_maxValue
  have hbase := And.intro base.le_toInt base.toInt_lt
  have hdelta := And.intro delta.le_toInt delta.toInt_lt
  have hadd : InI64 (base.toInt + delta.toInt) →
      (base + delta).toInt = max Int64.minValue.toInt
          (min (base.toInt + delta.toInt) Int64.maxValue.toInt) ∧
        addExactI64 base delta = some (base + delta) := by
    intro hin
    obtain ⟨hexact, hval⟩ := addExactI64_eq hin
    refine ⟨?_, hexact⟩
    rw [hval, min_eq_left hin.2, max_eq_right hin.1]
  unfold addI64Saturating addI64SaturatingExact
  by_cases hpos : delta > 0
  · have hpos' : 0 < delta.toInt := by
      rw [← Int64.toInt_zero]
      exact Int64.lt_iff_toInt_lt.1 hpos
    have hneg : ¬ delta < 0 := by
      rw [Int64.lt_iff_toInt_lt, Int64.toInt_zero]
      omega
    obtain ⟨hroomExact, hroom⟩ := subExactI64_eq (a := Int64.maxValue) (b := delta) (by
      unfold InI64
      omega)
    rw [if_pos hpos, hroomExact, Option.bind_eq_bind, Option.bind_some]
    by_cases hover : base > Int64.maxValue - delta
    · rw [if_pos ⟨hpos, hover⟩, if_pos hover]
      rw [gt_iff_lt, Int64.lt_iff_toInt_lt, hroom] at hover
      refine ⟨?_, rfl⟩
      omega
    · rw [if_neg fun h => hover h.2, if_neg fun h => hneg h.1, if_neg hover]
      rw [gt_iff_lt, Int64.lt_iff_toInt_lt, hroom] at hover
      refine hadd ?_
      unfold InI64
      omega
  · rw [if_neg fun h => hpos h.1, if_neg hpos]
    have hpos' : delta.toInt ≤ 0 := by
      rw [gt_iff_lt, Int64.lt_iff_toInt_lt, Int64.toInt_zero] at hpos
      omega
    by_cases hneg : delta < 0
    · have hneg' : delta.toInt < 0 := by
        rw [← Int64.toInt_zero]
        exact Int64.lt_iff_toInt_lt.1 hneg
      obtain ⟨hroomExact, hroom⟩ := subExactI64_eq (a := Int64.minValue) (b := delta) (by
        unfold InI64
        omega)
      rw [if_pos hneg, hroomExact, Option.bind_eq_bind, Option.bind_some]
      by_cases hunder : base < Int64.minValue - delta
      · rw [if_pos ⟨hneg, hunder⟩, if_pos hunder]
        rw [Int64.lt_iff_toInt_lt, hroom] at hunder
        refine ⟨?_, rfl⟩
        omega
      · rw [if_neg fun h => hunder h.2, if_neg hunder]
        rw [Int64.lt_iff_toInt_lt, hroom] at hunder
        refine hadd ?_
        unfold InI64
        omega
    · rw [if_neg fun h => hneg h.1, if_neg hneg]
      have hneg' : 0 ≤ delta.toInt := by
        rw [Int64.lt_iff_toInt_lt, Int64.toInt_zero] at hneg
        omega
      refine hadd ?_
      unfold InI64
      omega

/-! ## The tier -/

/-- **The tier is exact urgency.**  For every accepted configuration that is
enabled: from the deadline on a task is critical; before it the tier counts the
thresholds that runtime over slack passes; and the priority is raised by the
boost of the tier, clamped, by operations that do not wrap. -/
theorem boost_tier_exact {start config : BoostConfig} {options : KvArray}
    (hparse : deadlineBoostConfigParseOptions start options = some config)
    (henabled : config.enabled = true) (base : Int64) {deadlineNs estimatedRuntimeNs : UInt64}
    (hdeadline : deadlineNs ≠ 0) (hruntime : estimatedRuntimeNs ≠ 0) (now : UInt64) :
    let result := deadlineBoostCompute config base deadlineNs estimatedRuntimeNs now
    (now ≥ deadlineNs → result.tier = .critical) ∧
    (now < deadlineNs → result.tier.rank =
      config.passed estimatedRuntimeNs.toNat (deadlineNs.toNat - now.toNat)) ∧
    result.effectivePriority.toInt = max Int64.minValue.toInt
      (min (base.toInt + (config.tierBoost result.tier).toInt) Int64.maxValue.toInt) ∧
    addI64SaturatingExact base (config.tierBoost result.tier) = some result.effectivePriority := by
  have hconfig := deadlineBoostConfigParseOptions_thresholds hparse
  have hpriority := @deadlineBoostCompute_priority config base deadlineNs estimatedRuntimeNs now
  dsimp only at hpriority ⊢
  refine ⟨fun hge => ?_, deadlineBoostCompute_tier hconfig henabled hdeadline hruntime, ?_, ?_⟩
  · rw [deadlineBoostCompute, if_neg (by simp [henabled, hdeadline, hruntime]), if_pos hge]
  · rw [hpriority]
    exact (addI64Saturating_spec _ _).1
  · rw [hpriority]
    exact (addI64Saturating_spec _ _).2

/-- Three seconds of work, due in two: half as much again as there is time. -/
theorem boost_tier_exact_threeSeconds :
    (deadlineBoostCompute boostEnabled 5 2000000000 3000000000 0).tier.rank = 1 := by
  have hparse : deadlineBoostConfigParseOptions deadlineBoostConfigInit
      (some [⟨optDeadlineBoostEnable, .u64 1⟩]) = some boostEnabled := by decide
  exact (boost_tier_exact hparse rfl 5 (by decide) (by decide) 0).2.1 (by decide)

end QhwScheduler
