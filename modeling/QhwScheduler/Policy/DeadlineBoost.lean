import QhwScheduler.Foundations.Exact
import QhwScheduler.Types

/-!
# Deadline boosting

`qhw_deadline_boost.c`: how much a deadline raises a priority, and when that
has to be looked at again.

* `scaleDivCeilU64` — `⌈1000 · value / divisor⌉`, saturated.
* `deadlineBoostConfigParseOptions` — the accepted configurations.
* `deadlineBoostCompute` — effective priority, tier and next refresh time.
* `scaleDivCeilU64_le_iff` — the rounded quotient against a bound, in unbounded
  arithmetic.
* `deadlineBoostCompute_next` — the refresh time lies after the clock value;
  `deadlineBoostCompute_until` — up to it tier and effective priority stay.
* `refresh_never_late` — all of it for the accepted configurations.
-/

namespace QhwScheduler

open Foundations

/-- `enum qhw_deadline_boost_tier`. -/
inductive BoostTier where
  | none
  | normal
  | urgent
  | critical
  deriving DecidableEq, Repr, Inhabited

/-- `struct qhw_deadline_boost_config`. -/
structure BoostConfig where
  enabled : Bool
  normalThresholdPermille : UInt64
  urgentThresholdPermille : UInt64
  criticalThresholdPermille : UInt64
  normalBoost : Int64
  urgentBoost : Int64
  criticalBoost : Int64
  deriving DecidableEq

/-- `struct qhw_deadline_boost_result`. -/
structure BoostResult where
  effectivePriority : Int64
  nextRefreshNs : UInt64
  tier : BoostTier
  deriving DecidableEq

/-- `QHW_DEADLINE_BOOST_NEVER`. -/
def deadlineBoostNever : UInt64 := u64Max

/-- `is_deadline_boost_option`. -/
def isDeadlineBoostOption (key : UInt64) : Bool :=
  key = optDeadlineBoostEnable || key = optDeadlineNowNs || key = optDeadlineNormalThreshold ||
    key = optDeadlineUrgentThreshold || key = optDeadlineCriticalThreshold ||
    key = optDeadlineNormalBoost || key = optDeadlineUrgentBoost ||
    key = optDeadlineCriticalBoost

/-- `set_deadline_boost_u64`; `none` is `QHW_SCHED_ERR_INVALID_ARG`. -/
def setDeadlineBoostU64 (config : BoostConfig) (key value : UInt64) : Option BoostConfig :=
  if key = optDeadlineBoostEnable then some { config with enabled := value != 0 }
  else if key = optDeadlineNormalThreshold then
    some { config with normalThresholdPermille := value }
  else if key = optDeadlineUrgentThreshold then
    some { config with urgentThresholdPermille := value }
  else if key = optDeadlineCriticalThreshold then
    some { config with criticalThresholdPermille := value }
  else none

/-- `set_deadline_boost_i64`; `none` is `QHW_SCHED_ERR_INVALID_ARG`. -/
def setDeadlineBoostI64 (config : BoostConfig) (key : UInt64) (value : Int64) :
    Option BoostConfig :=
  if key = optDeadlineNormalBoost then some { config with normalBoost := value }
  else if key = optDeadlineUrgentBoost then some { config with urgentBoost := value }
  else if key = optDeadlineCriticalBoost then some { config with criticalBoost := value }
  else none

/-- `add_i64_saturating`. -/
def addI64Saturating (base delta : Int64) : Int64 :=
  if delta > 0 ∧ base > Int64.maxValue - delta then Int64.maxValue
  else if delta < 0 ∧ base < Int64.minValue - delta then Int64.minValue
  else base + delta

/-- `scale_div_ceil_u64` with `__uint128_t`: the product is computed without
wrapping. -/
def scaleDivCeilU64 (value divisor : UInt64) : UInt64 :=
  if divisor = 0 then u64Max
  else
    let product := value.toNat * 1000
    let quotient := product / divisor.toNat
    let quotient := if product % divisor.toNat ≠ 0 then quotient + 1 else quotient
    if quotient > u64Max.toNat then u64Max else UInt64.ofNat quotient

/-- `urgency_permille`. -/
def urgencyPermille (estimatedRuntimeNs slackNs : UInt64) : UInt64 :=
  if slackNs = 0 then u64Max else scaleDivCeilU64 estimatedRuntimeNs slackNs

/-- `next_threshold_time`. -/
def nextThresholdTime (deadlineNs estimatedRuntimeNs thresholdPermille nowNs : UInt64) : UInt64 :=
  if thresholdPermille = 0 then deadlineBoostNever
  else
    let windowNs := scaleDivCeilU64 estimatedRuntimeNs thresholdPermille
    let nextNs := if windowNs ≥ deadlineNs then 1 else deadlineNs - windowNs
    if nextNs ≤ nowNs then
      if nowNs = u64Max then deadlineBoostNever else nowNs + 1
    else nextNs

/-- `qhw_deadline_boost_config_init`. -/
def deadlineBoostConfigInit : BoostConfig where
  enabled := false
  normalThresholdPermille := 1000
  urgentThresholdPermille := 2000
  criticalThresholdPermille := 3000
  normalBoost := 10
  urgentBoost := 50
  criticalBoost := 100

/-- One turn of the option loop of `qhw_deadline_boost_config_parse_options`. -/
def deadlineBoostParseOption (config : BoostConfig) (option : Kv) : Option BoostConfig :=
  if !isDeadlineBoostOption option.key || option.key = optDeadlineNowNs then some config
  else
    match option.value with
    | .u64 v => setDeadlineBoostU64 config option.key v
    | .i64 v => setDeadlineBoostI64 config option.key v
    | .other _ => none

/-- The thresholds an enabled configuration must have. -/
def BoostConfig.thresholdsRejected (config : BoostConfig) : Bool :=
  config.enabled &&
    (config.normalThresholdPermille = 0 ||
      config.urgentThresholdPermille < config.normalThresholdPermille ||
      config.criticalThresholdPermille < config.urgentThresholdPermille)

/-- `qhw_deadline_boost_config_parse_options`; `none` is
`QHW_SCHED_ERR_INVALID_ARG`. -/
def deadlineBoostConfigParseOptions (config : BoostConfig) (options : KvArray) :
    Option BoostConfig :=
  match options with
  | none => none
  | some kvs =>
    match kvs.foldlM deadlineBoostParseOption config with
    | none => none
    | some config => if config.thresholdsRejected then none else some config

/-- `qhw_deadline_boost_compute`. -/
def deadlineBoostCompute (config : BoostConfig) (basePriority : Int64)
    (deadlineNs estimatedRuntimeNs nowNs : UInt64) : BoostResult :=
  if !config.enabled || deadlineNs = 0 || estimatedRuntimeNs = 0 then
    ⟨basePriority, deadlineBoostNever, .none⟩
  else if nowNs ≥ deadlineNs then
    ⟨addI64Saturating basePriority config.criticalBoost, deadlineBoostNever, .critical⟩
  else
    let urgency := urgencyPermille estimatedRuntimeNs (deadlineNs - nowNs)
    let next := fun threshold => nextThresholdTime deadlineNs estimatedRuntimeNs threshold nowNs
    if urgency > config.criticalThresholdPermille then
      ⟨addI64Saturating basePriority config.criticalBoost, deadlineBoostNever, .critical⟩
    else if urgency > config.urgentThresholdPermille then
      ⟨addI64Saturating basePriority config.urgentBoost,
        next config.criticalThresholdPermille, .urgent⟩
    else if urgency > config.normalThresholdPermille then
      ⟨addI64Saturating basePriority config.normalBoost,
        next config.urgentThresholdPermille, .normal⟩
    else
      ⟨basePriority, next config.normalThresholdPermille, .none⟩

/-! ## The rounded quotient -/

theorem u64Max_toNat : u64Max.toNat = 2 ^ 64 - 1 := rfl

theorem toNat_le_u64Max (x : UInt64) : x.toNat ≤ u64Max.toNat := by
  have := x.toNat_lt
  rw [u64Max_toNat]
  omega

theorem ceilDiv_le_iff {n d m : ℕ} (hd : 0 < d) :
    (if n % d ≠ 0 then n / d + 1 else n / d) ≤ m ↔ n ≤ m * d := by
  rw [← ceilDiv_eq_ite n hd, ceilDiv_le_iff_le_mul hd, Nat.mul_comm]

/-- The rounded quotient stays within a bound exactly when the exact one does,
or the bound is the largest number. -/
theorem scaleDivCeilU64_le_iff {value divisor bound : UInt64} (hd : divisor ≠ 0) :
    scaleDivCeilU64 value divisor ≤ bound ↔
      value.toNat * 1000 ≤ bound.toNat * divisor.toNat ∨ bound = u64Max := by
  have hceil := ceilDiv_le_iff (n := value.toNat * 1000) (m := bound.toNat) (toNat_pos hd)
  have hbound := toNat_le_u64Max bound
  unfold scaleDivCeilU64
  rw [if_neg hd]
  dsimp only
  generalize (if value.toNat * 1000 % divisor.toNat ≠ 0 then value.toNat * 1000 / divisor.toNat + 1
    else value.toNat * 1000 / divisor.toNat) = q at hceil ⊢
  rw [← hceil]
  split
  · next hq =>
    rw [UInt64.le_iff_toNat_le]
    constructor
    · intro hle
      exact Or.inr (UInt64.toNat_inj.1 (le_antisymm hbound hle))
    · rintro (hle | rfl)
      · omega
      · exact le_rfl
  · next hq =>
    have hq' : (UInt64.ofNat q).toNat = q := by
      rw [UInt64.toNat_ofNat']
      rw [u64Max_toNat] at hq
      exact Nat.mod_eq_of_lt (by omega)
    rw [UInt64.le_iff_toNat_le, hq']
    constructor
    · exact Or.inl
    · rintro (hle | rfl)
      · exact hle
      · omega

/-! ## Refresh times -/

section Refresh

variable {deadlineNs estimatedRuntimeNs threshold : UInt64} {u t : UInt64}

/-- The next threshold is met after the clock value, or never. -/
theorem nextThresholdTime_next :
    nextThresholdTime deadlineNs estimatedRuntimeNs threshold u = deadlineBoostNever ∨
      u < nextThresholdTime deadlineNs estimatedRuntimeNs threshold u := by
  unfold nextThresholdTime
  split
  · exact Or.inl rfl
  · dsimp only
    generalize (if scaleDivCeilU64 estimatedRuntimeNs threshold ≥ deadlineNs then (1 : UInt64)
      else deadlineNs - scaleDivCeilU64 estimatedRuntimeNs threshold) = next
    split
    · split
      · exact Or.inl rfl
      · next hmax =>
        right
        rw [UInt64.lt_iff_toNat_lt, UInt64.toNat_add, UInt64.toNat_one]
        have hu := u.toNat_lt
        have hne : u.toNat ≠ 2 ^ 64 - 1 := by
          rw [← u64Max_toNat, ne_eq, UInt64.toNat_inj]
          exact hmax
        rw [Nat.mod_eq_of_lt (by omega)]
        omega
    · next hgt =>
      right
      exact UInt64.not_le.1 hgt

theorem urgencyPermille_eq {slack : UInt64} (h : slack ≠ 0) :
    urgencyPermille estimatedRuntimeNs slack = scaleDivCeilU64 estimatedRuntimeNs slack := by
  rw [urgencyPermille, if_neg h]

theorem slack_ne_zero (h : t < deadlineNs) : deadlineNs - t ≠ 0 := by
  intro h0
  have := congrArg UInt64.toNat h0
  rw [UInt64.toNat_sub_of_le _ _ (UInt64.le_of_lt h), UInt64.toNat_zero] at this
  rw [UInt64.lt_iff_toNat_lt] at h
  omega

/-- Urgency grows with time. -/
theorem urgency_mono (hle : u ≤ t) (ht : t < deadlineNs)
    (h : urgencyPermille estimatedRuntimeNs (deadlineNs - u) > threshold) :
    urgencyPermille estimatedRuntimeNs (deadlineNs - t) > threshold := by
  have hu : u < deadlineNs := UInt64.lt_of_le_of_lt hle ht
  rw [urgencyPermille_eq (slack_ne_zero hu)] at h
  rw [urgencyPermille_eq (slack_ne_zero ht)]
  rw [gt_iff_lt, ← UInt64.not_le, scaleDivCeilU64_le_iff (slack_ne_zero hu), not_or, not_le] at h
  rw [gt_iff_lt, ← UInt64.not_le, scaleDivCeilU64_le_iff (slack_ne_zero ht), not_or, not_le]
  refine ⟨lt_of_le_of_lt (Nat.mul_le_mul_left _ ?_) h.1, h.2⟩
  rw [UInt64.toNat_sub_of_le _ _ (UInt64.le_of_lt ht), UInt64.toNat_sub_of_le _ _ (UInt64.le_of_lt hu)]
  rw [UInt64.le_iff_toNat_le] at hle
  omega

/-- Before the time computed for a threshold the urgency does not pass it. -/
theorem urgency_le_of_lt_next (hT : threshold ≠ 0) (hle : u ≤ t) (hu : u < deadlineNs)
    (hurg : urgencyPermille estimatedRuntimeNs (deadlineNs - u) ≤ threshold)
    (hlt : t < nextThresholdTime deadlineNs estimatedRuntimeNs threshold u) :
    t < deadlineNs ∧ urgencyPermille estimatedRuntimeNs (deadlineNs - t) ≤ threshold := by
  have hsame : t = u → t < deadlineNs ∧
      urgencyPermille estimatedRuntimeNs (deadlineNs - t) ≤ threshold := by
    rintro rfl
    exact ⟨hu, hurg⟩
  have hnum := UInt64.le_iff_toNat_le.1 hle
  have hnumD := UInt64.lt_iff_toNat_lt.1 hu
  unfold nextThresholdTime at hlt
  rw [if_neg hT] at hlt
  dsimp only at hlt
  have hD := deadlineNs.toNat_lt
  -- When the computed time has passed, the refresh time is the very next nanosecond.
  have hclamp : t < (if u = u64Max then deadlineBoostNever else u + 1) → t = u := by
    intro hlt
    rw [if_neg (by rintro rfl; rw [u64Max_toNat] at hnumD; omega), UInt64.lt_iff_toNat_lt,
      UInt64.toNat_add, UInt64.toNat_one, Nat.mod_eq_of_lt (by omega)] at hlt
    exact UInt64.toNat_inj.1 (by omega)
  by_cases hwin : scaleDivCeilU64 estimatedRuntimeNs threshold ≥ deadlineNs
  · rw [if_pos hwin] at hlt
    split at hlt
    · exact hsame (hclamp hlt)
    · refine hsame (UInt64.toNat_inj.1 ?_)
      rw [UInt64.lt_iff_toNat_lt, UInt64.toNat_one] at hlt
      omega
  · rw [if_neg hwin] at hlt
    split at hlt
    · exact hsame (hclamp hlt)
    · -- The slack is still longer than the window of the threshold.
      have hwin' := UInt64.lt_iff_toNat_lt.1 (UInt64.not_le.1 hwin)
      rw [UInt64.lt_iff_toNat_lt, UInt64.toNat_sub_of_le _ _ (UInt64.le_of_lt (UInt64.not_le.1 hwin))]
        at hlt
      have ht : t < deadlineNs := UInt64.lt_iff_toNat_lt.2 (by omega)
      refine ⟨ht, ?_⟩
      rw [urgencyPermille_eq (slack_ne_zero ht), scaleDivCeilU64_le_iff (slack_ne_zero ht),
        UInt64.toNat_sub_of_le _ _ (UInt64.le_of_lt ht)]
      left
      have hexact := (scaleDivCeilU64_le_iff hT).1 (UInt64.le_refl
        (scaleDivCeilU64 estimatedRuntimeNs threshold))
      rcases hexact with hexact | hmax
      · calc estimatedRuntimeNs.toNat * 1000
            ≤ (scaleDivCeilU64 estimatedRuntimeNs threshold).toNat * threshold.toNat := hexact
          _ ≤ (deadlineNs.toNat - t.toNat) * threshold.toNat :=
            Nat.mul_le_mul_right _ (by omega)
          _ = threshold.toNat * (deadlineNs.toNat - t.toNat) := Nat.mul_comm _ _
      · rw [hmax, u64Max_toNat] at hwin'
        omega

end Refresh

theorem thresholds_ne_zero {config : BoostConfig} (hconfig : config.thresholdsRejected = false)
    (henabled : config.enabled = true) : config.normalThresholdPermille ≠ 0 ∧
      config.urgentThresholdPermille ≠ 0 ∧ config.criticalThresholdPermille ≠ 0 := by
  simp only [BoostConfig.thresholdsRejected, henabled, Bool.true_and, Bool.or_eq_false_iff,
    decide_eq_false_iff_not, UInt64.not_lt] at hconfig
  obtain ⟨⟨hnormal, hurgent⟩, hcritical⟩ := hconfig
  have hurgent0 : config.urgentThresholdPermille ≠ 0 := by
    intro h0
    rw [h0] at hurgent
    exact hnormal (UInt64.le_zero_iff.1 hurgent)
  refine ⟨hnormal, hurgent0, ?_⟩
  intro h0
  rw [h0] at hcritical
  exact hurgent0 (UInt64.le_zero_iff.1 hcritical)

/-- The refresh time lies after the clock value, or there is none. -/
theorem deadlineBoostCompute_next (config : BoostConfig) (base : Int64)
    (deadlineNs estimatedRuntimeNs u : UInt64) :
    (deadlineBoostCompute config base deadlineNs estimatedRuntimeNs u).nextRefreshNs =
        deadlineBoostNever ∨
      u < (deadlineBoostCompute config base deadlineNs estimatedRuntimeNs u).nextRefreshNs := by
  unfold deadlineBoostCompute
  split
  · exact Or.inl rfl
  · split
    · exact Or.inl rfl
    · dsimp only
      split
      · exact Or.inl rfl
      · split
        · exact nextThresholdTime_next
        · split
          · exact nextThresholdTime_next
          · exact nextThresholdTime_next

/-- The refresh time does not depend on the priority. -/
theorem deadlineBoostCompute_next_base (config : BoostConfig) (base base' : Int64)
    (deadlineNs estimatedRuntimeNs u : UInt64) :
    (deadlineBoostCompute config base deadlineNs estimatedRuntimeNs u).nextRefreshNs =
      (deadlineBoostCompute config base' deadlineNs estimatedRuntimeNs u).nextRefreshNs := by
  unfold deadlineBoostCompute
  split
  · rfl
  · split
    · rfl
    · dsimp only
      split
      · rfl
      · split
        · rfl
        · split <;> rfl

/-- A threshold is met at some time, unless the clock is one short of its end. -/
theorem nextThresholdTime_never {deadlineNs estimatedRuntimeNs threshold u : UInt64}
    (hT : threshold ≠ 0) (hR : estimatedRuntimeNs ≠ 0) (hu : u < deadlineNs)
    (h : nextThresholdTime deadlineNs estimatedRuntimeNs threshold u = deadlineBoostNever) :
    u.toNat + 1 = u64Max.toNat := by
  have hwin : 0 < (scaleDivCeilU64 estimatedRuntimeNs threshold).toNat := by
    rw [Nat.pos_iff_ne_zero]
    intro h0
    have hle : scaleDivCeilU64 estimatedRuntimeNs threshold ≤ 0 := by
      rw [UInt64.le_iff_toNat_le, h0]
      exact Nat.zero_le _
    rcases (scaleDivCeilU64_le_iff hT).1 hle with hle | hmax
    · have := toNat_pos hR
      rw [UInt64.toNat_zero] at hle
      omega
    · exact absurd hmax (by decide)
  have hD := toNat_le_u64Max deadlineNs
  rw [UInt64.lt_iff_toNat_lt] at hu
  have hclamp : (if u = u64Max then deadlineBoostNever else u + 1) = deadlineBoostNever →
      u.toNat + 1 = u64Max.toNat := by
    intro h
    rw [if_neg (by rintro rfl; omega)] at h
    have h := congrArg UInt64.toNat h
    rw [UInt64.toNat_add, UInt64.toNat_one, Nat.mod_eq_of_lt (by rw [u64Max_toNat] at hD; omega)] at h
    exact h
  unfold nextThresholdTime at h
  rw [if_neg hT] at h
  dsimp only at h
  by_cases hfar : scaleDivCeilU64 estimatedRuntimeNs threshold ≥ deadlineNs
  · rw [if_pos hfar] at h
    split at h
    · exact hclamp h
    · exact absurd h (by decide)
  · rw [if_neg hfar] at h
    split at h
    · exact hclamp h
    · have h := congrArg UInt64.toNat h
      rw [UInt64.toNat_sub_of_le _ _ (UInt64.le_of_lt (UInt64.not_le.1 hfar))] at h
      have : deadlineBoostNever.toNat = u64Max.toNat := rfl
      omega

/-- A task that waits for no refresh never will again. -/
theorem deadlineBoostCompute_never {config : BoostConfig}
    (hconfig : config.thresholdsRejected = false) (base : Int64)
    (deadlineNs estimatedRuntimeNs : UInt64) {u t : UInt64} (hle : u ≤ t)
    (h : (deadlineBoostCompute config base deadlineNs estimatedRuntimeNs u).nextRefreshNs =
      deadlineBoostNever) :
    (deadlineBoostCompute config base deadlineNs estimatedRuntimeNs t).nextRefreshNs =
      deadlineBoostNever := by
  by_cases hon : (!config.enabled || deadlineNs = 0 || estimatedRuntimeNs = 0) = true
  · rw [deadlineBoostCompute, if_pos hon]
  obtain ⟨hnormal, hurgent, hcritical⟩ := thresholds_ne_zero hconfig (by
    by_contra hoff
    simp [hoff] at hon)
  have hR : estimatedRuntimeNs ≠ 0 := by
    rintro rfl
    simp at hon
  by_cases hpast : t ≥ deadlineNs
  · rw [deadlineBoostCompute, if_neg hon, if_pos hpast]
  have ht : t < deadlineNs := UInt64.not_le.1 hpast
  have hu : u < deadlineNs := UInt64.lt_of_le_of_lt hle ht
  -- one short of its end the clock cannot go on without reaching the deadline
  have hend : ∀ threshold, threshold ≠ 0 →
      nextThresholdTime deadlineNs estimatedRuntimeNs threshold u = deadlineBoostNever → t = u := by
    intro threshold hT hnext
    have hlast := nextThresholdTime_never hT hR hu hnext
    have hD := toNat_le_u64Max deadlineNs
    rw [UInt64.lt_iff_toNat_lt] at ht
    rw [UInt64.le_iff_toNat_le] at hle
    exact UInt64.toNat_inj.1 (by omega)
  have hsame : t = u → (deadlineBoostCompute config base deadlineNs estimatedRuntimeNs
      t).nextRefreshNs = deadlineBoostNever := fun he => he ▸ h
  rw [deadlineBoostCompute, if_neg hon, if_neg (UInt64.not_le.2 hu)] at h
  dsimp only at h
  by_cases hc : urgencyPermille estimatedRuntimeNs (deadlineNs - u) > config.criticalThresholdPermille
  · rw [deadlineBoostCompute, if_neg hon, if_neg hpast]
    dsimp only
    rw [if_pos (urgency_mono hle ht hc)]
  · rw [if_neg hc] at h
    refine hsame ?_
    split at h
    · exact hend _ hcritical h
    · split at h
      · exact hend _ hurgent h
      · exact hend _ hnormal h

/-- **Until its refresh time a boost stays right**: tier and effective priority
are those of any clock value before it. -/
theorem deadlineBoostCompute_until {config : BoostConfig} (hconfig : config.thresholdsRejected = false)
    (base : Int64) (deadlineNs estimatedRuntimeNs : UInt64) {u t : UInt64} (hle : u ≤ t)
    (hlt : t < (deadlineBoostCompute config base deadlineNs estimatedRuntimeNs u).nextRefreshNs) :
    (deadlineBoostCompute config base deadlineNs estimatedRuntimeNs t).tier =
        (deadlineBoostCompute config base deadlineNs estimatedRuntimeNs u).tier ∧
      (deadlineBoostCompute config base deadlineNs estimatedRuntimeNs t).effectivePriority =
        (deadlineBoostCompute config base deadlineNs estimatedRuntimeNs u).effectivePriority := by
  unfold deadlineBoostCompute at hlt ⊢
  split
  · exact ⟨rfl, rfl⟩
  · next hon =>
    rw [if_neg hon] at hlt
    have henabled : config.enabled = true := by
      by_contra hoff
      simp [hoff] at hon
    obtain ⟨-, hurgent0, hcritical0⟩ := thresholds_ne_zero hconfig henabled
    simp only [BoostConfig.thresholdsRejected, henabled, Bool.true_and, Bool.or_eq_false_iff,
      decide_eq_false_iff_not, UInt64.not_lt] at hconfig
    obtain ⟨⟨hnormal, hurgent⟩, hcritical⟩ := hconfig
    by_cases hpast : u ≥ deadlineNs
    · rw [if_pos hpast, if_pos (UInt64.le_trans hpast hle)]
      exact ⟨rfl, rfl⟩
    rw [if_neg hpast] at hlt ⊢
    have hu : u < deadlineNs := UInt64.not_le.1 hpast
    dsimp only at hlt ⊢
    by_cases hc : urgencyPermille estimatedRuntimeNs (deadlineNs - u) > config.criticalThresholdPermille
    · rw [if_pos hc]
      by_cases ht : t ≥ deadlineNs
      · rw [if_pos ht]
        exact ⟨rfl, rfl⟩
      · rw [if_neg ht, if_pos (urgency_mono hle (UInt64.not_le.1 ht) hc)]
        exact ⟨rfl, rfl⟩
    rw [if_neg hc] at hlt ⊢
    by_cases hur : urgencyPermille estimatedRuntimeNs (deadlineNs - u) > config.urgentThresholdPermille
    · rw [if_pos hur] at hlt ⊢
      obtain ⟨ht, hbelow⟩ := urgency_le_of_lt_next hcritical0 hle hu (UInt64.not_lt.1 hc) hlt
      rw [if_neg (UInt64.not_le.2 ht), if_neg (UInt64.not_lt.2 hbelow),
        if_pos (urgency_mono hle ht hur)]
      exact ⟨rfl, rfl⟩
    rw [if_neg hur] at hlt ⊢
    by_cases hn : urgencyPermille estimatedRuntimeNs (deadlineNs - u) > config.normalThresholdPermille
    · rw [if_pos hn] at hlt ⊢
      obtain ⟨ht, hbelow⟩ := urgency_le_of_lt_next hurgent0 hle hu (UInt64.not_lt.1 hur) hlt
      rw [if_neg (UInt64.not_le.2 ht),
        if_neg (UInt64.not_lt.2 (UInt64.le_trans hbelow hcritical)), if_neg (UInt64.not_lt.2 hbelow),
        if_pos (urgency_mono hle ht hn)]
      exact ⟨rfl, rfl⟩
    rw [if_neg hn] at hlt ⊢
    obtain ⟨ht, hbelow⟩ := urgency_le_of_lt_next hnormal hle hu (UInt64.not_lt.1 hn) hlt
    rw [if_neg (UInt64.not_le.2 ht),
      if_neg (UInt64.not_lt.2 (UInt64.le_trans hbelow (UInt64.le_trans hurgent hcritical))),
      if_neg (UInt64.not_lt.2 (UInt64.le_trans hbelow hurgent)), if_neg (UInt64.not_lt.2 hbelow)]
    exact ⟨rfl, rfl⟩

theorem deadlineBoostCompute_fresh {config : BoostConfig} (hconfig : config.thresholdsRejected = false)
    (base : Int64) (deadlineNs estimatedRuntimeNs : UInt64) {u t : UInt64} (hle : u ≤ t)
    (hlt : t < (deadlineBoostCompute config base deadlineNs estimatedRuntimeNs u).nextRefreshNs) :
    (deadlineBoostCompute config base deadlineNs estimatedRuntimeNs t).effectivePriority =
      (deadlineBoostCompute config base deadlineNs estimatedRuntimeNs u).effectivePriority :=
  (deadlineBoostCompute_until hconfig base deadlineNs estimatedRuntimeNs hle hlt).2

/-! ## Tiers over time -/

/-- The tiers in order, as the enumeration numbers them. -/
def BoostTier.rank : BoostTier → ℕ
  | .none => 0
  | .normal => 1
  | .urgent => 2
  | .critical => 3

theorem BoostTier.rank_le_critical (tier : BoostTier) : tier.rank ≤ BoostTier.critical.rank := by
  cases tier <;> decide

/-- A tier is never given up. -/
theorem deadlineBoostCompute_tier_mono (config : BoostConfig) (base : Int64)
    (deadlineNs estimatedRuntimeNs : UInt64) {u t : UInt64} (hle : u ≤ t) :
    (deadlineBoostCompute config base deadlineNs estimatedRuntimeNs u).tier.rank ≤
      (deadlineBoostCompute config base deadlineNs estimatedRuntimeNs t).tier.rank := by
  by_cases hon : (!config.enabled || deadlineNs = 0 || estimatedRuntimeNs = 0) = true
  · rw [deadlineBoostCompute, deadlineBoostCompute, if_pos hon, if_pos hon]
  by_cases hpast : t ≥ deadlineNs
  · refine le_trans (BoostTier.rank_le_critical _) (le_of_eq ?_)
    rw [deadlineBoostCompute, if_neg hon, if_pos hpast]
  · have ht : t < deadlineNs := UInt64.not_le.1 hpast
    have hu : ¬ u ≥ deadlineNs := UInt64.not_le.2 (UInt64.lt_of_le_of_lt hle ht)
    have hmono : ∀ threshold,
        urgencyPermille estimatedRuntimeNs (deadlineNs - u) > threshold →
        urgencyPermille estimatedRuntimeNs (deadlineNs - t) > threshold :=
      fun _ h => urgency_mono hle ht h
    rw [deadlineBoostCompute, deadlineBoostCompute, if_neg hon, if_neg hon, if_neg hpast, if_neg hu]
    dsimp only
    generalize urgencyPermille estimatedRuntimeNs (deadlineNs - u) = before at hmono ⊢
    generalize urgencyPermille estimatedRuntimeNs (deadlineNs - t) = after at hmono ⊢
    by_cases hc : after > config.criticalThresholdPermille
    · rw [if_pos hc]
      exact BoostTier.rank_le_critical _
    rw [if_neg hc, if_neg fun h => hc (hmono _ h)]
    by_cases hur : after > config.urgentThresholdPermille
    · rw [if_pos hur]
      split
      · exact le_rfl
      · split
        · exact (by decide : BoostTier.normal.rank ≤ BoostTier.urgent.rank)
        · exact (by decide : BoostTier.none.rank ≤ BoostTier.urgent.rank)
    rw [if_neg hur, if_neg fun h => hur (hmono _ h)]
    by_cases hn : after > config.normalThresholdPermille
    · rw [if_pos hn]
      split
      · exact le_rfl
      · exact (by decide : BoostTier.none.rank ≤ BoostTier.normal.rank)
    · rw [if_neg hn, if_neg fun h => hn (hmono _ h)]

/-- **The refresh time is never late.**  For every accepted configuration: the
refresh time lies after the clock value unless that is the largest number; until
then tier and effective priority stay; and tiers never go down. -/
theorem refresh_never_late {config : BoostConfig} (henabled : config.enabled = true)
    (hnormal : 0 < config.normalThresholdPermille)
    (hurgent : config.normalThresholdPermille ≤ config.urgentThresholdPermille)
    (hcritical : config.urgentThresholdPermille ≤ config.criticalThresholdPermille)
    (base : Int64) (deadlineNs estimatedRuntimeNs now : UInt64) :
    let compute := deadlineBoostCompute config base deadlineNs estimatedRuntimeNs
    (now ≠ u64Max → now < (compute now).nextRefreshNs) ∧
    (∀ t, now ≤ t → t < (compute now).nextRefreshNs →
      (compute t).tier = (compute now).tier ∧
        (compute t).effectivePriority = (compute now).effectivePriority) ∧
    ∀ t t', now ≤ t → t ≤ t' → (compute t).tier.rank ≤ (compute t').tier.rank := by
  have hconfig : config.thresholdsRejected = false := by
    simp only [BoostConfig.thresholdsRejected, henabled, Bool.true_and, Bool.or_eq_false_iff,
      decide_eq_false_iff_not, UInt64.not_lt]
    refine ⟨⟨?_, hurgent⟩, hcritical⟩
    intro h0
    rw [h0] at hnormal
    exact UInt64.lt_irrefl _ hnormal
  refine ⟨fun hmax => ?_, fun t hle hlt => ?_, fun t t' _ hle => ?_⟩
  · rcases deadlineBoostCompute_next config base deadlineNs estimatedRuntimeNs now with h | h
    · rw [h, UInt64.lt_iff_toNat_lt]
      refine lt_of_le_of_ne (toNat_le_u64Max now) ?_
      rw [ne_eq, UInt64.toNat_inj]
      exact hmax
    · exact h
  · exact deadlineBoostCompute_until hconfig base deadlineNs estimatedRuntimeNs hle hlt
  · exact deadlineBoostCompute_tier_mono config base deadlineNs estimatedRuntimeNs hle

/-- The default configuration, enabled. -/
def boostEnabled : BoostConfig := { deadlineBoostConfigInit with enabled := true }

/-- One second of work, due after two seconds, looked at after a nanosecond. -/
theorem refresh_never_late_twoSeconds :
    (1 : UInt64) < (deadlineBoostCompute boostEnabled 5 2000000000 1000000000 1).nextRefreshNs := by
  have henabled : boostEnabled.enabled = true := rfl
  exact (refresh_never_late henabled (by decide) (by decide) (by decide) 5 2000000000 1000000000 1).1
    (by decide)

end QhwScheduler
