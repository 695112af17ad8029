import QhwScheduler.Foundations.Exact
import QhwScheduler.Policy.DeadlineBoost

/-!
# The division for platforms without 128-bit integers

`qhw_deadline_boost.c` has a second `scale_div_ceil_u64`, for compilers that do
not know `__int128`.

* `scaledRemainderCeilU64`, `scaleDivCeilU64Portable` — the second version.
* `scaledRemainderCeilU64Exact`, `scaleDivCeilU64PortableExact` — the same
  program with operations that fail on wrapping.
* `RemainderInv` — long division: what the loop has divided so far.
* `portable_division` — the two versions agree, and nothing wraps.
-/

namespace QhwScheduler

open Foundations

/-! ## The program -/

/-- The variables of the loop of `scaled_remainder_ceil_u64`. -/
structure RemainderState where
  quotient : UInt64
  acc : UInt64

/-- One turn of the loop of `scaled_remainder_ceil_u64`. -/
def scaledRemainderTurn (remainder divisor : UInt64) (s : RemainderState) : RemainderState :=
  if s.acc ≥ divisor - remainder then ⟨s.quotient + 1, s.acc - (divisor - remainder)⟩
  else ⟨s.quotient, s.acc + remainder⟩

/-- `n` turns of the loop of `scaled_remainder_ceil_u64`. -/
def scaledRemainderLoop (remainder divisor : UInt64) : ℕ → RemainderState → RemainderState
  | 0, s => s
  | n + 1, s => scaledRemainderLoop remainder divisor n (scaledRemainderTurn remainder divisor s)

/-- `scaled_remainder_ceil_u64`. -/
def scaledRemainderCeilU64 (remainder divisor : UInt64) : UInt64 :=
  if remainder = 0 then 0
  else
    let s := scaledRemainderLoop remainder divisor 1000 ⟨0, 0⟩
    s.quotient + (if s.acc ≠ 0 then 1 else 0)

/-- `scale_div_ceil_u64` without `__uint128_t`. -/
def scaleDivCeilU64Portable (value divisor : UInt64) : UInt64 :=
  if divisor = 0 then u64Max
  else
    let quotient := value / divisor
    let remainder := value % divisor
    if quotient > u64Max / 1000 then u64Max
    else
      let scaled := quotient * 1000
      let extra := scaledRemainderCeilU64 remainder divisor
      if extra > u64Max - scaled then u64Max else scaled + extra

/-! ## The program with operations that fail on wrapping -/

/-- `scaledRemainderTurn` with operations that fail on wrapping. -/
def scaledRemainderTurnExact (remainder divisor : UInt64) (s : RemainderState) :
    Option RemainderState := do
  let gap ← subExact divisor remainder
  if s.acc ≥ gap then
    let acc ← subExact s.acc gap
    let quotient ← addExact s.quotient 1
    return ⟨quotient, acc⟩
  else
    let acc ← addExact s.acc remainder
    return ⟨s.quotient, acc⟩

/-- `scaledRemainderLoop` with operations that fail on wrapping. -/
def scaledRemainderLoopExact (remainder divisor : UInt64) :
    ℕ → RemainderState → Option RemainderState
  | 0, s => some s
  | n + 1, s => do
    let s ← scaledRemainderTurnExact remainder divisor s
    scaledRemainderLoopExact remainder divisor n s

/-- `scaledRemainderCeilU64` with operations that fail on wrapping. -/
def scaledRemainderCeilU64Exact (remainder divisor : UInt64) : Option UInt64 :=
  if remainder = 0 then some 0
  else do
    let s ← scaledRemainderLoopExact remainder divisor 1000 ⟨0, 0⟩
    addExact s.quotient (if s.acc ≠ 0 then 1 else 0)

/-- `scaleDivCeilU64Portable` with operations that fail on wrapping. -/
def scaleDivCeilU64PortableExact (value divisor : UInt64) : Option UInt64 :=
  if divisor = 0 then some u64Max
  else
    let quotient := value / divisor
    let remainder := value % divisor
    if quotient > u64Max / 1000 then some u64Max
    else do
      let scaled ← mulExact quotient 1000
      let extra ← scaledRemainderCeilU64Exact remainder divisor
      let room ← subExact u64Max scaled
      if extra > room then return u64Max else addExact scaled extra

/-! ## The loop -/

/-- After `i` turns `i * remainder` has been divided. -/
structure RemainderInv (remainder divisor : UInt64) (i : ℕ) (s : RemainderState) : Prop where
  value : s.quotient.toNat * divisor.toNat + s.acc.toNat = i * remainder.toNat
  acc_lt : s.acc.toNat < divisor.toNat

section Loop

variable {remainder divisor : UInt64} {i n : ℕ} {s : RemainderState}

theorem RemainderInv.start (h : remainder.toNat < divisor.toNat) :
    RemainderInv remainder divisor 0 ⟨0, 0⟩ := by
  refine ⟨?_, ?_⟩
  · simp
  · show (0 : UInt64).toNat < divisor.toNat
    rw [UInt64.toNat_zero]
    omega

/-- Each turn adds at most one to the quotient. -/
theorem RemainderInv.quotient_le (h : RemainderInv remainder divisor i s)
    (hlt : remainder.toNat < divisor.toNat) : s.quotient.toNat ≤ i := by
  have hle : s.quotient.toNat * divisor.toNat ≤ i * divisor.toNat := by
    calc s.quotient.toNat * divisor.toNat ≤ i * remainder.toNat := by
          have := h.value
          omega
      _ ≤ i * divisor.toNat := Nat.mul_le_mul_left i (le_of_lt hlt)
  exact Nat.le_of_mul_le_mul_right hle (by omega)

/-- **One turn** divides once more, and nothing wraps. -/
theorem RemainderInv.turn (h : RemainderInv remainder divisor i s)
    (hlt : remainder.toNat < divisor.toNat) (hi : i < 1000) :
    RemainderInv remainder divisor (i + 1) (scaledRemainderTurn remainder divisor s) ∧
      scaledRemainderTurnExact remainder divisor s =
        some (scaledRemainderTurn remainder divisor s) := by
  have hquotient := h.quotient_le hlt
  have hacc := h.acc_lt
  have hvalue := h.value
  have hdivisor := divisor.toNat_lt
  obtain ⟨hgapExact, hgap⟩ := subExact_eq (le_of_lt hlt)
  unfold scaledRemainderTurn scaledRemainderTurnExact
  rw [hgapExact, Option.bind_eq_bind, Option.bind_some]
  split
  · next hge =>
    rw [ge_iff_le, UInt64.le_iff_toNat_le, hgap] at hge
    obtain ⟨haccExact, haccVal⟩ := subExact_eq (a := s.acc) (b := divisor - remainder) (by omega)
    obtain ⟨hquoExact, hquoVal⟩ := addExact_eq (a := s.quotient) (b := 1) (by
      rw [UInt64.toNat_one]
      omega)
    rw [UInt64.toNat_one] at hquoVal
    refine ⟨⟨?_, ?_⟩, by rw [haccExact, hquoExact]; rfl⟩
    · show (s.quotient + 1).toNat * divisor.toNat + (s.acc - (divisor - remainder)).toNat =
        (i + 1) * remainder.toNat
      rw [hquoVal, haccVal, hgap, Nat.add_mul, Nat.add_mul]
      omega
    · show (s.acc - (divisor - remainder)).toNat < divisor.toNat
      omega
  · next hlt' =>
    rw [ge_iff_le, UInt64.not_le, UInt64.lt_iff_toNat_lt, hgap] at hlt'
    obtain ⟨haccExact, haccVal⟩ := addExact_eq (a := s.acc) (b := remainder) (by omega)
    refine ⟨⟨?_, ?_⟩, by rw [haccExact]; rfl⟩
    · show s.quotient.toNat * divisor.toNat + (s.acc + remainder).toNat = (i + 1) * remainder.toNat
      rw [haccVal, Nat.add_mul]
      omega
    · show (s.acc + remainder).toNat < divisor.toNat
      omega

/-- The whole loop, by induction on the turns that are left. -/
theorem RemainderInv.loop (h : RemainderInv remainder divisor i s)
    (hlt : remainder.toNat < divisor.toNat) (hn : i + n ≤ 1000) :
    RemainderInv remainder divisor (i + n) (scaledRemainderLoop remainder divisor n s) ∧
      scaledRemainderLoopExact remainder divisor n s =
        some (scaledRemainderLoop remainder divisor n s) := by
  induction n generalizing i s with
  | zero => exact ⟨h, rfl⟩
  | succ n ih =>
    obtain ⟨hturn, hexact⟩ := h.turn hlt (by omega)
    obtain ⟨hrest, hrestExact⟩ := ih hturn (by omega)
    refine ⟨?_, ?_⟩
    · rw [show i + (n + 1) = i + 1 + n by omega]
      exact hrest
    · rw [scaledRemainderLoopExact, hexact]
      exact hrestExact

/-- The quotient, and one for what it leaves over. -/
theorem RemainderInv.rounded (h : RemainderInv remainder divisor i s)
    (hlt : remainder.toNat < divisor.toNat) (hi : i ≤ 1000) :
    (s.quotient + (if s.acc ≠ 0 then 1 else 0)).toNat = (remainder.toNat * i) ⌈/⌉ divisor.toNat ∧
      addExact s.quotient (if s.acc ≠ 0 then 1 else 0) =
        some (s.quotient + (if s.acc ≠ 0 then 1 else 0)) := by
  have hquotient := h.quotient_le hlt
  have hvalue := h.value
  have hacc := h.acc_lt
  rw [Nat.mul_comm i] at hvalue
  have hdiv : remainder.toNat * i / divisor.toNat = s.quotient.toNat := by
    refine Nat.div_eq_of_lt_le ?_ ?_
    · omega
    · rw [Nat.add_mul]
      omega
  have hmod : remainder.toNat * i % divisor.toNat = s.acc.toNat := by
    have := Nat.div_add_mod (remainder.toNat * i) divisor.toNat
    rw [hdiv, Nat.mul_comm] at this
    omega
  have hround : (if s.acc ≠ 0 then (1 : UInt64) else 0).toNat = if s.acc.toNat ≠ 0 then 1 else 0 := by
    by_cases h0 : s.acc = 0
    · simp [h0]
    · have hne : s.acc.toNat ≠ 0 := by
        rw [ne_eq, ← UInt64.toNat_zero, UInt64.toNat_inj]
        exact h0
      rw [if_pos h0, if_pos hne, UInt64.toNat_one]
  have hone : (if s.acc.toNat ≠ 0 then 1 else 0) ≤ 1 := by split <;> omega
  obtain ⟨haddExact, hadd⟩ := addExact_eq (a := s.quotient) (b := if s.acc ≠ 0 then 1 else 0) (by
    rw [hround]
    omega)
  refine ⟨?_, haddExact⟩
  rw [hadd, hround, ceilDiv_eq_ite _ (by omega), hdiv, hmod]
  split <;> rfl

/-- The scaled remainder, rounded up. -/
theorem scaledRemainderCeilU64_spec (hlt : remainder.toNat < divisor.toNat) :
    (scaledRemainderCeilU64 remainder divisor).toNat = (remainder.toNat * 1000) ⌈/⌉ divisor.toNat ∧
      scaledRemainderCeilU64Exact remainder divisor =
        some (scaledRemainderCeilU64 remainder divisor) := by
  unfold scaledRemainderCeilU64 scaledRemainderCeilU64Exact
  by_cases h0 : remainder = 0
  · rw [if_pos h0, if_pos h0, h0, UInt64.toNat_zero, Nat.zero_mul, zero_ceilDiv]
    exact ⟨rfl, rfl⟩
  · obtain ⟨hinv, hexact⟩ := (RemainderInv.start hlt).loop (n := 1000) hlt (by omega)
    rw [Nat.zero_add] at hinv
    rw [if_neg h0, if_neg h0, hexact, Option.bind_eq_bind, Option.bind_some]
    dsimp only
    generalize scaledRemainderLoop remainder divisor 1000 ⟨0, 0⟩ = s at hinv ⊢
    exact hinv.rounded hlt (by omega)

end Loop

/-! ## The two versions -/

/-- The 128-bit version: the exact quotient rounded up, or the largest number. -/
theorem scaleDivCeilU64_toNat (value : UInt64) {divisor : UInt64} (hd : divisor ≠ 0) :
    (scaleDivCeilU64 value divisor).toNat =
      min ((value.toNat * 1000) ⌈/⌉ divisor.toNat) u64Max.toNat := by
  unfold scaleDivCeilU64
  rw [if_neg hd]
  dsimp only
  rw [← ceilDiv_eq_ite _ (toNat_pos hd)]
  split
  · next hbig => rw [min_eq_right (le_of_lt hbig)]
  · next hsmall =>
    rw [min_eq_left (not_lt.1 hsmall), UInt64.toNat_ofNat']
    rw [gt_iff_lt, not_lt, u64Max_toNat] at hsmall
    exact Nat.mod_eq_of_lt (by omega)

/-- The portable version: the same number, by operations that do not wrap. -/
theorem scaleDivCeilU64Portable_toNat (value : UInt64) {divisor : UInt64} (hd : divisor ≠ 0) :
    (scaleDivCeilU64Portable value divisor).toNat =
        min ((value.toNat * 1000) ⌈/⌉ divisor.toNat) u64Max.toNat ∧
      scaleDivCeilU64PortableExact value divisor =
        some (scaleDivCeilU64Portable value divisor) := by
  have hpos := toNat_pos hd
  have hmod : (value % divisor).toNat < divisor.toNat := by
    rw [UInt64.toNat_mod]
    exact Nat.mod_lt _ hpos
  obtain ⟨hextra, hextraExact⟩ := scaledRemainderCeilU64_spec hmod
  have hmax := u64Max_toNat
  -- a thousand times the quotient, and the rounded rest
  have hsum : (value.toNat * 1000) ⌈/⌉ divisor.toNat = (value / divisor).toNat * 1000 +
      (scaledRemainderCeilU64 (value % divisor) divisor).toNat := by
    have hvalue := Nat.div_add_mod value.toNat divisor.toNat
    have hsplit : value.toNat * 1000 = (value / divisor).toNat * 1000 * divisor.toNat +
        (value % divisor).toNat * 1000 := by
      rw [Nat.mul_right_comm, ← Nat.add_mul, UInt64.toNat_div, UInt64.toNat_mod,
        Nat.mul_comm (value.toNat / divisor.toNat), hvalue]
    rw [hextra, hsplit, mul_add_ceilDiv _ _ hpos]
  unfold scaleDivCeilU64Portable scaleDivCeilU64PortableExact
  rw [if_neg hd, if_neg hd]
  dsimp only
  have hlimit : (u64Max / 1000).toNat = (2 ^ 64 - 1) / 1000 := by decide
  have hthousand : (1000 : UInt64).toNat = 1000 := by decide
  generalize scaledRemainderCeilU64 (value % divisor) divisor = extra at hsum hextraExact ⊢
  by_cases hbig : value / divisor > u64Max / 1000
  · rw [if_pos hbig, if_pos hbig]
    rw [gt_iff_lt, UInt64.lt_iff_toNat_lt, hlimit] at hbig
    exact ⟨(min_eq_right (by omega)).symm, rfl⟩
  rw [if_neg hbig, if_neg hbig]
  rw [gt_iff_lt, UInt64.not_lt, UInt64.le_iff_toNat_le, hlimit] at hbig
  obtain ⟨hscaledExact, hscaled⟩ := mulExact_eq (a := value / divisor) (b := 1000) (by
    rw [hthousand]
    omega)
  rw [hthousand] at hscaled
  obtain ⟨hroomExact, hroom⟩ := subExact_eq (toNat_le_u64Max (value / divisor * 1000))
  rw [hscaledExact, hextraExact, Option.bind_eq_bind, Option.bind_some, Option.bind_some, hroomExact,
    Option.bind_some]
  by_cases hover : extra > u64Max - value / divisor * 1000
  · rw [if_pos hover, if_pos hover]
    rw [gt_iff_lt, UInt64.lt_iff_toNat_lt, hroom] at hover
    exact ⟨(min_eq_right (by omega)).symm, rfl⟩
  · rw [if_neg hover, if_neg hover]
    rw [gt_iff_lt, UInt64.not_lt, UInt64.le_iff_toNat_le, hroom] at hover
    obtain ⟨haddExact, hadd⟩ := addExact_eq (a := value / divisor * 1000) (b := extra) (by omega)
    refine ⟨?_, haddExact⟩
    rw [hadd, hscaled, hsum, min_eq_left (by omega)]

/-- **The portable division is the 128-bit one.**  For all operands both versions
return the quotient of a thousand times the value, rounded up and saturated, and
the largest number for a zero divisor; no operation of the portable one wraps. -/
theorem portable_division (value divisor : UInt64) :
    scaleDivCeilU64Portable value divisor = scaleDivCeilU64 value divisor ∧
      (scaleDivCeilU64Portable value divisor).toNat =
        (if divisor = 0 then 2 ^ 64 - 1
          else min ((1000 * value.toNat) ⌈/⌉ divisor.toNat) (2 ^ 64 - 1)) ∧
      scaleDivCeilU64PortableExact value divisor =
        some (scaleDivCeilU64Portable value divisor) := by
  by_cases hd : divisor = 0
  · subst hd
    rw [scaleDivCeilU64Portable, scaleDivCeilU64PortableExact, scaleDivCeilU64, if_pos rfl, if_pos rfl,
      if_pos rfl, if_pos rfl]
    exact ⟨rfl, u64Max_toNat, rfl⟩
  · obtain ⟨hportable, hexact⟩ := scaleDivCeilU64Portable_toNat value hd
    refine ⟨?_, ?_, hexact⟩
    · rw [← UInt64.toNat_inj, hportable, scaleDivCeilU64_toNat value hd]
    · rw [if_neg hd, hportable, u64Max_toNat, Nat.mul_comm]

end QhwScheduler
