import Mathlib.Data.Option.Basic
import Mathlib.Algebra.Order.Floor.Div

/-!
# Arithmetic that must not wrap

A program whose machine arithmetic never wraps computes the same when every
operation is replaced by one that fails on wrapping.

* `addExact`, `subExact`, `mulExact` — on unsigned 64-bit numbers.
* `addExactI64`, `subExactI64` — on signed ones.
* `addExact_eq` and its kind — an operation that stays in range succeeds, and
  its result is the one in unbounded arithmetic.
-/

namespace Foundations

/-! ## Unsigned -/

/-- The sum, if it fits. -/
def addExact (a b : UInt64) : Option UInt64 :=
  if a.toNat + b.toNat < 2 ^ 64 then some (a + b) else none

/-- The difference, if it is not negative. -/
def subExact (a b : UInt64) : Option UInt64 :=
  if b.toNat ≤ a.toNat then some (a - b) else none

/-- The product, if it fits. -/
def mulExact (a b : UInt64) : Option UInt64 :=
  if a.toNat * b.toNat < 2 ^ 64 then some (a * b) else none

section Unsigned

variable {a b : UInt64}

theorem toNat_pos (h : a ≠ 0) : 0 < a.toNat := by
  rw [Nat.pos_iff_ne_zero, ne_eq, ← UInt64.toNat_zero, UInt64.toNat_inj]
  exact h

theorem addExact_eq (h : a.toNat + b.toNat < 2 ^ 64) :
    addExact a b = some (a + b) ∧ (a + b).toNat = a.toNat + b.toNat :=
  ⟨if_pos h, by rw [UInt64.toNat_add, Nat.mod_eq_of_lt h]⟩

theorem subExact_eq (h : b.toNat ≤ a.toNat) :
    subExact a b = some (a - b) ∧ (a - b).toNat = a.toNat - b.toNat :=
  ⟨if_pos h, UInt64.toNat_sub_of_le _ _ (UInt64.le_iff_toNat_le.2 h)⟩

theorem mulExact_eq (h : a.toNat * b.toNat < 2 ^ 64) :
    mulExact a b = some (a * b) ∧ (a * b).toNat = a.toNat * b.toNat :=
  ⟨if_pos h, by rw [UInt64.toNat_mul, Nat.mod_eq_of_lt h]⟩

end Unsigned

/-! ## Signed -/

/-- A number that fits into 64 bits with a sign. -/
def InI64 (x : ℤ) : Prop := Int64.minValue.toInt ≤ x ∧ x ≤ Int64.maxValue.toInt

instance (x : ℤ) : Decidable (InI64 x) := inferInstanceAs (Decidable (_ ∧ _))

/-- The sum, if it fits. -/
def addExactI64 (a b : Int64) : Option Int64 :=
  if InI64 (a.toInt + b.toInt) then some (a + b) else none

/-- The difference, if it fits. -/
def subExactI64 (a b : Int64) : Option Int64 :=
  if InI64 (a.toInt - b.toInt) then some (a - b) else none

section Signed

variable {a b : Int64} {x : ℤ}

theorem InI64.bmod (h : InI64 x) : x.bmod (2 ^ 64) = x := by
  obtain ⟨hmin, hmax⟩ := h
  rw [Int64.toInt_minValue] at hmin
  rw [Int64.toInt_maxValue] at hmax
  refine Int.bmod_eq_of_le ?_ ?_ <;> omega

theorem addExactI64_eq (h : InI64 (a.toInt + b.toInt)) :
    addExactI64 a b = some (a + b) ∧ (a + b).toInt = a.toInt + b.toInt :=
  ⟨if_pos h, by rw [Int64.toInt_add, h.bmod]⟩

theorem subExactI64_eq (h : InI64 (a.toInt - b.toInt)) :
    subExactI64 a b = some (a - b) ∧ (a - b).toInt = a.toInt - b.toInt :=
  ⟨if_pos h, by rw [Int64.toInt_sub, h.bmod]⟩

end Signed

/-! ## Rounding up -/

theorem ceilDiv_eq_ite (n : ℕ) {d : ℕ} (hd : 0 < d) :
    n ⌈/⌉ d = if n % d ≠ 0 then n / d + 1 else n / d := by
  have hn := Nat.div_add_mod n d
  have hlt := Nat.mod_lt n hd
  rw [Nat.ceilDiv_eq_add_pred_div]
  split
  · next hrem =>
    refine Nat.div_eq_of_lt_le ?_ ?_
    · rw [Nat.add_mul, Nat.mul_comm]
      omega
    · rw [Nat.add_mul, Nat.add_mul, Nat.mul_comm]
      omega
  · next hrem =>
    refine Nat.div_eq_of_lt_le ?_ ?_
    · rw [Nat.mul_comm]
      omega
    · rw [Nat.add_mul, Nat.mul_comm]
      omega

/-- Whole multiples of the divisor are not rounded. -/
theorem mul_add_ceilDiv (q n : ℕ) {d : ℕ} (hd : 0 < d) :
    (q * d + n) ⌈/⌉ d = q + n ⌈/⌉ d := by
  rw [Nat.ceilDiv_eq_add_pred_div, Nat.ceilDiv_eq_add_pred_div,
    show q * d + n + d - 1 = n + d - 1 + q * d by omega, Nat.add_mul_div_right _ _ hd]
  exact Nat.add_comm _ _

end Foundations
