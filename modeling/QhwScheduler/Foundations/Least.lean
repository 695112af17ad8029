import QhwScheduler.Foundations.Comparator

/-!
# The least value of a list

* `leastBy` — the first value that none of the others precedes; `leastBy_mem`,
  `leastBy_le`, `leastBy_eq_some` — what it is, and when a value is it.
-/

namespace Foundations

open Std (TransCmp OrientedCmp ReflCmp)

variable {α : Type} {cmp : α → α → Ordering} {l : List α} {a b : α}

/-- The first value that none of the others precedes. -/
def leastBy (cmp : α → α → Ordering) : List α → Option α
  | [] => none
  | a :: l =>
    match leastBy cmp l with
    | none => some a
    | some b => if (cmp a b).isLE then some a else some b

theorem leastBy_eq_none_iff : leastBy cmp l = none ↔ l = [] := by
  cases l with
  | nil => simp [leastBy]
  | cons a l =>
    simp only [leastBy]
    split
    · simp
    · split <;> simp

theorem leastBy_mem (h : leastBy cmp l = some a) : a ∈ l := by
  induction l generalizing a with
  | nil => simp [leastBy] at h
  | cons b l ih =>
    simp only [leastBy] at h
    split at h
    · rw [← Option.some.inj h]
      exact List.mem_cons_self
    · next c hc =>
      split at h
      · rw [← Option.some.inj h]
        exact List.mem_cons_self
      · rw [← Option.some.inj h]
        exact List.mem_cons_of_mem b (ih hc)

theorem leastBy_le [TransCmp cmp] (h : leastBy cmp l = some a) (hb : b ∈ l) : (cmp a b).isLE := by
  induction l generalizing a with
  | nil => simp at hb
  | cons c l ih =>
    simp only [leastBy] at h
    split at h
    · next hnone =>
      obtain rfl := leastBy_eq_none_iff.1 hnone
      obtain rfl := Option.some.inj h
      rw [List.mem_singleton.1 hb]
      exact ReflCmp.isLE_rfl
    · next d hd =>
      split at h
      · next hle =>
        obtain rfl := Option.some.inj h
        rcases List.mem_cons.1 hb with rfl | hb
        · exact ReflCmp.isLE_rfl
        · exact TransCmp.isLE_trans hle (ih hd hb)
      · next hgt =>
        obtain rfl := Option.some.inj h
        rcases List.mem_cons.1 hb with rfl | hb
        · exact isLE_of_not_lt fun hlt => hgt (by rw [hlt]; rfl)
        · exact ih hd hb

/-- A value that precedes all others is the least one. -/
theorem leastBy_eq_some [TransCmp cmp] (ha : a ∈ l) (h : ∀ b ∈ l, b ≠ a → cmp a b = .lt) :
    leastBy cmp l = some a := by
  cases hleast : leastBy cmp l with
  | none =>
    rw [leastBy_eq_none_iff.1 hleast] at ha
    simp at ha
  | some b =>
    by_cases hba : b = a
    · rw [hba]
    · have hlt := h b (leastBy_mem hleast) hba
      have hle := leastBy_le hleast ha
      rw [show cmp b a = (cmp a b).swap from OrientedCmp.eq_swap, hlt] at hle
      simp at hle

end Foundations
