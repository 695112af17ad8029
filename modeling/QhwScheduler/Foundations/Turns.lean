import QhwScheduler.Foundations.Comparator

/-!
# Groups that take turns

Values in groups; the group that comes first is served with the least of its values, and
then it comes last.

* `rank` — how many values of its group come before a value.
* `inTurns` — the comparison by rank, and then by the place of the group.
* `inTurns_least` — what is served is least; `inTurns_served` — a service does not change
  how the others compare.
* `idxOf_front`, `idxOf_others`, `idxOf_back` — the places when the first of a list goes to
  its end.
-/

namespace Foundations

open Std (TransCmp OrientedCmp ReflCmp)

variable {α κ : Type} [DecidableEq κ] {cmp : α → α → Ordering} {g : α → κ} {place place' : κ → ℕ}
  {l l' : List α} {a b c : α}

/-- How many values of its group come before a value. -/
def rank (cmp : α → α → Ordering) (g : α → κ) (l : List α) (a : α) : ℕ :=
  l.countP fun b => g b = g a ∧ cmp b a = .lt

/-- The comparison by rank, and then by the place of the group. -/
def inTurns (cmp : α → α → Ordering) (g : α → κ) (place : κ → ℕ) (l : List α) (a b : α) : Ordering :=
  (compare (rank cmp g l a) (rank cmp g l b)).then (compare (place (g a)) (place (g b)))

instance inTurns_transCmp (cmp : α → α → Ordering) (g : α → κ) (place : κ → ℕ) (l : List α) :
    TransCmp (inTurns cmp g place l) := by
  have hrank := transCmp_comap (compare (α := ℕ)) (rank cmp g l)
  have hplace := transCmp_comap (compare (α := ℕ)) fun a => place (g a)
  show TransCmp (compareLex (fun a b => compare (rank cmp g l a) (rank cmp g l b))
    fun a b => compare (place (g a)) (place (g b)))
  infer_instance

/-! ## Ranks -/

/-- More values are counted when one is that was not. -/
theorem countP_lt {p q : α → Bool} (h : ∀ b ∈ l, p b = true → q b = true) (ha : a ∈ l)
    (hq : q a = true) (hp : p a = false) : l.countP p < l.countP q := by
  induction l with
  | nil => simp at ha
  | cons b l ih =>
    have hrest : ∀ c ∈ l, p c = true → q c = true := fun c hc => h c (List.mem_cons_of_mem b hc)
    rcases List.mem_cons.1 ha with rfl | hin
    · rw [List.countP_cons_of_neg (by simp [hp]), List.countP_cons_of_pos hq]
      have := List.countP_mono_left hrest
      omega
    · have hlt := ih hrest hin
      have hb := h b List.mem_cons_self
      rw [List.countP_cons, List.countP_cons]
      split
      · next hpb => rw [if_pos (hb hpb)]; omega
      · split <;> omega

/-- What comes later in its group has a larger rank. -/
theorem rank_lt [TransCmp cmp] (ha : a ∈ l) (hg : g a = g b) (h : cmp a b = .lt) :
    rank cmp g l a < rank cmp g l b := by
  refine countP_lt (fun c _ hc => ?_) ha (by simp [hg, h]) (by simp [ReflCmp.compare_self])
  have hc : g c = g a ∧ cmp c a = .lt := by simpa using hc
  simpa using ⟨hc.1.trans hg, TransCmp.lt_trans hc.2 h⟩

/-- Values of the same rank in groups of the same place are the same. -/
theorem eq_of_inTurns [TransCmp cmp] (hanti : ∀ a ∈ l, ∀ b ∈ l, cmp a b = .eq → a = b)
    (hplace : ∀ a ∈ l, ∀ b ∈ l, place (g a) = place (g b) → g a = g b) (ha : a ∈ l) (hb : b ∈ l)
    (h : inTurns cmp g place l a b = .eq) : a = b := by
  obtain ⟨hrank, hsame⟩ := Ordering.then_eq_eq.1 h
  have hrank := compare_eq_iff_eq.1 hrank
  have hg := hplace a ha b hb (compare_eq_iff_eq.1 hsame)
  cases hcmp : cmp a b with
  | lt =>
    have := rank_lt ha hg hcmp
    omega
  | eq => exact hanti a ha b hb hcmp
  | gt =>
    have := rank_lt hb hg.symm (OrientedCmp.lt_of_gt hcmp)
    omega

/-! ## A service -/

/-- The least value of its group has no others before it. -/
theorem rank_least [TransCmp cmp] (hleast : ∀ b ∈ l, g b = g a → (cmp a b).isLE) :
    rank cmp g l a = 0 := by
  refine List.countP_eq_zero.2 fun b hb h => ?_
  obtain ⟨hg, hlt⟩ : g b = g a ∧ cmp b a = .lt := by simpa using h
  have hgt : cmp a b = .gt := OrientedCmp.gt_of_lt hlt
  have hle := hleast b hb hg
  rw [hgt] at hle
  simp at hle

/-- **What is served is least**: the least value of the first group. -/
theorem inTurns_least [TransCmp cmp] (hleast : ∀ b ∈ l, g b = g a → (cmp a b).isLE)
    (hfirst : ∀ b ∈ l, place (g a) ≤ place (g b)) (hb : b ∈ l) :
    (inTurns cmp g place l a b).isLE := by
  unfold inTurns
  rw [rank_least hleast, Ordering.isLE_then_iff_and, Nat.isLE_compare]
  exact ⟨Nat.zero_le _, Or.inr (Nat.isLE_compare.2 (hfirst b hb))⟩

/-- When the least value of a group is served, the others of its group move up by one. -/
theorem rank_served [TransCmp cmp] (hperm : l.Perm (a :: l')) (hnew : a ∉ l')
    (hanti : ∀ a ∈ l, ∀ b ∈ l, cmp a b = .eq → a = b)
    (hleast : ∀ b ∈ l, g b = g a → (cmp a b).isLE) (hb : b ∈ l') :
    rank cmp g l b = rank cmp g l' b + if g b = g a then 1 else 0 := by
  have ha : a ∈ l := hperm.mem_iff.2 List.mem_cons_self
  have hbl : b ∈ l := hperm.mem_iff.2 (List.mem_cons_of_mem a hb)
  have hne : a ≠ b := fun h => hnew (h ▸ hb)
  unfold rank
  rw [hperm.countP_eq, List.countP_cons]
  by_cases hg : g b = g a
  · have hlt : cmp a b = .lt := by
      have hle := hleast b hbl hg
      cases hcmp : cmp a b with
      | lt => rfl
      | eq => exact absurd (hanti a ha b hbl hcmp) hne
      | gt => simp [hcmp] at hle
    simp [hg, hlt]
  · simp [hg, Ne.symm hg]

/-- To come before all of the next rank is to come after all of its own one. -/
theorem compare_succ_then_lt (i j : ℕ) :
    (compare (i + 1) j).then .lt = (compare i j).then .gt := by
  rcases Nat.lt_trichotomy i j with hij | rfl | hij
  · rw [Nat.compare_eq_lt.2 hij]
    rcases Nat.eq_or_lt_of_le (Nat.succ_le_of_lt hij) with heq | hlt
    · rw [show i + 1 = j from heq, compare_eq_iff_eq.2 rfl]
      rfl
    · rw [Nat.compare_eq_lt.2 hlt]
      rfl
  · rw [Nat.compare_eq_gt.2 (Nat.lt_succ_self i), compare_eq_iff_eq.2 rfl]
    rfl
  · rw [Nat.compare_eq_gt.2 hij, Nat.compare_eq_gt.2 (Nat.lt_succ_of_lt hij)]
    rfl

theorem compare_succ_then_gt (i j : ℕ) :
    (compare i (j + 1)).then .gt = (compare i j).then .lt := by
  have h := congrArg Ordering.swap (compare_succ_then_lt j i)
  rw [Ordering.swap_then, Ordering.swap_then, ← OrientedCmp.eq_swap, ← OrientedCmp.eq_swap] at h
  exact h

theorem compare_succ_succ (i j : ℕ) : compare (i + 1) (j + 1) = compare i j := by
  rcases Nat.lt_trichotomy i j with hij | rfl | hij
  · rw [Nat.compare_eq_lt.2 hij, Nat.compare_eq_lt.2 (Nat.succ_lt_succ hij)]
  · rw [compare_eq_iff_eq.2 rfl, compare_eq_iff_eq.2 rfl]
  · rw [Nat.compare_eq_gt.2 hij, Nat.compare_eq_gt.2 (Nat.succ_lt_succ hij)]

/-- **A service changes nothing for the others**: the values of the group that was served
move up by one, and their group goes behind all others. -/
theorem inTurns_served [TransCmp cmp] (hperm : l.Perm (a :: l')) (hnew : a ∉ l')
    (hanti : ∀ a ∈ l, ∀ b ∈ l, cmp a b = .eq → a = b)
    (hleast : ∀ b ∈ l, g b = g a → (cmp a b).isLE)
    (hfirst : ∀ b ∈ l', g b ≠ g a → place (g a) < place (g b))
    (hothers : ∀ b ∈ l', ∀ c ∈ l', g b ≠ g a → g c ≠ g a →
      compare (place' (g b)) (place' (g c)) = compare (place (g b)) (place (g c)))
    (hlast : ∀ b ∈ l', ∀ c ∈ l', g b ≠ g a → g c = g a → place' (g b) < place' (g c))
    (hb : b ∈ l') (hc : c ∈ l') :
    inTurns cmp g place' l' b c = inTurns cmp g place l b c := by
  unfold inTurns
  rw [rank_served hperm hnew hanti hleast hb, rank_served hperm hnew hanti hleast hc]
  by_cases hgb : g b = g a
  · by_cases hgc : g c = g a
    · rw [if_pos hgb, if_pos hgc, compare_succ_succ, hgb, hgc, compare_eq_iff_eq.2 rfl,
        compare_eq_iff_eq.2 rfl]
    · -- the group came first, and comes last now
      have hold := hfirst c hc hgc
      have hnow := hlast c hc b hb hgc hgb
      rw [if_pos hgb, if_neg hgc, Nat.compare_eq_gt.2 hnow, hgb, Nat.compare_eq_lt.2 hold,
        compare_succ_then_lt, Nat.add_zero]
  · by_cases hgc : g c = g a
    · have hold := hfirst b hb hgb
      have hnow := hlast b hb c hc hgb hgc
      rw [if_neg hgb, if_pos hgc, Nat.compare_eq_lt.2 hnow, hgc, Nat.compare_eq_gt.2 hold,
        compare_succ_then_gt, Nat.add_zero]
    · rw [if_neg hgb, if_neg hgc, hothers b hb c hc hgb hgc, Nat.add_zero, Nat.add_zero]

/-! ## Places in a list -/

section Places

variable {ring back : List κ} {k j j' : κ}

/-- The others come after the front. -/
theorem idxOf_front (hj : j ≠ k) : (k :: ring).idxOf k < (k :: ring).idxOf j := by
  rw [List.idxOf_cons_self, List.idxOf_cons_ne ring (Ne.symm hj)]
  exact Nat.succ_pos _

/-- The others stay in their order. -/
theorem idxOf_others (hj : j ∈ ring) (hj' : j' ∈ ring) (hk : k ∉ ring) :
    compare ((ring ++ back).idxOf j) ((ring ++ back).idxOf j') =
      compare ((k :: ring).idxOf j) ((k :: ring).idxOf j') := by
  have hne : ∀ {j}, j ∈ ring → k ≠ j := fun hj h => hk (h ▸ hj)
  rw [List.idxOf_append_of_mem hj, List.idxOf_append_of_mem hj', List.idxOf_cons_ne ring (hne hj),
    List.idxOf_cons_ne ring (hne hj')]
  exact (compare_succ_succ _ _).symm

/-- The front comes last. -/
theorem idxOf_back (hj : j ∈ ring) (hk : k ∉ ring) :
    (ring ++ [k]).idxOf j < (ring ++ [k]).idxOf k := by
  rw [List.idxOf_append_of_mem hj, List.idxOf_append_of_notMem hk]
  exact Nat.lt_of_lt_of_le (List.idxOf_lt_length_of_mem hj) (Nat.le_add_right _ _)

end Places

end Foundations
