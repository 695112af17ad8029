import Mathlib.Data.List.ReduceOption
import Mathlib.Data.List.Sort
import QhwScheduler.Foundations.Comparator
import QhwScheduler.Foundations.Run

/-!
# Draining

A machine some of whose steps take out the least of the values that it holds takes them
out in order.

* `sortBy` — the values in order; `sortBy_of_least` — the least one comes first.
* `Drains` — which steps take out the least value.
* `outputs_drain` — what a run of such a machine takes out.
-/

namespace Foundations

open Std (TransCmp OrientedCmp)

variable {α β S I T : Type} {cmp : α → α → Ordering} {l l' : List α} {a : α}

/-- The values in order. -/
def sortBy (cmp : α → α → Ordering) (l : List α) : List α :=
  l.insertionSort fun a b => (cmp a b).isLE

theorem sortBy_perm (cmp : α → α → Ordering) (l : List α) : (sortBy cmp l).Perm l :=
  List.perm_insertionSort _ l

/-- The order of two values is the order of their places. -/
theorem sortBy_pairwise [TransCmp cmp] (l : List α) :
    (sortBy cmp l).Pairwise fun a b => (cmp a b).isLE := by
  have htotal : Std.Total fun a b : α => ((cmp a b).isLE : Prop) := by
    refine ⟨fun a b => ?_⟩
    by_cases hle : (cmp a b).isLE
    · exact Or.inl hle
    · exact Or.inr (by rw [OrientedCmp.lt_of_not_isLE hle]; rfl)
  have htrans : IsTrans α fun a b : α => ((cmp a b).isLE : Prop) :=
    ⟨fun _ _ _ => TransCmp.isLE_trans⟩
  exact List.pairwise_insertionSort (fun a b => ((cmp a b).isLE : Prop)) l

/-- **The least value comes first**, and the others in order. -/
theorem sortBy_of_least [TransCmp cmp] (hperm : l.Perm (a :: l'))
    (hanti : ∀ a ∈ l, ∀ b ∈ l, cmp a b = .eq → a = b) (hleast : ∀ b ∈ l, (cmp a b).isLE) :
    sortBy cmp l = a :: sortBy cmp l' := by
  refine List.Perm.eq_of_pairwise ?_ (sortBy_pairwise l) ?_
    ((sortBy_perm cmp l).trans (hperm.trans ((sortBy_perm cmp l').symm.cons a)))
  · intro b c hb hc hbc hcb
    have hb := (sortBy_perm cmp l).mem_iff.1 hb
    have hc := (hperm.trans ((sortBy_perm cmp l').symm.cons a)).mem_iff.2 hc
    exact hanti b hb c hc (OrientedCmp.isLE_antisymm hbc hcb)
  · refine List.pairwise_cons.2 ⟨fun b hb => hleast b (hperm.mem_iff.2 ?_), sortBy_pairwise l'⟩
    exact List.mem_cons_of_mem a ((sortBy_perm cmp l').mem_iff.1 hb)

/-- A run of steps that take time. -/
def Timed (tick : T → I → T → Prop) : T → List I → T → Prop
  | t, [], t' => t = t'
  | t, i :: is, t' => ∃ u, tick t i u ∧ Timed tick u is t'

/-- Some of the steps take out the least of the values that a state holds, and show it,
unless there is none; the others leave them alone. -/
structure Drains (step : S → I → S) (out : S → I → Option β) (f : α → β)
    (cmp : α → α → Ordering) (takes : I → Bool) (tick : T → I → T → Prop)
    (R : T → S → List α → Prop) : Prop where
  take : ∀ {t i u s l}, tick t i u → takes i = true → R t s l →
    (l = [] ∧ out s i = none ∧ R u (step s i) []) ∨
      ∃ a l', l.Perm (a :: l') ∧ out s i = some (f a) ∧ (∀ b ∈ l, (cmp a b).isLE) ∧
        R u (step s i) l'
  keep : ∀ {t i u s l}, tick t i u → takes i = false → R t s l →
    out s i = none ∧ R u (step s i) l

/-- **The values are taken out in order**, as long as there are any. -/
theorem outputs_drain [TransCmp cmp] {step : S → I → S} {out : S → I → Option β} {f : α → β}
    {takes : I → Bool} {tick : T → I → T → Prop} {R : T → S → List α → Prop}
    (h : Drains step out f cmp takes tick R) {t t' : T} {is : List I} (his : Timed tick t is t')
    {s : S} (hs : R t s l) (hanti : ∀ a ∈ l, ∀ b ∈ l, cmp a b = .eq → a = b) :
    (outputs step out s is).reduceOption = ((sortBy cmp l).take (is.countP takes)).map f := by
  induction is generalizing t s l with
  | nil => rfl
  | cons i is ih =>
    obtain ⟨u, htick, hrest⟩ := his
    rw [outputs]
    cases htakes : takes i with
    | false =>
      obtain ⟨hout, hnext⟩ := h.keep htick htakes hs
      rw [hout, List.reduceOption_cons_of_none, ih hrest hnext hanti,
        List.countP_cons_of_neg (by simp [htakes])]
    | true =>
      rw [List.countP_cons_of_pos htakes]
      rcases h.take htick htakes hs with
        ⟨rfl, hout, hnext⟩ | ⟨a, l', hperm, hout, hleast, hnext⟩
      · rw [hout, List.reduceOption_cons_of_none, ih hrest hnext hanti]
        simp [sortBy]
      · have hsub : ∀ b ∈ l', b ∈ l := fun b hb => hperm.mem_iff.2 (List.mem_cons_of_mem a hb)
        rw [hout, List.reduceOption_cons_of_some,
          ih hrest hnext fun b hb c hc => hanti b (hsub b hb) c (hsub c hc),
          sortBy_of_least hperm hanti hleast]
        rfl

end Foundations
