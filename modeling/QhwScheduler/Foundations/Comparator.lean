import Mathlib.Data.List.Basic
import Mathlib.Tactic

/-!
# Three-way comparisons

Comparisons as functions into `Ordering`, composed lexicographically.

* `lexCompare` — the first of a list of comparisons that tells two values apart
  decides; `lexCompare_transCmp` — it is a total preorder when each of them is.
* `transCmp_comap` — comparing images under a function.
* `optionCompare` — nothing comes before everything.
* `firsts` — the values that come first; `untied_iff` — when ties go to the first in line.
-/

namespace Foundations

open Std (TransCmp ReflCmp OrientedCmp)

variable {α β : Type}

theorem isLE_of_not_lt {cmp : α → α → Ordering} [OrientedCmp cmp] {a b : α}
    (h : ¬ cmp a b = .lt) : (cmp b a).isLE := by
  rw [show cmp b a = (cmp a b).swap from OrientedCmp.eq_swap]
  cases hc : cmp a b with
  | lt => exact absurd hc h
  | eq => rfl
  | gt => rfl

/-- Comparing the images under a function. -/
theorem transCmp_comap (cmp : β → β → Ordering) [TransCmp cmp] (f : α → β) :
    TransCmp (fun a b => cmp (f a) (f b)) where
  eq_swap := OrientedCmp.eq_swap
  isLE_trans := TransCmp.isLE_trans

/-- Nothing comes before everything. -/
def optionCompare (cmp : α → α → Ordering) : Option α → Option α → Ordering
  | some a, some b => cmp a b
  | none, none => .eq
  | none, some _ => .lt
  | some _, none => .gt

instance optionCompare_transCmp (cmp : α → α → Ordering) [TransCmp cmp] :
    TransCmp (optionCompare cmp) where
  eq_swap := by
    intro a b
    cases a with
    | none => cases b <;> rfl
    | some a =>
      cases b with
      | none => rfl
      | some b => exact OrientedCmp.eq_swap (α := α)
  isLE_trans := by
    intro a b c h₁ h₂
    cases a with
    | none => cases c <;> rfl
    | some a =>
      cases b with
      | none => simp [optionCompare] at h₁
      | some b =>
        cases c with
        | none => simp [optionCompare] at h₂
        | some c =>
          have hle : (cmp a b).isLE := h₁
          have hle' : (cmp b c).isLE := h₂
          show (cmp a c).isLE
          exact TransCmp.isLE_trans hle hle'

/-! ## Lexicographic composition -/

/-- The first comparison that tells the two values apart decides. -/
def lexCompare : List (α → α → Ordering) → α → α → Ordering
  | [], _, _ => .eq
  | c :: cs, a, b =>
    match c a b with
    | .eq => lexCompare cs a b
    | o => o

theorem lexCompare_cons (c : α → α → Ordering) (cs : List (α → α → Ordering)) (a b : α) :
    lexCompare (c :: cs) a b = (c a b).then (lexCompare cs a b) := by
  show (match c a b with | .eq => lexCompare cs a b | o => o) = _
  cases c a b <;> rfl

theorem lexCompare_append (cs ds : List (α → α → Ordering)) (a b : α) :
    lexCompare (cs ++ ds) a b = (lexCompare cs a b).then (lexCompare ds a b) := by
  induction cs with
  | nil => rfl
  | cons c cs ih => rw [List.cons_append, lexCompare_cons, lexCompare_cons, ih, Ordering.then_assoc]

/-- The values tie when every comparison ties. -/
theorem lexCompare_eq_iff (cs : List (α → α → Ordering)) (a b : α) :
    lexCompare cs a b = .eq ↔ ∀ c ∈ cs, c a b = .eq := by
  induction cs with
  | nil => simp [lexCompare]
  | cons c cs ih => rw [lexCompare_cons, Ordering.then_eq_eq, ih, List.forall_mem_cons]

theorem lexCompare_transCmp :
    ∀ (cs : List (α → α → Ordering)), (∀ c ∈ cs, TransCmp c) → TransCmp (lexCompare cs)
  | [], _ => { eq_swap := rfl, isLE_trans := fun _ _ => rfl }
  | c :: cs, h => by
    have hc : TransCmp c := h c (List.mem_cons_self ..)
    have hcs : TransCmp (lexCompare cs) :=
      lexCompare_transCmp cs (fun d hd => h d (List.mem_cons_of_mem _ hd))
    have heq : lexCompare (c :: cs) = compareLex c (lexCompare cs) := by
      funext a b
      exact lexCompare_cons c cs a b
    rw [heq]
    infer_instance

/-! ## Ties -/

section Ties

variable {cmp cmp' : α → α → Ordering} {l : List α} {a b d : α}

/-- The values of a list that come first, in their order in the list. -/
def firsts (cmp : α → α → Ordering) (l : List α) : List α :=
  l.filter fun a => l.all fun b => (cmp a b).isLE

theorem mem_firsts : a ∈ firsts cmp l ↔ a ∈ l ∧ ∀ b ∈ l, (cmp a b).isLE := by
  simp [firsts]

theorem firsts_tie [TransCmp cmp] (ha : a ∈ firsts cmp l) (hb : b ∈ firsts cmp l) :
    cmp a b = .eq := by
  rw [mem_firsts] at ha hb
  exact OrientedCmp.isLE_antisymm (ha.2 b hb.1) (hb.2 a ha.1)

/-- What ties with a value that comes first comes first. -/
theorem mem_firsts_of_tie [TransCmp cmp] (ha : a ∈ firsts cmp l) (hb : b ∈ l)
    (htie : cmp b a = .eq) : b ∈ firsts cmp l := by
  refine mem_firsts.2 ⟨hb, fun c hc => ?_⟩
  have hle : (cmp b a).isLE := by
    rw [htie]
    rfl
  exact TransCmp.isLE_trans hle ((mem_firsts.1 ha).2 c hc)

/-- Of a list without repetitions, what stands behind something is not the head. -/
theorem mem_tail_of_sublist {f : α} {rest : List α} (h : [a, b].Sublist (f :: rest)) : b ∈ rest := by
  cases h with
  | cons _ h => exact h.subset (by simp)
  | cons_cons _ h => exact List.singleton_sublist.1 h

/-- **When ties go to the first in line.**  A value that is least by two comparisons in turn
has nothing before it that ties with it on the first one, if and only if the second one puts
the first in line before all others that come first. -/
theorem untied_iff [TransCmp cmp] [TransCmp cmp'] (hnd : l.Nodup)
    (hdecides : ∀ a ∈ l, ∀ b ∈ l, cmp' a b = .eq → a = b) (hd : d ∈ l)
    (hleast : ∀ e ∈ l, ((cmp d e).then (cmp' d e)).isLE) :
    (∀ e, [e, d].Sublist l → cmp e d ≠ .eq) ↔
      ∀ f rest, firsts cmp l = f :: rest → ∀ e ∈ rest, (cmp' f e).isLE := by
  have hsub : (firsts cmp l).Sublist l := List.filter_sublist
  have hfirst : d ∈ firsts cmp l := mem_firsts.2 ⟨hd, fun e he =>
    (Ordering.isLE_then_iff_and.1 (hleast e he)).1⟩
  have hsecond : ∀ e ∈ firsts cmp l, (cmp' d e).isLE := by
    intro e he
    have hle := hleast e (hsub.subset he)
    rwa [firsts_tie hfirst he] at hle
  constructor
  · intro hold f rest hf e he
    have hfd : f = d := by
      by_contra hne
      rw [hf] at hfirst
      have hin : d ∈ rest := (List.mem_cons.1 hfirst).resolve_left (Ne.symm hne)
      have hfront : [f, d].Sublist (firsts cmp l) := by
        rw [hf]
        exact (List.singleton_sublist.2 hin).cons_cons f
      have hdin : d ∈ firsts cmp l := hfront.subset (by simp)
      have hfin : f ∈ firsts cmp l := hfront.subset (by simp)
      exact hold f (hfront.trans hsub) (firsts_tie hfin hdin)
    rw [hfd]
    exact hsecond e (by rw [hf]; exact List.mem_cons_of_mem f he)
  · intro hsmall e hed htie
    have he : e ∈ firsts cmp l := mem_firsts_of_tie hfirst (hed.subset (by simp)) htie
    have hpair : [e, d].Sublist (firsts cmp l) := by
      have hkeep := hed.filter fun a => l.all fun b => (cmp a b).isLE
      rwa [List.filter_eq_self.2] at hkeep
      intro a ha
      rcases List.mem_pair.1 ha with rfl | rfl
      · exact (List.mem_filter.1 he).2
      · exact (List.mem_filter.1 hfirst).2
    obtain ⟨f, rest, hf⟩ := List.exists_cons_of_ne_nil (List.ne_nil_of_mem hfirst)
    rw [hf] at hpair
    have hin := mem_tail_of_sublist hpair
    have hfl : f ∈ firsts cmp l := by
      rw [hf]
      exact List.mem_cons_self
    -- the head is not after `d`, and `d` comes first, so they are the same
    have heq := hdecides f (hsub.subset hfl) d hd
      (OrientedCmp.isLE_antisymm (hsmall f rest hf d hin) (hsecond f hfl))
    have hnd' := hnd.sublist hsub
    rw [hf, List.nodup_cons, heq] at hnd'
    exact hnd'.1 hin

end Ties
end Foundations
