import Mathlib.Data.List.Nodup
import Mathlib.Data.List.Perm.Basic
import Mathlib.Tactic

/-!
# Array heaps whose entries know their position

A binary heap kept in a list in level order, over entries that are compared
through a function `cmp` that may change between two calls, because the entries
are pointers and the data they point at is written in place.

* `Above` — the tree on positions; `HeapOrdered` — every entry is at most the
  entries below it; `OrderedOff` and `OrderedBut` — the same with one position,
  or one entry, left out.
* `HeapOps` — the operations of a heap library, and `HeapOps.Lawful`, what they
  promise: they permute the entries and restore the order around one position.
* `Heap` — a heap together with the position field of each entry, which the
  library's callback writes whenever an entry moves, and the largest size so
  far.  `Heap.Sound` says that the fields are right; each operation keeps it.
* `Heap.Holds`, `Heap.Loose` — a heap that holds exactly the entries of a set, in
  order, or in order but for one entry; `Loose.remove`, `Loose.reheapify` — what
  the calls through an entry make of it; `Holds.root_le` — the root is a least
  entry.
-/

namespace Foundations

open Std (TransCmp ReflCmp)

/-! ## Positions -/

/-- The parent of a position in level order. -/
def parent (i : ℕ) : ℕ := (i - 1) / 2

theorem parent_lt {i : ℕ} (h : 0 < i) : parent i < i := by
  unfold parent
  omega

/-- `Above a b`: position `a` lies on the path from the root to `b`, before `b`. -/
inductive Above (a : ℕ) : ℕ → Prop
  /-- A parent is above its child. -/
  | parent {i : ℕ} (h : 0 < i) (ha : a = Foundations.parent i) : Above a i
  /-- What is above the parent is above the child. -/
  | step {i : ℕ} (h : 0 < i) (ha : Above a (Foundations.parent i)) : Above a i

theorem Above.lt {a b : ℕ} (h : Above a b) : a < b := by
  induction h with
  | parent h ha => exact ha ▸ parent_lt h
  | step h _ ih => exact lt_trans ih (parent_lt h)

theorem Above.trans {a b c : ℕ} (hab : Above a b) (hbc : Above b c) : Above a c := by
  induction hbc with
  | parent h hb => exact .step h (hb ▸ hab)
  | step h _ ih => exact .step h ih

theorem above_root {b : ℕ} (h : 0 < b) : Above 0 b := by
  induction b using Nat.strong_induction_on with
  | _ b ih =>
    by_cases hp : 0 < Foundations.parent b
    · exact .step h (ih _ (parent_lt h) hp)
    · exact .parent h (by omega)

/-- Whatever is above `b` is its parent or above its parent. -/
theorem Above.eq_or_above {a b : ℕ} (h : Above a b) :
    a = Foundations.parent b ∨ Above a (Foundations.parent b) := by
  cases h with
  | parent _ ha => exact Or.inl ha
  | step _ ha => exact Or.inr ha

/-- A position below `a` is one of its children, or below one of them. -/
theorem Above.through_child {a b : ℕ} (h : Above a b) :
    ∃ c, 0 < c ∧ Foundations.parent c = a ∧ (b = c ∨ Above c b) := by
  induction h with
  | @parent i h ha => exact ⟨i, h, ha.symm, Or.inl rfl⟩
  | @step i h _ ih =>
    obtain ⟨c, hc, hpc, hcb⟩ := ih
    refine ⟨c, hc, hpc, Or.inr ?_⟩
    rcases hcb with hcb | hcb
    · exact .parent h hcb.symm
    · exact .step h hcb

/-! ## The heap order -/

section Order

variable {ι : Type} {cmp cmp' : ι → ι → Ordering} {l : List ι}

/-- Every entry is at most every entry below it. -/
def HeapOrdered (cmp : ι → ι → Ordering) (l : List ι) : Prop :=
  ∀ a b x y, Above a b → l[a]? = some x → l[b]? = some y → (cmp x y).isLE

/-- The heap order with the entry at position `i` left out. -/
def OrderedOff (cmp : ι → ι → Ordering) (i : ℕ) (l : List ι) : Prop :=
  ∀ a b x y, Above a b → a ≠ i → b ≠ i → l[a]? = some x → l[b]? = some y → (cmp x y).isLE

/-- The heap order with the entry `k` left out, wherever it stands. -/
def OrderedBut (cmp : ι → ι → Ordering) (k : ι) (l : List ι) : Prop :=
  ∀ a b x y, Above a b → x ≠ k → y ≠ k → l[a]? = some x → l[b]? = some y → (cmp x y).isLE

theorem heapOrdered_nil (cmp : ι → ι → Ordering) : HeapOrdered cmp [] := by
  intro a b x y _ hx
  simp at hx

theorem HeapOrdered.off (h : HeapOrdered cmp l) (i : ℕ) : OrderedOff cmp i l :=
  fun a b x y hab _ _ hx hy => h a b x y hab hx hy

theorem HeapOrdered.but (h : HeapOrdered cmp l) (k : ι) : OrderedBut cmp k l :=
  fun a b x y hab _ _ hx hy => h a b x y hab hx hy

/-- The root of a heap is a least entry. -/
theorem HeapOrdered.root_le [ReflCmp cmp] {r : ι} (h : HeapOrdered cmp l) (hr : l[0]? = some r) :
    ∀ y ∈ l, (cmp r y).isLE := by
  intro y hy
  obtain ⟨b, hb⟩ := List.getElem?_of_mem hy
  rcases Nat.eq_zero_or_pos b with rfl | hpos
  · rw [hr] at hb
    obtain rfl := Option.some.inj hb
    exact ReflCmp.isLE_rfl
  · exact h 0 b r y (above_root hpos) hr hb

/-- Two comparisons that agree on the entries order the same heaps. -/
theorem HeapOrdered.congr (h : HeapOrdered cmp l)
    (hc : ∀ x ∈ l, ∀ y ∈ l, cmp x y = cmp' x y) : HeapOrdered cmp' l := by
  intro a b x y hab hx hy
  rw [← hc x (List.mem_of_getElem? hx) y (List.mem_of_getElem? hy)]
  exact h a b x y hab hx hy

/-- When only the data of `k` changed, the order is intact off `k`. -/
theorem OrderedBut.congr {k : ι} (h : OrderedBut cmp k l)
    (hc : ∀ x ∈ l, ∀ y ∈ l, x ≠ k → y ≠ k → cmp x y = cmp' x y) : OrderedBut cmp' k l := by
  intro a b x y hab hxk hyk hx hy
  rw [← hc x (List.mem_of_getElem? hx) y (List.mem_of_getElem? hy) hxk hyk]
  exact h a b x y hab hxk hyk hx hy

/-- Leaving out an entry is leaving out its position. -/
theorem OrderedBut.off {k : ι} {i : ℕ} (h : OrderedBut cmp k l) (hnd : l.Nodup)
    (hi : l[i]? = some k) : OrderedOff cmp i l := by
  have hne : ∀ a x, a ≠ i → l[a]? = some x → x ≠ k := by
    rintro a x hai hx rfl
    exact hai ((List.getElem?_inj (List.getElem?_eq_some_iff.1 hx).1 hnd).1 (hx.trans hi.symm))
  intro a b x y hab hai hbi hx hy
  exact h a b x y hab (hne a x hai hx) (hne b y hbi hy) hx hy

/-- Leaving out something that is not there is leaving out nothing. -/
theorem OrderedBut.of_not_mem {k : ι} (h : OrderedBut cmp k l) (hk : k ∉ l) :
    HeapOrdered cmp l := by
  intro a b x y hab hx hy
  exact h a b x y hab (fun e => hk (e ▸ List.mem_of_getElem? hx))
    (fun e => hk (e ▸ List.mem_of_getElem? hy)) hx hy

end Order

/-! ## Heap libraries -/

/-- The operations of a heap library on the level-order list.  `pop` and
`removeAt` return what is left. -/
structure HeapOps where
  /-- Add an entry. -/
  push : {ι : Type} → (ι → ι → Ordering) → List ι → ι → List ι
  /-- Take the root away. -/
  pop : {ι : Type} → (ι → ι → Ordering) → List ι → List ι
  /-- Take the entry at a position away. -/
  removeAt : {ι : Type} → (ι → ι → Ordering) → List ι → ℕ → List ι
  /-- Restore the order after the entry at a position was changed in place. -/
  reheapifyAt : {ι : Type} → (ι → ι → Ordering) → List ι → ℕ → List ι

/-- What a binary heap promises, for every comparison that is a total preorder. -/
structure HeapOps.Lawful (H : HeapOps) : Prop where
  push_perm : ∀ {ι : Type} (cmp : ι → ι → Ordering) [TransCmp cmp] (l : List ι) (x : ι),
    (H.push cmp l x).Perm (x :: l)
  push_ordered : ∀ {ι : Type} (cmp : ι → ι → Ordering) [TransCmp cmp] (l : List ι) (x : ι),
    HeapOrdered cmp l → HeapOrdered cmp (H.push cmp l x)
  pop_perm : ∀ {ι : Type} (cmp : ι → ι → Ordering) [TransCmp cmp] (l : List ι) (x : ι),
    (H.pop cmp (x :: l)).Perm l
  pop_ordered : ∀ {ι : Type} (cmp : ι → ι → Ordering) [TransCmp cmp] (l : List ι),
    HeapOrdered cmp l → HeapOrdered cmp (H.pop cmp l)
  removeAt_perm : ∀ {ι : Type} (cmp : ι → ι → Ordering) [TransCmp cmp] (l : List ι) (i : ℕ)
    (x : ι), l[i]? = some x → (x :: H.removeAt cmp l i).Perm l
  removeAt_ordered : ∀ {ι : Type} (cmp : ι → ι → Ordering) [TransCmp cmp] (l : List ι) (i : ℕ),
    i < l.length → OrderedOff cmp i l → HeapOrdered cmp (H.removeAt cmp l i)
  reheapifyAt_perm : ∀ {ι : Type} (cmp : ι → ι → Ordering) [TransCmp cmp] (l : List ι) (i : ℕ),
    (H.reheapifyAt cmp l i).Perm l
  reheapifyAt_ordered : ∀ {ι : Type} (cmp : ι → ι → Ordering) [TransCmp cmp] (l : List ι)
    (i : ℕ), i < l.length → OrderedOff cmp i l → HeapOrdered cmp (H.reheapifyAt cmp l i)

/-! ## Heaps with position fields -/

/-- A heap, the position field of every entry (`none`: marked as not in the
heap) and the largest size the heap has had. -/
structure Heap (ι : Type) where
  /-- The entries in level order. -/
  items : List ι
  /-- The position field of each entry. -/
  index : ι → Option ℕ
  /-- The largest size so far. -/
  peak : ℕ

namespace Heap

variable {ι : Type} [DecidableEq ι] {H : HeapOps} {cmp : ι → ι → Ordering} {h : Heap ι}

/-- The heap `init` makes. -/
def empty : Heap ι := ⟨[], fun _ => none, 0⟩

/-- The position fields after the array changed from `old` to `new`: the
callback is called for every entry that stands at a new position. -/
def reindex (old new : List ι) (index : ι → Option ℕ) : ι → Option ℕ := fun x =>
  match new.idxOf? x with
  | some p => if old[p]? = some x then index x else some p
  | none => index x

/-- Replace the array, with the callbacks that go with it. -/
def become (h : Heap ι) (new : List ι) : Heap ι :=
  { items := new, index := reindex h.items new h.index, peak := max h.peak new.length }

/-- Add an entry. -/
def push (H : HeapOps) (cmp : ι → ι → Ordering) (h : Heap ι) (x : ι) : Heap ι :=
  h.become (H.push cmp h.items x)

/-- Take the root away; its position field keeps its value. -/
def pop (H : HeapOps) (cmp : ι → ι → Ordering) (h : Heap ι) : Heap ι :=
  h.become (H.pop cmp h.items)

/-- Take the entry at a position away; a position past the end changes nothing. -/
def removeAt (H : HeapOps) (cmp : ι → ι → Ordering) (h : Heap ι) (i : ℕ) : Heap ι :=
  if i < h.items.length then h.become (H.removeAt cmp h.items i) else h

/-- Restore the order around a position; a position past the end changes nothing. -/
def reheapifyAt (H : HeapOps) (cmp : ι → ι → Ordering) (h : Heap ι) (i : ℕ) : Heap ι :=
  if i < h.items.length then h.become (H.reheapifyAt cmp h.items i) else h

/-- Write the position field of an entry. -/
def setIndex (h : Heap ι) (x : ι) (i : Option ℕ) : Heap ι :=
  { h with index := Function.update h.index x i }

@[simp] theorem become_items (h : Heap ι) (new : List ι) : (h.become new).items = new := rfl
@[simp] theorem push_items (x : ι) : (h.push H cmp x).items = H.push cmp h.items x := rfl
@[simp] theorem pop_items : (h.pop H cmp).items = H.pop cmp h.items := rfl
@[simp] theorem setIndex_items (x : ι) (i : Option ℕ) : (h.setIndex x i).items = h.items := rfl
@[simp] theorem setIndex_peak (x : ι) (i : Option ℕ) : (h.setIndex x i).peak = h.peak := rfl

theorem setIndex_index (x y : ι) (i : Option ℕ) :
    (h.setIndex x i).index y = if y = x then i else h.index y := by
  simp [setIndex, Function.update_apply]

/-- No entry twice, every entry's field is its position, and the size has not
passed the recorded largest size. -/
structure Sound (h : Heap ι) : Prop where
  nodup : h.items.Nodup
  tracked : ∀ p x, h.items[p]? = some x → h.index x = some p
  le_peak : h.items.length ≤ h.peak

omit [DecidableEq ι] in
theorem sound_empty : Sound (empty : Heap ι) :=
  ⟨by simp [empty], by simp [empty], by simp [empty]⟩

theorem reindex_of_not_mem {old new : List ι} {index : ι → Option ℕ} {x : ι} (hx : x ∉ new) :
    reindex old new index x = index x := by
  have hnone : new.idxOf? x = none := by simpa using hx
  simp [reindex, hnone]

theorem become_index_of_not_mem {new : List ι} {x : ι} (hx : x ∉ new) :
    (h.become new).index x = h.index x := reindex_of_not_mem hx

/-- The callbacks keep the fields right. -/
theorem Sound.become {new : List ι} (hs : Sound h) (hnd : new.Nodup) : Sound (h.become new) := by
  refine ⟨hnd, ?_, le_max_right _ _⟩
  intro p x hp
  have hidx : new.idxOf? x = some p := by
    obtain ⟨hlt, hget⟩ := List.getElem?_eq_some_iff.1 hp
    refine List.idxOf?_eq_some_iff.2 ⟨hlt, hget, ?_⟩
    intro j hj hjx
    have := (List.Nodup.getElem_inj_iff hnd).1 (hjx.trans hget.symm)
    omega
  show reindex h.items new h.index x = some p
  simp only [reindex, hidx]
  split
  · next hold => exact hs.tracked p x hold
  · rfl

theorem Sound.setIndex {x : ι} {i : Option ℕ} (hs : Sound h) (hx : x ∉ h.items) :
    Sound (h.setIndex x i) := by
  refine ⟨hs.nodup, ?_, hs.le_peak⟩
  intro p y hp
  have hyx : y ≠ x := fun e => hx (e ▸ List.mem_of_getElem? hp)
  rw [setIndex_index, if_neg hyx]
  exact hs.tracked p y hp

omit [DecidableEq ι] in
/-- Every entry's field leads to the entry. -/
theorem Sound.exists_index {x : ι} (hs : Sound h) (hx : x ∈ h.items) :
    ∃ p, h.index x = some p ∧ h.items[p]? = some x := by
  obtain ⟨p, hp⟩ := List.getElem?_of_mem hx
  exact ⟨p, hs.tracked p x hp, hp⟩

/-- Every entry outside the heap is marked as such. -/
def Exact (h : Heap ι) : Prop := ∀ x, x ∉ h.items → h.index x = none

omit [DecidableEq ι] in
theorem exact_empty : Exact (empty : Heap ι) := fun _ _ => rfl

omit [DecidableEq ι] in
/-- In an exact heap an entry is inside exactly when its field holds a position. -/
theorem Exact.mem_iff (he : Exact h) (hs : Sound h) (x : ι) : x ∈ h.items ↔ h.index x ≠ none := by
  constructor
  · intro hx
    obtain ⟨p, hp, -⟩ := hs.exists_index hx
    simp [hp]
  · intro hx
    by_contra hn
    exact hx (he x hn)

theorem Exact.become {new : List ι} (he : Exact h) (hsub : ∀ x, x ∉ new → x ∉ h.items) :
    Exact (h.become new) := by
  intro x hx
  exact (become_index_of_not_mem hx).trans (he x (hsub x hx))

/-! ### The operations -/

section Ops

variable [TransCmp cmp] (hH : H.Lawful)

include hH

theorem mem_push {x y : ι} : y ∈ (h.push H cmp x).items ↔ y = x ∨ y ∈ h.items := by
  rw [push_items, (hH.push_perm cmp h.items x).mem_iff, List.mem_cons]

theorem Sound.push {x : ι} (hs : Sound h) (hx : x ∉ h.items) : Sound (h.push H cmp x) :=
  hs.become ((hH.push_perm cmp h.items x).nodup_iff.2 (List.nodup_cons.2 ⟨hx, hs.nodup⟩))

theorem Exact.push {x : ι} (he : Exact h) : Exact (h.push H cmp x) := by
  refine he.become (fun y hy hmem => hy ?_)
  exact (mem_push hH).2 (Or.inr hmem)

variable (cmp) in
theorem pop_perm {x : ι} {rest : List ι} (hx : h.items = x :: rest) :
    (x :: (h.pop H cmp).items).Perm h.items := by
  rw [pop_items, hx]
  exact (hH.pop_perm cmp rest x).cons x

variable (cmp) in
theorem removeAt_perm {x : ι} {p : ℕ} (hx : h.items[p]? = some x) :
    (x :: (h.removeAt H cmp p).items).Perm h.items := by
  have hp : p < h.items.length := (List.getElem?_eq_some_iff.1 hx).1
  rw [removeAt, if_pos hp]
  exact hH.removeAt_perm cmp h.items p x hx

variable (cmp) in
theorem reheapifyAt_perm (p : ℕ) : (h.reheapifyAt H cmp p).items.Perm h.items := by
  unfold reheapifyAt
  split
  · exact hH.reheapifyAt_perm cmp h.items p
  · exact List.Perm.refl _

theorem Sound.pop {x : ι} {rest : List ι} (hs : Sound h) (hx : h.items = x :: rest) :
    Sound (h.pop H cmp) :=
  hs.become (List.nodup_cons.1 ((pop_perm cmp hH hx).nodup_iff.2 hs.nodup)).2

theorem Sound.removeAt {x : ι} {p : ℕ} (hs : Sound h) (hx : h.items[p]? = some x) :
    Sound (h.removeAt H cmp p) := by
  have hp : p < h.items.length := (List.getElem?_eq_some_iff.1 hx).1
  have hnd := (List.nodup_cons.1 ((removeAt_perm cmp hH hx).nodup_iff.2 hs.nodup)).2
  rw [Heap.removeAt, if_pos hp] at hnd ⊢
  exact hs.become hnd

theorem Sound.reheapifyAt (hs : Sound h) (p : ℕ) : Sound (h.reheapifyAt H cmp p) := by
  have hnd := (reheapifyAt_perm cmp hH p).nodup_iff.2 hs.nodup
  unfold Heap.reheapifyAt at hnd ⊢
  split
  · next hp => rw [if_pos hp] at hnd; exact hs.become hnd
  · exact hs

theorem Exact.reheapifyAt (he : Exact h) (p : ℕ) : Exact (h.reheapifyAt H cmp p) := by
  have hmem := fun x => (reheapifyAt_perm (h := h) cmp hH p).mem_iff (a := x)
  unfold Heap.reheapifyAt at hmem ⊢
  split
  · next hp =>
    refine he.become (fun x hx hin => hx ?_)
    have := (hmem x).2 hin
    rwa [if_pos hp] at this
  · exact he

/-- What is left after the root is gone is marked right, once the root is marked. -/
theorem Exact.pop {x : ι} {rest : List ι} (he : Exact h) (hx : h.items = x :: rest) :
    Exact ((h.pop H cmp).setIndex x none) := by
  intro y hy
  rw [setIndex_index]
  split
  · rfl
  · next hyx =>
    have hy' : y ∉ (h.pop H cmp).items := hy
    refine (become_index_of_not_mem hy').trans (he y (fun hin => hy' ?_))
    exact ((pop_perm cmp hH hx).mem_iff.2 hin |> List.mem_cons.1).resolve_left hyx

theorem Exact.removeAt {x : ι} {p : ℕ} (he : Exact h) (hx : h.items[p]? = some x) :
    Exact ((h.removeAt H cmp p).setIndex x none) := by
  have hp : p < h.items.length := (List.getElem?_eq_some_iff.1 hx).1
  have hperm := removeAt_perm cmp hH hx
  intro y hy
  rw [setIndex_index]
  split
  · rfl
  · next hyx =>
    have hy' : y ∉ (h.removeAt H cmp p).items := hy
    have hnot : y ∉ h.items := fun hin =>
      hy' ((List.mem_cons.1 (hperm.mem_iff.2 hin)).resolve_left hyx)
    rw [Heap.removeAt, if_pos hp] at hy' ⊢
    exact (become_index_of_not_mem hy').trans (he y hnot)

/-- After an entry has left there is room for another one. -/
theorem pop_room {x : ι} {rest : List ι} (hs : Sound h) (hx : h.items = x :: rest) :
    (h.pop H cmp).items.length < (h.pop H cmp).peak := by
  have hlen := (pop_perm cmp hH hx).length_eq
  have hpk : h.peak ≤ (h.pop H cmp).peak := le_max_left _ _
  have := hs.le_peak
  rw [List.length_cons] at hlen
  omega

theorem removeAt_room {x : ι} {p : ℕ} (hs : Sound h) (hx : h.items[p]? = some x) :
    (h.removeAt H cmp p).items.length < (h.removeAt H cmp p).peak := by
  have hp : p < h.items.length := (List.getElem?_eq_some_iff.1 hx).1
  have hlen := (removeAt_perm cmp hH hx).length_eq
  have hpk : h.peak ≤ (h.removeAt H cmp p).peak := by
    rw [Heap.removeAt, if_pos hp]
    exact le_max_left _ _
  have := hs.le_peak
  rw [List.length_cons] at hlen
  omega

/-! ### The operations and the order -/

theorem push_ordered {x : ι} (ho : HeapOrdered cmp h.items) :
    HeapOrdered cmp (h.push H cmp x).items := hH.push_ordered cmp h.items x ho

theorem pop_ordered (ho : HeapOrdered cmp h.items) : HeapOrdered cmp (h.pop H cmp).items :=
  hH.pop_ordered cmp h.items ho

theorem removeAt_ordered {x : ι} {p : ℕ} (hs : Sound h) (hx : h.items[p]? = some x)
    (ho : OrderedBut cmp x h.items) : HeapOrdered cmp (h.removeAt H cmp p).items := by
  have hp : p < h.items.length := (List.getElem?_eq_some_iff.1 hx).1
  rw [removeAt, if_pos hp]
  exact hH.removeAt_ordered cmp h.items p hp (ho.off hs.nodup hx)

theorem reheapifyAt_ordered {x : ι} {p : ℕ} (hs : Sound h) (hx : h.items[p]? = some x)
    (ho : OrderedBut cmp x h.items) : HeapOrdered cmp (h.reheapifyAt H cmp p).items := by
  have hp : p < h.items.length := (List.getElem?_eq_some_iff.1 hx).1
  rw [reheapifyAt, if_pos hp]
  exact hH.reheapifyAt_ordered cmp h.items p hp (ho.off hs.nodup hx)

end Ops

/-! ## Calls through an entry -/

/-- Remove an entry at the position its field names: whether it stood there, and
the heap. -/
def remove (H : HeapOps) (cmp : ι → ι → Ordering) (h : Heap ι) (x : ι) : Bool × Heap ι :=
  match h.index x with
  | none => (false, h)
  | some p => (h.items[p]? = some x, h.removeAt H cmp p)

/-- Restore the order around the position the field of an entry names: whether
there is such a position, and the heap. -/
def reheapify (H : HeapOps) (cmp : ι → ι → Ordering) (h : Heap ι) (x : ι) : Bool × Heap ι :=
  match h.index x with
  | none => (false, h)
  | some p => (p < h.items.length, h.reheapifyAt H cmp p)

/-- The heap holds exactly the entries of a set, in order but for `k`. -/
structure Loose (cmp : ι → ι → Ordering) (k : ι) (h : Heap ι) (S : Set ι) : Prop where
  sound : h.Sound
  mem : ∀ x, x ∈ h.items ↔ x ∈ S
  ordered : OrderedBut cmp k h.items

/-- The heap holds exactly the entries of a set, in order. -/
structure Holds (cmp : ι → ι → Ordering) (h : Heap ι) (S : Set ι) : Prop where
  sound : h.Sound
  mem : ∀ x, x ∈ h.items ↔ x ∈ S
  ordered : HeapOrdered cmp h.items

section Sets

variable {S : Set ι} {x : ι} {cmp' : ι → ι → Ordering}

omit [DecidableEq ι] in
theorem holds_empty (cmp : ι → ι → Ordering) : Holds cmp (empty : Heap ι) ∅ :=
  ⟨sound_empty, by simp [empty], heapOrdered_nil cmp⟩

omit [DecidableEq ι] in
theorem Holds.loose (hh : Holds cmp h S) (k : ι) : Loose cmp k h S :=
  ⟨hh.sound, hh.mem, hh.ordered.but k⟩

omit [DecidableEq ι] in
theorem Holds.congr (hh : Holds cmp h S) (hc : ∀ x ∈ S, ∀ y ∈ S, cmp x y = cmp' x y) :
    Holds cmp' h S :=
  ⟨hh.sound, hh.mem, hh.ordered.congr fun x hx y hy =>
    hc x ((hh.mem x).1 hx) y ((hh.mem y).1 hy)⟩

omit [DecidableEq ι] in
/-- When only the data of `k` changed, everything but `k` is still in order. -/
theorem Loose.congr {k : ι} (hh : Loose cmp k h S)
    (hc : ∀ x ∈ S, ∀ y ∈ S, x ≠ k → y ≠ k → cmp x y = cmp' x y) : Loose cmp' k h S :=
  ⟨hh.sound, hh.mem, hh.ordered.congr fun x hx y hy =>
    hc x ((hh.mem x).1 hx) y ((hh.mem y).1 hy)⟩

omit [DecidableEq ι] in
theorem Loose.tight {k : ι} (hh : Loose cmp k h S) (hk : k ∉ S) : Holds cmp h S :=
  ⟨hh.sound, hh.mem, hh.ordered.of_not_mem fun hin => hk ((hh.mem k).1 hin)⟩

theorem Holds.setIndex (hh : Holds cmp h S) (hx : x ∉ S) (i : Option ℕ) :
    Holds cmp (h.setIndex x i) S :=
  ⟨hh.sound.setIndex fun hin => hx ((hh.mem x).1 hin), hh.mem, hh.ordered⟩

theorem Loose.setIndex {k : ι} (hh : Loose cmp k h S) (hx : x ∉ S) (i : Option ℕ) :
    Loose cmp k (h.setIndex x i) S :=
  ⟨hh.sound.setIndex fun hin => hx ((hh.mem x).1 hin), hh.mem, hh.ordered⟩

omit [DecidableEq ι] in
/-- The root is a least entry of the set. -/
theorem Holds.root_le [ReflCmp cmp] (hh : Holds cmp h S) (hx : h.items.head? = some x) :
    ∀ y ∈ S, (cmp x y).isLE := by
  intro y hy
  rw [List.head?_eq_getElem?] at hx
  exact hh.ordered.root_le hx y ((hh.mem y).2 hy)

omit [DecidableEq ι] in
theorem Holds.root_mem (hh : Holds cmp h S) (hx : h.items.head? = some x) : x ∈ S :=
  (hh.mem x).1 (List.mem_of_mem_head? hx)

omit [DecidableEq ι] in
theorem Holds.empty_iff (hh : Holds cmp h S) : h.items.head? = none ↔ S = ∅ := by
  rw [List.head?_eq_none_iff, Set.eq_empty_iff_forall_notMem]
  constructor
  · intro hnil y hy
    have := (hh.mem y).2 hy
    simp [hnil] at this
  · intro hS
    exact List.eq_nil_iff_forall_not_mem.2 fun y hy => hS y ((hh.mem y).1 hy)

omit [DecidableEq ι] in
/-- What is left when one entry is gone. -/
theorem mem_of_cons_perm {l : List ι} (hh : h.Sound) (hmem : ∀ y, y ∈ h.items ↔ y ∈ S)
    (hp : (x :: l).Perm h.items) (y : ι) : y ∈ l ↔ y ∈ S \ {x} := by
  have hnot : x ∉ l := (List.nodup_cons.1 (hp.nodup_iff.2 hh.nodup)).1
  have hy := hp.mem_iff (a := y)
  rw [List.mem_cons, hmem] at hy
  rw [Set.mem_sdiff, Set.mem_singleton_iff, ← hy]
  constructor
  · intro hin
    exact ⟨Or.inr hin, fun e => hnot (e ▸ hin)⟩
  · rintro ⟨hyx | hin, hne⟩
    · exact absurd hyx hne
    · exact hin

variable [TransCmp cmp] (hH : H.Lawful)

include hH

theorem Holds.push (hh : Holds cmp h S) (hx : x ∉ S) : Holds cmp (h.push H cmp x) (insert x S) :=
  ⟨hh.sound.push hH fun hin => hx ((hh.mem x).1 hin),
    fun y => by rw [mem_push hH, hh.mem, Set.mem_insert_iff], push_ordered hH hh.ordered⟩

theorem Holds.pop (hh : Holds cmp h S) (hx : h.items.head? = some x) :
    Holds cmp (h.pop H cmp) (S \ {x}) := by
  obtain ⟨rest, hrest⟩ := List.head?_eq_some_iff.1 hx
  exact ⟨hh.sound.pop hH hrest, mem_of_cons_perm hh.sound hh.mem (pop_perm cmp hH hrest),
    pop_ordered hH hh.ordered⟩

/-- An entry is removed wherever it stands, whatever its data are. -/
theorem Loose.remove (hh : Loose cmp x h S) (hx : x ∈ S) :
    (h.remove H cmp x).1 = true ∧ Holds cmp (h.remove H cmp x).2 (S \ {x}) ∧
      (h.remove H cmp x).2.items.length < (h.remove H cmp x).2.peak := by
  obtain ⟨p, hp, hitem⟩ := hh.sound.exists_index ((hh.mem x).2 hx)
  simp only [Heap.remove, hp, hitem, decide_true, true_and]
  exact ⟨⟨hh.sound.removeAt hH hitem,
    mem_of_cons_perm hh.sound hh.mem (removeAt_perm cmp hH hitem),
    removeAt_ordered hH hh.sound hitem hh.ordered⟩, removeAt_room hH hh.sound hitem⟩

theorem Loose.reheapify (hh : Loose cmp x h S) (hx : x ∈ S) :
    (h.reheapify H cmp x).1 = true ∧ Holds cmp (h.reheapify H cmp x).2 S := by
  obtain ⟨p, hp, hitem⟩ := hh.sound.exists_index ((hh.mem x).2 hx)
  simp only [Heap.reheapify, hp, (List.getElem?_eq_some_iff.1 hitem).1, decide_true, true_and]
  exact ⟨hh.sound.reheapifyAt hH p,
    fun y => ((reheapifyAt_perm cmp hH p).mem_iff).trans (hh.mem y),
    reheapifyAt_ordered hH hh.sound hitem hh.ordered⟩

theorem Exact.remove (he : Exact h) (hs : Sound h) (hx : x ∈ h.items) :
    Exact ((h.remove H cmp x).2.setIndex x none) := by
  obtain ⟨p, hp, hitem⟩ := hs.exists_index hx
  simp only [Heap.remove, hp]
  exact he.removeAt hH hitem

end Sets

end Heap

end Foundations
