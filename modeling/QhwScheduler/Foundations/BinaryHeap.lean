import QhwScheduler.Foundations.Comparator
import QhwScheduler.Foundations.Heap

/-!
# A binary heap

A heap library written out: an entry that is out of place is swapped with its
parent while it is smaller, or with its smaller child while that one is
smaller.  `binaryHeap_lawful` is the whole of `HeapOps.Lawful` for it.

The two loops carry one idea each: `siftUp` moves an entry that is already at
most everything below it, `siftDown` one that is at least everything above it,
and all other pairs stay in order.
-/

namespace Foundations

open Std (TransCmp ReflCmp)

namespace BinaryHeap

variable {ι : Type} {cmp : ι → ι → Ordering} {l : List ι}

/-- Put `y` at position `i` and `x` at position `j`. -/
def exchange (l : List ι) (i j : ℕ) (x y : ι) : List ι := (l.set i y).set j x

/-- Swap the entry at `i` with its parent while it is smaller. -/
def siftUp (cmp : ι → ι → Ordering) : ℕ → List ι → ℕ → List ι
  | 0, l, _ => l
  | fuel + 1, l, i =>
    match l[i]?, l[parent i]? with
    | some x, some y =>
      if 0 < i ∧ cmp x y = .lt then siftUp cmp fuel (exchange l i (parent i) x y) (parent i)
      else l
    | _, _ => l

/-- The smaller child of position `i`, with the entry there. -/
def smallerChild (cmp : ι → ι → Ordering) (l : List ι) (i : ℕ) : Option (ℕ × ι) :=
  match l[2 * i + 1]?, l[2 * i + 2]? with
  | some a, some b => if cmp b a = .lt then some (2 * i + 2, b) else some (2 * i + 1, a)
  | some a, none => some (2 * i + 1, a)
  | none, _ => none

/-- Swap the entry at `i` with its smaller child while that one is smaller. -/
def siftDown (cmp : ι → ι → Ordering) : ℕ → List ι → ℕ → List ι
  | 0, l, _ => l
  | fuel + 1, l, i =>
    match l[i]?, smallerChild cmp l i with
    | some x, some (c, y) =>
      if cmp y x = .lt then siftDown cmp fuel (exchange l i c x y) c else l
    | _, _ => l

/-- Restore the order around position `i`. -/
def reheapifyAt (cmp : ι → ι → Ordering) (l : List ι) (i : ℕ) : List ι :=
  match l[i]?, l[parent i]? with
  | some x, some y =>
    if 0 < i ∧ cmp x y = .lt then siftUp cmp i l i else siftDown cmp l.length l i
  | _, _ => l

/-- Move the last entry to position `i` and restore the order there. -/
def removeAt (cmp : ι → ι → Ordering) (l : List ι) (i : ℕ) : List ι :=
  match l.getLast? with
  | none => l
  | some x =>
    if i + 1 < l.length then reheapifyAt cmp (l.dropLast.set i x) i else l.dropLast

/-- Append an entry and let it rise. -/
def push (cmp : ι → ι → Ordering) (l : List ι) (x : ι) : List ι :=
  siftUp cmp l.length (l ++ [x]) l.length

/-! ## Exchanging two entries -/

theorem exchange_getElem? {i j : ℕ} {x y : ι} (hi : i < l.length) (hj : j < l.length) (k : ℕ) :
    (exchange l i j x y)[k]? = if k = j then some x else if k = i then some y else l[k]? := by
  simp only [exchange, List.getElem?_set, List.length_set]
  by_cases hkj : k = j
  · subst hkj
    simp [hj]
  · rw [if_neg (Ne.symm hkj), if_neg hkj]
    by_cases hki : k = i
    · subst hki
      simp [hi]
    · rw [if_neg (Ne.symm hki), if_neg hki]

theorem exchange_perm {i j : ℕ} {x y : ι} (hx : l[i]? = some x) (hy : l[j]? = some y) :
    (exchange l i j x y).Perm l := by
  obtain ⟨hi, rfl⟩ := List.getElem?_eq_some_iff.1 hx
  obtain ⟨hj, rfl⟩ := List.getElem?_eq_some_iff.1 hy
  exact List.set_set_perm hi hj

theorem exchange_length (i j : ℕ) (x y : ι) : (exchange l i j x y).length = l.length := by
  simp [exchange]

/-! ## Rising -/

/-- What `siftUp` needs: all pairs off `i` are in order, and the entry at `i`
is at most everything below it. -/
structure Rising (cmp : ι → ι → Ordering) (l : List ι) (i : ℕ) : Prop where
  off : OrderedOff cmp i l
  below : ∀ b x y, Above i b → l[i]? = some x → l[b]? = some y → (cmp x y).isLE

theorem parent_getElem? {i : ℕ} {x : ι} (hx : l[i]? = some x) : ∃ y, l[parent i]? = some y := by
  have hlt : i < l.length := (List.getElem?_eq_some_iff.1 hx).1
  have hp : parent i < l.length := by
    unfold parent
    omega
  exact ⟨_, List.getElem?_eq_some_iff.2 ⟨hp, rfl⟩⟩

/-- A rising entry that is not smaller than its parent has arrived. -/
theorem Rising.arrived [TransCmp cmp] {i : ℕ} (hr : Rising cmp l i)
    (hp : ∀ x y, 0 < i → l[i]? = some x → l[parent i]? = some y → (cmp y x).isLE) :
    HeapOrdered cmp l := by
  intro a b x y hab hx hy
  by_cases hai : a = i
  · subst hai
    exact hr.below b x y hab hx hy
  by_cases hbi : b = i
  · subst hbi
    have hpos : 0 < b := lt_of_le_of_lt (Nat.zero_le a) hab.lt
    obtain ⟨z, hz⟩ := parent_getElem? hy
    have hzy := hp y z hpos hy hz
    rcases hab.eq_or_above with rfl | hap
    · rw [hx] at hz
      exact Option.some.inj hz ▸ hzy
    · exact TransCmp.isLE_trans
        (hr.off a (parent b) x z hap hai (ne_of_lt (parent_lt hpos)) hx hz) hzy
  · exact hr.off a b x y hab hai hbi hx hy

/-- Swapping a rising entry with a larger parent leaves it rising from there. -/
theorem Rising.exchange [TransCmp cmp] {i : ℕ} {x y : ι} (hr : Rising cmp l i) (hi : 0 < i)
    (hx : l[i]? = some x) (hy : l[parent i]? = some y) (hxy : cmp x y = .lt) :
    Rising cmp (exchange l i (parent i) x y) (parent i) := by
  have hil : i < l.length := (List.getElem?_eq_some_iff.1 hx).1
  have hpl : parent i < l.length := (List.getElem?_eq_some_iff.1 hy).1
  have hget := fun k => exchange_getElem? (l := l) (x := x) (y := y) hil hpl k
  have hpi : parent i < i := parent_lt hi
  have hxy' : (cmp x y).isLE := by rw [hxy]; rfl
  constructor
  · intro a b u v hab hap hbp hu hv
    rw [hget, if_neg hap] at hu
    rw [hget, if_neg hbp] at hv
    by_cases hai : a = i
    · subst hai
      rw [if_pos rfl] at hu
      obtain rfl := Option.some.inj hu
      rw [if_neg (ne_of_gt hab.lt)] at hv
      have hpb : Above (parent a) b := (Above.parent hi rfl).trans hab
      exact hr.off (parent a) b y v hpb (ne_of_lt hpi) (ne_of_gt hab.lt) hy hv
    rw [if_neg hai] at hu
    by_cases hbi : b = i
    · subst hbi
      rw [if_pos rfl] at hv
      obtain rfl := Option.some.inj hv
      have hap' : Above a (parent b) := hab.eq_or_above.resolve_left hap
      exact hr.off a (parent b) u y hap' hai (ne_of_lt hpi) hu hy
    · rw [if_neg hbi] at hv
      exact hr.off a b u v hab hai hbi hu hv
  · intro b u v hpb hu hv
    rw [hget, if_pos rfl] at hu
    obtain rfl := Option.some.inj hu
    rw [hget, if_neg (ne_of_gt hpb.lt)] at hv
    by_cases hbi : b = i
    · rw [if_pos hbi] at hv
      exact Option.some.inj hv ▸ hxy'
    · rw [if_neg hbi] at hv
      have hyv := hr.off (parent i) b y v hpb (ne_of_lt hpi) hbi hy hv
      exact TransCmp.isLE_trans hxy' hyv

theorem siftUp_ordered [TransCmp cmp] (fuel : ℕ) :
    ∀ (l : List ι) (i : ℕ), i ≤ fuel → Rising cmp l i → HeapOrdered cmp (siftUp cmp fuel l i) := by
  induction fuel with
  | zero =>
    intro l i hi hr
    exact hr.arrived (fun x y hpos => absurd hpos (by omega))
  | succ n ih =>
    intro l i hi hr
    unfold siftUp
    split
    · next x y hx hy =>
      split
      · next hlt =>
        have hpi := parent_lt hlt.1
        exact ih _ _ (by omega) (hr.exchange hlt.1 hx hy hlt.2)
      · next hge =>
        refine hr.arrived (fun u v hpos hu hv => ?_)
        rw [hx] at hu
        rw [hy] at hv
        obtain rfl := Option.some.inj hu
        obtain rfl := Option.some.inj hv
        exact isLE_of_not_lt (fun h => hge ⟨hpos, h⟩)
    · next hnone =>
      refine hr.arrived (fun u v _ hu hv => absurd hv ?_)
      exact fun hv => hnone u v hu hv

theorem siftUp_perm (fuel : ℕ) :
    ∀ (l : List ι) (i : ℕ), (siftUp cmp fuel l i).Perm l := by
  induction fuel with
  | zero => exact fun l i => List.Perm.refl l
  | succ n ih =>
    intro l i
    unfold siftUp
    split
    · next x y hx hy =>
      split
      · exact (ih _ _).trans (exchange_perm hx hy)
      · exact List.Perm.refl l
    · exact List.Perm.refl l

/-! ## Sinking -/

/-- What `siftDown` needs: all pairs off `i` are in order, and the entry at `i`
is at least everything above it. -/
structure Sinking (cmp : ι → ι → Ordering) (l : List ι) (i : ℕ) : Prop where
  off : OrderedOff cmp i l
  above : ∀ a x y, Above a i → l[a]? = some x → l[i]? = some y → (cmp x y).isLE

theorem parent_eq_iff {c i : ℕ} (hc : 0 < c) : parent c = i ↔ c = 2 * i + 1 ∨ c = 2 * i + 2 := by
  unfold parent
  omega

/-- The smaller child is a child, and at most every child. -/
theorem smallerChild_spec [TransCmp cmp] {i c : ℕ} {y : ι} (h : smallerChild cmp l i = some (c, y)) :
    0 < c ∧ parent c = i ∧ l[c]? = some y ∧
      ∀ d z, 0 < d → parent d = i → l[d]? = some z → (cmp y z).isLE := by
  have hchild : ∀ d, 0 < d → parent d = i → d = 2 * i + 1 ∨ d = 2 * i + 2 :=
    fun d hd => (parent_eq_iff hd).1
  have hp1 : parent (2 * i + 1) = i := by unfold parent; omega
  have hp2 : parent (2 * i + 2) = i := by unfold parent; omega
  unfold smallerChild at h
  split at h
  · next a b ha hb =>
    split at h
    · next hlt =>
      obtain ⟨rfl, rfl⟩ := Prod.mk.inj (Option.some.inj h)
      refine ⟨by omega, hp2, hb, ?_⟩
      intro d z hd hpd hz
      rcases hchild d hd hpd with rfl | rfl
      · rw [ha] at hz
        rw [← Option.some.inj hz, hlt]
        rfl
      · rw [hb] at hz
        exact Option.some.inj hz ▸ ReflCmp.isLE_rfl
    · next hge =>
      obtain ⟨rfl, rfl⟩ := Prod.mk.inj (Option.some.inj h)
      refine ⟨by omega, hp1, ha, ?_⟩
      intro d z hd hpd hz
      rcases hchild d hd hpd with rfl | rfl
      · rw [ha] at hz
        exact Option.some.inj hz ▸ ReflCmp.isLE_rfl
      · rw [hb] at hz
        rw [← Option.some.inj hz]
        exact isLE_of_not_lt hge
  · next a ha hb =>
    obtain ⟨rfl, rfl⟩ := Prod.mk.inj (Option.some.inj h)
    refine ⟨by omega, hp1, ha, ?_⟩
    intro d z hd hpd hz
    rcases hchild d hd hpd with rfl | rfl
    · rw [ha] at hz
      exact Option.some.inj hz ▸ ReflCmp.isLE_rfl
    · rw [hb] at hz
      cases hz
  · cases h

/-- A position without children has nothing below it. -/
theorem smallerChild_none {i c : ℕ} {z : ι} (h : smallerChild cmp l i = none) (hc : 0 < c)
    (hp : parent c = i) : l[c]? ≠ some z := by
  intro hz
  have hlt : c < l.length := (List.getElem?_eq_some_iff.1 hz).1
  have h1 : ∃ a, l[2 * i + 1]? = some a := by
    have : 2 * i + 1 < l.length := by
      rcases (parent_eq_iff hc).1 hp with rfl | rfl <;> omega
    exact ⟨_, List.getElem?_eq_some_iff.2 ⟨this, rfl⟩⟩
  obtain ⟨a, ha⟩ := h1
  unfold smallerChild at h
  rw [ha] at h
  split at h
  · split at h <;> cases h
  · cases h
  · next hnone => cases hnone

/-- A sinking entry that is at most its children has arrived. -/
theorem Sinking.arrived [TransCmp cmp] {i : ℕ} (hs : Sinking cmp l i)
    (hc : ∀ c x z, 0 < c → parent c = i → l[i]? = some x → l[c]? = some z → (cmp x z).isLE) :
    HeapOrdered cmp l := by
  intro a b x y hab hx hy
  by_cases hbi : b = i
  · subst hbi
    exact hs.above a x y hab hx hy
  by_cases hai : a = i
  · subst hai
    obtain ⟨c, hc0, hpc, hcb⟩ := hab.through_child
    rcases hcb with rfl | hcb
    · exact hc b x y hc0 hpc hx hy
    · have hblt : b < l.length := (List.getElem?_eq_some_iff.1 hy).1
      have hclt : c < l.length := lt_trans hcb.lt hblt
      have hac : a < c := hpc ▸ parent_lt hc0
      obtain ⟨z, hz⟩ : ∃ z, l[c]? = some z := ⟨_, List.getElem?_eq_some_iff.2 ⟨hclt, rfl⟩⟩
      exact TransCmp.isLE_trans (hc c x z hc0 hpc hx hz)
        (hs.off c b z y hcb (ne_of_gt hac) hbi hz hy)
  · exact hs.off a b x y hab hai hbi hx hy

/-- Swapping a sinking entry with its smaller child leaves it sinking from there. -/
theorem Sinking.exchange [TransCmp cmp] {i c : ℕ} {x y : ι} (hs : Sinking cmp l i)
    (hx : l[i]? = some x) (hc : smallerChild cmp l i = some (c, y)) (hyx : cmp y x = .lt) :
    Sinking cmp (exchange l i c x y) c := by
  obtain ⟨hc0, hpc, hy, hmin⟩ := smallerChild_spec hc
  have hil : i < l.length := (List.getElem?_eq_some_iff.1 hx).1
  have hcl : c < l.length := (List.getElem?_eq_some_iff.1 hy).1
  have hget := fun k => exchange_getElem? (l := l) (x := x) (y := y) hil hcl k
  have hic : i < c := hpc ▸ parent_lt hc0
  have hyx' : (cmp y x).isLE := by rw [hyx]; rfl
  constructor
  · intro a b u v hab hac hbc hu hv
    rw [hget, if_neg hac] at hu
    rw [hget, if_neg hbc] at hv
    by_cases hbi : b = i
    · subst hbi
      rw [if_pos rfl] at hv
      obtain rfl := Option.some.inj hv
      rw [if_neg (ne_of_lt hab.lt)] at hu
      have hab' : Above a c := .step hc0 (hpc.symm ▸ hab)
      exact hs.off a c u y hab' (ne_of_lt hab.lt) (ne_of_gt hic) hu hy
    rw [if_neg hbi] at hv
    by_cases hai : a = i
    · subst hai
      rw [if_pos rfl] at hu
      obtain rfl := Option.some.inj hu
      -- below `i`: under the child that moved up, or under its sibling
      obtain ⟨d, hd0, hpd, hdb⟩ := hab.through_child
      have had : a < d := hpd ▸ parent_lt hd0
      rcases hdb with rfl | hdb
      · exact hmin b v hd0 hpd hv
      · have hblt : b < l.length := (List.getElem?_eq_some_iff.1 hv).1
        obtain ⟨z, hz⟩ : ∃ z, l[d]? = some z :=
          ⟨_, List.getElem?_eq_some_iff.2 ⟨lt_trans hdb.lt hblt, rfl⟩⟩
        exact TransCmp.isLE_trans (hmin d z hd0 hpd hz)
          (hs.off d b z v hdb (ne_of_gt had) hbi hz hv)
    · rw [if_neg hai] at hu
      exact hs.off a b u v hab hai hbi hu hv
  · intro a u v hac hu hv
    rw [hget, if_pos rfl] at hv
    obtain rfl := Option.some.inj hv
    rw [hget, if_neg (ne_of_lt hac.lt)] at hu
    rcases hac.eq_or_above with hai | hai
    · rw [hpc] at hai
      rw [if_pos hai] at hu
      exact Option.some.inj hu ▸ hyx'
    · rw [hpc] at hai
      rw [if_neg (ne_of_lt hai.lt)] at hu
      exact hs.above a u x hai hu hx

theorem siftDown_ordered [TransCmp cmp] (fuel : ℕ) :
    ∀ (l : List ι) (i : ℕ), l.length ≤ fuel + i → Sinking cmp l i →
      HeapOrdered cmp (siftDown cmp fuel l i) := by
  induction fuel with
  | zero =>
    intro l i hi hs
    refine hs.arrived (fun c x z _ _ hx _ => absurd hx ?_)
    rw [List.getElem?_eq_none (by omega)]
    simp
  | succ n ih =>
    intro l i hi hs
    unfold siftDown
    split
    · next x c y hx hc =>
      obtain ⟨hc0, hpc, hy, hmin⟩ := smallerChild_spec hc
      split
      · next hlt =>
        have hic : i < c := hpc ▸ parent_lt hc0
        exact ih _ _ (by rw [exchange_length]; omega) (hs.exchange hx hc hlt)
      · next hge =>
        have hxy : (cmp x y).isLE := isLE_of_not_lt hge
        refine hs.arrived (fun d u z hd0 hpd hu hz => ?_)
        rw [hx] at hu
        exact Option.some.inj hu ▸ TransCmp.isLE_trans hxy (hmin d z hd0 hpd hz)
    · next hnone =>
      refine hs.arrived (fun d u z hd0 hpd hu hz => ?_)
      cases hc : smallerChild cmp l i with
      | none => exact absurd hz (smallerChild_none hc hd0 hpd)
      | some p => exact absurd hc (hnone u p.1 p.2 hu)

theorem siftDown_perm [TransCmp cmp] (fuel : ℕ) :
    ∀ (l : List ι) (i : ℕ), (siftDown cmp fuel l i).Perm l := by
  induction fuel with
  | zero => exact fun l i => List.Perm.refl l
  | succ n ih =>
    intro l i
    unfold siftDown
    split
    · next x c y hx hc =>
      split
      · exact (ih _ _).trans (exchange_perm hx (smallerChild_spec hc).2.2.1)
      · exact List.Perm.refl l
    · exact List.Perm.refl l

/-! ## The operations -/

theorem reheapifyAt_perm [TransCmp cmp] (l : List ι) (i : ℕ) : (reheapifyAt cmp l i).Perm l := by
  unfold reheapifyAt
  split
  · split
    · exact siftUp_perm _ _ _
    · exact siftDown_perm _ _ _
  · exact List.Perm.refl l

theorem reheapifyAt_ordered [TransCmp cmp] {i : ℕ} (hi : i < l.length) (ho : OrderedOff cmp i l) :
    HeapOrdered cmp (reheapifyAt cmp l i) := by
  obtain ⟨x, hx⟩ : ∃ x, l[i]? = some x := ⟨_, List.getElem?_eq_some_iff.2 ⟨hi, rfl⟩⟩
  obtain ⟨y, hy⟩ := parent_getElem? hx
  unfold reheapifyAt
  rw [hx, hy]
  dsimp only
  split
  · next hlt =>
    -- smaller than its parent, so smaller than everything below it
    refine siftUp_ordered i l i le_rfl ⟨ho, ?_⟩
    intro b u v hib hu hv
    rw [hx] at hu
    obtain rfl := Option.some.inj hu
    have hxy : (cmp x y).isLE := by rw [hlt.2]; rfl
    exact TransCmp.isLE_trans hxy
      (ho (parent i) b y v ((Above.parent hlt.1 rfl).trans hib) (ne_of_lt (parent_lt hlt.1))
        (ne_of_gt hib.lt) hy hv)
  · next hge =>
    refine siftDown_ordered l.length l i (by omega) ⟨ho, ?_⟩
    intro a u v hai hu hv
    rw [hx] at hv
    obtain rfl := Option.some.inj hv
    have hpos : 0 < i := lt_of_le_of_lt (Nat.zero_le a) hai.lt
    have hyx : (cmp y x).isLE := isLE_of_not_lt (fun h => hge ⟨hpos, h⟩)
    rcases hai.eq_or_above with rfl | hap
    · rw [hy] at hu
      exact Option.some.inj hu ▸ hyx
    · exact TransCmp.isLE_trans
        (ho a (parent i) u y hap (ne_of_lt hai.lt) (ne_of_lt (parent_lt hpos)) hu hy) hyx

theorem push_perm (l : List ι) (x : ι) : (push cmp l x).Perm (x :: l) :=
  (siftUp_perm _ _ _).trans (List.perm_append_singleton x l)

theorem push_ordered [TransCmp cmp] {x : ι} (ho : HeapOrdered cmp l) :
    HeapOrdered cmp (push cmp l x) := by
  have hnone : ∀ b y, l.length < b → (l ++ [x])[b]? ≠ some y := by
    intro b y hb
    rw [List.getElem?_eq_none (by simp; omega)]
    simp
  refine siftUp_ordered _ _ _ le_rfl ⟨?_, fun b y z hb _ hz => absurd hz (hnone b z hb.lt)⟩
  intro a b u v hab ha hb hu hv
  have hbl : b < l.length := by
    by_contra hge
    exact hnone b v (by omega) hv
  have hal : a < l.length := lt_trans hab.lt hbl
  rw [List.getElem?_append_left hal] at hu
  rw [List.getElem?_append_left hbl] at hv
  exact ho a b u v hab hu hv

theorem getElem?_dropLast_set {i k : ℕ} {x : ι} (hk : k ≠ i) {y : ι}
    (hy : (l.dropLast.set i x)[k]? = some y) : l[k]? = some y := by
  rw [List.getElem?_set_ne (Ne.symm hk), List.getElem?_dropLast] at hy
  split at hy
  · exact hy
  · cases hy

theorem removeAt_ordered [TransCmp cmp] {i : ℕ} (hi : i < l.length) (ho : OrderedOff cmp i l) :
    HeapOrdered cmp (removeAt cmp l i) := by
  unfold removeAt
  split
  · next hnone =>
    rw [List.getLast?_eq_none_iff.1 hnone]
    exact heapOrdered_nil cmp
  · next z hz =>
    split
    · next hlt =>
      refine reheapifyAt_ordered (by simpa using by omega) ?_
      intro a b u v hab ha hb hu hv
      exact ho a b u v hab ha hb (getElem?_dropLast_set ha hu) (getElem?_dropLast_set hb hv)
    · next hlast =>
      intro a b u v hab hu hv
      have hbl : b < l.length - 1 := by
        have := (List.getElem?_eq_some_iff.1 hv).1
        simpa using this
      have hal := hab.lt
      rw [List.getElem?_dropLast, if_pos (by omega)] at hu hv
      exact ho a b u v hab (by omega) (by omega) hu hv

theorem removeAt_perm [TransCmp cmp] {i : ℕ} {x : ι} (hx : l[i]? = some x) :
    (x :: removeAt cmp l i).Perm l := by
  obtain ⟨hi, rfl⟩ := List.getElem?_eq_some_iff.1 hx
  unfold removeAt
  split
  · next hnone =>
    rw [List.getLast?_eq_none_iff.1 hnone] at hi
    simp at hi
  · next z hz =>
    have hsplit : l.dropLast ++ [z] = l := List.dropLast_append_getLast? z hz
    have hlen : l.dropLast.length = l.length - 1 := List.length_dropLast
    split
    · next hlt =>
      have hid : i < l.dropLast.length := by omega
      have hget : l.dropLast[i] = l[i] := by simp
      -- the last entry takes the place of the one that leaves
      have hset : (l[i] :: l.dropLast.set i z).Perm (z :: l.dropLast) := by
        have hd : l.dropLast[i]?.getD z = l[i] := by
          rw [List.getElem?_eq_getElem hid, Option.getD_some, hget]
        exact hd ▸ List.getD_set_perm_cons l.dropLast i z
      exact ((reheapifyAt_perm _ i).cons l[i]).trans
        (hset.trans ((List.perm_append_singleton z l.dropLast).symm.trans (List.Perm.of_eq hsplit)))
    · next hlast =>
      have hxz : l[i] = z := by
        rw [List.getLast?_eq_getElem?] at hz
        have : i = l.length - 1 := by omega
        subst this
        exact Option.some.inj ((List.getElem?_eq_getElem hi).symm.trans hz)
      rw [hxz]
      exact (List.perm_append_singleton z l.dropLast).symm.trans (List.Perm.of_eq hsplit)

end BinaryHeap

/-- The binary heap as a heap library. -/
def binaryHeap : HeapOps where
  push := BinaryHeap.push
  pop := fun cmp l => BinaryHeap.removeAt cmp l 0
  removeAt := BinaryHeap.removeAt
  reheapifyAt := BinaryHeap.reheapifyAt

theorem binaryHeap_lawful : binaryHeap.Lawful where
  push_perm := fun _ _ l x => BinaryHeap.push_perm l x
  push_ordered := fun _ _ _ _ => BinaryHeap.push_ordered
  pop_perm := fun cmp _ l x =>
    (BinaryHeap.removeAt_perm (x := x) (l := x :: l) (i := 0) rfl : (x ::
      BinaryHeap.removeAt cmp (x :: l) 0).Perm (x :: l)).cons_inv
  pop_ordered := fun cmp _ l ho => by
    cases l with
    | nil => exact heapOrdered_nil cmp
    | cons x l => exact BinaryHeap.removeAt_ordered (by simp) (ho.off 0)
  removeAt_perm := fun _ _ _ _ _ hx => BinaryHeap.removeAt_perm hx
  removeAt_ordered := fun _ _ _ _ hi ho => BinaryHeap.removeAt_ordered hi ho
  reheapifyAt_perm := fun _ _ l i => BinaryHeap.reheapifyAt_perm l i
  reheapifyAt_ordered := fun _ _ _ _ hi ho => BinaryHeap.reheapifyAt_ordered hi ho

end Foundations
