import QhwScheduler.Core.Split
import QhwScheduler.Policy.Waiting

/-!
# What the validator accepts

`validate_child_tasks` decides a property of the slices that can be stated
without its loop.

* `sliceIndexOf`, `sliceCountOf`, `shotsOf` — what a slice says of itself.
* `ChildrenValid` — the property: fresh ids, indexes that number the slices, and
  shots that add up to those of the parent.
* `child_validation_exact` — with memory the validator accepts exactly these.
-/

namespace QhwScheduler

/-! ## Slices -/

/-- The index a slice carries. -/
def sliceIndexOf (d : TaskDesc) : Option ℕ :=
  (metadataGetU64 d.metadata metaSliceIndex).map UInt64.toNat

/-- The number of slices a slice carries. -/
def sliceCountOf (d : TaskDesc) : Option ℕ :=
  (metadataGetU64 d.metadata metaSliceCount).map UInt64.toNat

/-- The shots a task carries. -/
def shotsOf (d : TaskDesc) : ℕ := ((metadataGetU64 d.metadata metaShots).getD 0).toNat

/-- What the validator asks of one slice, apart from the slices before it. -/
structure ChildOk (table : TaskTable) (parent : TaskDesc) (config : SplitConfig) (childCount : ℕ)
    (d : TaskDesc) : Prop where
  valid : d.taskId ≠ invalidTaskId
  not_parent : d.taskId ≠ parent.taskId
  names_parent : d.parentTaskId = parent.taskId
  fresh : taskTableFind table d.taskId = none
  index : ∃ i < childCount, sliceIndexOf d = some i
  count : sliceCountOf d = some childCount
  shots_pos : 1 ≤ shotsOf d
  shots_le : shotsOf d ≤ config.sliceShots.toNat

/-- The slices partition the request: distinct fresh ids, the indexes in some
order, and shots that add up. -/
structure ChildrenValid (table : TaskTable) (parent : TaskDesc) (config : SplitConfig)
    (children : List TaskDesc) : Prop where
  length : children.length = config.sliceCount.toNat
  valid : ∀ d ∈ children, d.taskId ≠ invalidTaskId
  nodup : (taskIds children).Nodup
  not_parent : ∀ d ∈ children, d.taskId ≠ parent.taskId
  fresh : ∀ d ∈ children, taskTableFind table d.taskId = none
  names_parent : ∀ d ∈ children, d.parentTaskId = parent.taskId
  counts : ∀ d ∈ children, sliceCountOf d = some children.length
  indexes : (children.map sliceIndexOf).Perm ((List.range children.length).map some)
  shots : ∀ d ∈ children, 1 ≤ shotsOf d ∧ shotsOf d ≤ config.sliceShots.toNat
  total : (children.map shotsOf).sum = config.requestedShots.toNat

/-! ## Numbering -/

/-- Distinct numbers below the length of the list are all of them. -/
theorem perm_range_iff {l : List (Option ℕ)} :
    l.Perm ((List.range l.length).map some) ↔ l.Nodup ∧ ∀ x ∈ l, ∃ i < l.length, x = some i := by
  have hnd : ((List.range l.length).map some).Nodup :=
    (List.nodup_range).map (Option.some_injective ℕ)
  have hmem : ∀ x, x ∈ (List.range l.length).map some ↔ ∃ i < l.length, x = some i := by
    intro x
    simp only [List.mem_map, List.mem_range, eq_comm]
  constructor
  · intro h
    exact ⟨h.nodup_iff.2 hnd, fun x hx => (hmem x).1 (h.mem_iff.1 hx)⟩
  · rintro ⟨hl, hlt⟩
    refine (List.subperm_of_subset hl fun x hx => (hmem x).2 (hlt x hx)).perm_of_length_le ?_
    simp

/-! ## The loop -/

section Loop

variable {E : Env} {table : TaskTable} {parent child : TaskDesc} {config : SplitConfig} {n : ℕ}
  {rest children : List TaskDesc} {seen : List TaskId} {slices : List UInt64} {total : UInt64}
  {c : Cursor}

/-- One turn of the loop, with memory. -/
theorem validateChildren_cons_ok_iff (halloc : ∀ k, E.alloc k = true) :
    (validateChildren E table parent config n (child :: rest) seen slices total c).1 = .ok ↔
      ChildOk table parent config n child ∧ child.taskId ∉ seen ∧
      ∃ i m, metadataGetU64 child.metadata metaSliceIndex = some i ∧ i ∉ slices ∧
        metadataGetU64 child.metadata metaShots = some m ∧ m ≤ config.requestedShots - total ∧
        (validateChildren E table parent config n rest (child.taskId :: seen) (i :: slices)
          (total + m) c.alloc.alloc).1 = .ok := by
  rw [validateChildren]
  split
  · next hids =>
    refine iff_of_false (by simp) ?_
    rintro ⟨hok, hseen, -⟩
    rcases hids with h | h | h | h | h
    · exact hok.valid h
    · exact hok.not_parent h
    · exact h hok.names_parent
    · simp [hok.fresh] at h
    · exact hseen h
  · next hids =>
    simp only [not_or, Option.isSome_iff_ne_none, not_not] at hids
    obtain ⟨hvalid, hparent, hnames, hfresh, hseen⟩ := hids
    split
    · next i k hi hk =>
      split
      · next hbad =>
        refine iff_of_false (by simp) ?_
        rintro ⟨hok, -, i', -, hi', hnew, -⟩
        rw [hi] at hi'
        obtain ⟨j, hj, hij⟩ := hok.index
        have hcount := hok.count
        rw [sliceIndexOf, hi, Option.map_some, Option.some.injEq] at hij
        rw [sliceCountOf, hk, Option.map_some, Option.some.injEq] at hcount
        rcases hbad with h | h | h
        · exact h hcount
        · omega
        · exact hnew (Option.some.inj hi' ▸ h)
      · next hgood =>
        simp only [not_or, not_not, not_le, ge_iff_le] at hgood
        obtain ⟨hcount, hlt, hnew⟩ := hgood
        split
        · next m hm =>
          have hshots : shotsOf child = m.toNat := by rw [shotsOf, hm, Option.getD_some]
          split
          · next hbad =>
            refine iff_of_false (by simp) ?_
            rintro ⟨hok, -, -, m', -, -, hm', hle, -⟩
            rw [hm, Option.some.injEq] at hm'
            have hpos := hok.shots_pos
            have hlim := hok.shots_le
            rw [hshots] at hpos hlim
            rcases hbad with h | h | h
            · rw [h] at hpos
              exact absurd hpos (by decide)
            · exact UInt64.not_le.2 h (UInt64.le_iff_toNat_le.2 hlim)
            · exact UInt64.not_le.2 h (hm' ▸ hle)
          · next hgood =>
            simp only [not_or, gt_iff_lt, UInt64.not_lt] at hgood
            obtain ⟨hpos, hlim, hle⟩ := hgood
            simp only [halloc, Bool.not_true, Bool.false_eq_true, if_false]
            have hok : ChildOk table parent config n child := by
              refine ⟨hvalid, hparent, hnames, hfresh, ⟨i.toNat, hlt, by rw [sliceIndexOf, hi]; rfl⟩,
                by rw [sliceCountOf, hk, Option.map_some, hcount], ?_, ?_⟩
              · rw [hshots, Nat.one_le_iff_ne_zero, ne_eq, ← UInt64.toNat_zero, UInt64.toNat_inj]
                exact hpos
              · rw [hshots]
                exact UInt64.le_iff_toNat_le.1 hlim
            constructor
            · intro h
              exact ⟨hok, hseen, i, m, hi, hnew, hm, hle, h⟩
            · rintro ⟨-, -, i', m', hi', -, hm', -, h⟩
              rw [hi, Option.some.injEq] at hi'
              rw [hm, Option.some.injEq] at hm'
              rw [hi', hm']
              exact h
        · next hm =>
          refine iff_of_false (by simp) ?_
          rintro ⟨-, -, -, m, -, -, hm', -⟩
          simp [hm] at hm'
    · next hnone =>
      refine iff_of_false (by simp) ?_
      rintro ⟨hok, -, i, -, hi, -⟩
      have hcount := hok.count
      rw [sliceCountOf, Option.map_eq_some_iff] at hcount
      obtain ⟨k, hk, -⟩ := hcount
      exact hnone i k hi hk

/-- **The loop**: every slice is in order by itself, none repeats an id or an
index, and the shots add up without wrapping. -/
theorem validateChildren_ok_iff (halloc : ∀ k, E.alloc k = true)
    (htotal : total ≤ config.requestedShots) :
    (validateChildren E table parent config n children seen slices total c).1 = .ok ↔
      (∀ d ∈ children, ChildOk table parent config n d) ∧
      (taskIds children).Nodup ∧ (∀ d ∈ children, d.taskId ∉ seen) ∧
      (children.map sliceIndexOf).Nodup ∧
      (∀ d ∈ children, ∀ i ∈ slices, sliceIndexOf d ≠ some i.toNat) ∧
      total.toNat + (children.map shotsOf).sum = config.requestedShots.toNat := by
  induction children generalizing seen slices total c with
  | nil =>
    rw [validateChildren]
    by_cases heq : total = config.requestedShots
    · simp [heq]
    · simp [heq, UInt64.toNat_inj]
  | cons child rest ih =>
    rw [validateChildren_cons_ok_iff halloc]
    have hnum := UInt64.le_iff_toNat_le.1 htotal
    have hsub : (config.requestedShots - total).toNat = config.requestedShots.toNat - total.toNat :=
      UInt64.toNat_sub_of_le _ _ htotal
    have hmax := config.requestedShots.toNat_lt
    -- the sum so far stays within the request, so it does not wrap
    have hstep : ∀ m : UInt64, m.toNat ≤ config.requestedShots.toNat - total.toNat →
        (total + m).toNat = total.toNat + m.toNat := by
      intro m hm
      rw [UInt64.toNat_add, Nat.mod_eq_of_lt (by omega)]
    simp only [List.forall_mem_cons, taskIds_cons, List.map_cons, List.nodup_cons, List.sum_cons]
    constructor
    · rintro ⟨hok, hseen, i, m, hi, hnew, hm, hle, hrest⟩
      have hle' : m.toNat ≤ config.requestedShots.toNat - total.toNat :=
        hsub ▸ UInt64.le_iff_toNat_le.1 hle
      have hsum := hstep m hle'
      have hshots : shotsOf child = m.toNat := by rw [shotsOf, hm, Option.getD_some]
      have hindex : sliceIndexOf child = some i.toNat := by rw [sliceIndexOf, hi, Option.map_some]
      obtain ⟨hall, hnd, hunseen, hidx, hslices, htot⟩ := (ih (by
        rw [UInt64.le_iff_toNat_le, hsum]
        omega)).1 hrest
      refine ⟨⟨hok, hall⟩, ⟨?_, hnd⟩, ⟨hseen, ?_⟩, ⟨?_, hidx⟩, ⟨?_, ?_⟩, ?_⟩
      · rw [mem_taskIds]
        rintro ⟨d, hd, hid⟩
        exact hunseen d hd (by simp [hid])
      · exact fun d hd h => hunseen d hd (List.mem_cons_of_mem _ h)
      · rw [List.mem_map]
        rintro ⟨d, hd, hdi⟩
        exact hslices d hd i (by simp) (hdi.trans hindex)
      · intro j hj hij
        rw [hindex, Option.some.injEq, UInt64.toNat_inj] at hij
        exact hnew (hij ▸ hj)
      · exact fun d hd j hj => hslices d hd j (List.mem_cons_of_mem _ hj)
      · rw [hshots, ← htot, hsum]
        omega
    · rintro ⟨⟨hok, hall⟩, ⟨hnot, hnd⟩, ⟨hseen, hunseen⟩, ⟨hfirst, hidx⟩, ⟨hnew, hslices⟩, htot⟩
      obtain ⟨j, hj, hij⟩ := hok.index
      rw [sliceIndexOf, Option.map_eq_some_iff] at hij
      obtain ⟨i, hi, rfl⟩ := hij
      have hindex : sliceIndexOf child = some i.toNat := by rw [sliceIndexOf, hi, Option.map_some]
      have hpos := hok.shots_pos
      cases hm : metadataGetU64 child.metadata metaShots with
      | none =>
        rw [shotsOf, hm] at hpos
        exact absurd hpos (by decide)
      | some m =>
        have hshots : shotsOf child = m.toNat := by rw [shotsOf, hm, Option.getD_some]
        rw [hshots] at htot
        have hle' : m.toNat ≤ config.requestedShots.toNat - total.toNat := by omega
        have hsum := hstep m hle'
        refine ⟨hok, hseen, i, m, hi, ?_, rfl, ?_, (ih ?_).2 ⟨hall, hnd, ?_, hidx, ?_, ?_⟩⟩
        · intro hin
          exact hnew i hin hindex
        · rw [UInt64.le_iff_toNat_le, hsub]
          exact hle'
        · rw [UInt64.le_iff_toNat_le, hsum]
          omega
        · intro d hd hin
          rcases List.mem_cons.1 hin with h | h
          · exact hnot (h ▸ mem_taskIds_of_mem hd)
          · exact hunseen d hd h
        · intro d hd k hk hdk
          rcases List.mem_cons.1 hk with rfl | hk
          · exact hfirst (List.mem_map.2 ⟨d, hd, hdk.trans hindex.symm⟩)
          · exact hslices d hd k hk hdk
        · rw [hsum, ← htot]
          omega

end Loop

/-! ## The validator -/

/-- With memory for its tables the validator accepts the slices that partition
the request, up to the largest number of them that it takes. -/
theorem validateChildTasks_ok_iff {E : Env} (halloc : ∀ k, E.alloc k = true) {table : TaskTable}
    {parent : TaskDesc} {config : SplitConfig} {children : List TaskDesc} {c : Cursor} :
    (validateChildTasks E table parent children config c).1 = .ok ↔
      ChildrenValid table parent config children ∧
        children.length ≤ (u64Max.toNat - 1) / 2 := by
  unfold validateChildTasks
  split
  · next hbad =>
    refine iff_of_false (by simp) ?_
    rintro ⟨hvalid, hfits⟩
    exact hbad.elim (fun h => h hvalid.length) fun h => absurd hfits (not_le.2 h)
  · next hgood =>
    simp only [not_or, not_not, not_lt, gt_iff_lt] at hgood
    obtain ⟨hlen, hfits⟩ := hgood
    simp only [halloc, Bool.not_true, Bool.false_eq_true, if_false]
    rw [validateChildren_ok_iff halloc UInt64.zero_le]
    have hperm := perm_range_iff (l := children.map sliceIndexOf)
    rw [List.length_map] at hperm
    constructor
    · rintro ⟨hall, hnd, -, hidx, -, htot⟩
      refine ⟨⟨hlen, fun d hd => (hall d hd).valid, hnd, fun d hd => (hall d hd).not_parent,
        fun d hd => (hall d hd).fresh, fun d hd => (hall d hd).names_parent,
        fun d hd => (hall d hd).count, hperm.2 ⟨hidx, ?_⟩,
        fun d hd => ⟨(hall d hd).shots_pos, (hall d hd).shots_le⟩, ?_⟩, hfits⟩
      · intro x hx
        obtain ⟨d, hd, rfl⟩ := List.mem_map.1 hx
        exact (hall d hd).index
      · rw [← htot, UInt64.toNat_zero, Nat.zero_add]
    · rintro ⟨h, -⟩
      obtain ⟨hidx, hlt⟩ := hperm.1 h.indexes
      refine ⟨fun d hd => ⟨h.valid d hd, h.not_parent d hd, h.names_parent d hd, h.fresh d hd,
        hlt _ (List.mem_map_of_mem hd), h.counts d hd, (h.shots d hd).1, (h.shots d hd).2⟩, h.nodup,
        by simp, hidx, by simp, ?_⟩
      rw [UInt64.toNat_zero, Nat.zero_add, h.total]

/-- More memory does not make the loop refuse. -/
theorem validateChildren_memory {E E' : Env} (halloc : ∀ k, E'.alloc k = true) {table : TaskTable}
    {parent : TaskDesc} {config : SplitConfig} {n : ℕ} {children : List TaskDesc}
    {seen : List TaskId} {slices : List UInt64} {total : UInt64} {c : Cursor} (c' : Cursor)
    (h : (validateChildren E table parent config n children seen slices total c).1 = .ok) :
    (validateChildren E' table parent config n children seen slices total c').1 = .ok := by
  induction children generalizing seen slices total c c' with
  | nil => exact h
  | cons child rest ih =>
    rw [validateChildren] at h ⊢
    split at h
    · simp at h
    · next hids =>
      rw [if_neg hids]
      split at h
      · split at h
        · simp at h
        · next hslice =>
          rw [if_neg hslice]
          split at h
          · split at h
            · simp at h
            · next hshots =>
              rw [if_neg hshots]
              simp only [halloc, Bool.not_true, Bool.false_eq_true, if_false]
              split at h
              · simp at h
              · split at h
                · simp at h
                · exact ih _ h
          · simp at h
      · simp at h

/-- Slices that pass the validator partition the request, whatever memory there
is. -/
theorem validateChildTasks_valid {E : Env} {table : TaskTable} {parent : TaskDesc}
    {config : SplitConfig} {children : List TaskDesc} {c : Cursor}
    (h : (validateChildTasks E table parent children config c).1 = .ok) :
    ChildrenValid table parent config children := by
  have halloc : ∀ k, (Env.still 0).alloc k = true := fun _ => rfl
  refine ((validateChildTasks_ok_iff halloc (c := c)).1 ?_).1
  unfold validateChildTasks at h ⊢
  split at h
  · simp at h
  · next hlen =>
    rw [if_neg hlen]
    simp only [halloc, Bool.not_true, Bool.false_eq_true, if_false]
    split at h
    · simp at h
    · split at h
      · simp at h
      · exact validateChildren_memory halloc _ h

/-- **Child validation is exact.**  With memory for its tables, and for arrays
that fit into the address space, the validator accepts exactly the slices that
partition the request. -/
theorem child_validation_exact {E : Env} (halloc : ∀ k, E.alloc k = true) (table : TaskTable)
    (parent : TaskDesc) (config : SplitConfig) (children : List TaskDesc)
    (hsize : children.length ≤ u64Max.toNat / sizeofTaskDesc) (c : Cursor) :
    (validateChildTasks E table parent children config c).1 = .ok ↔
      ChildrenValid table parent config children := by
  have hfits : children.length ≤ (u64Max.toNat - 1) / 2 := by
    rw [show u64Max.toNat / sizeofTaskDesc = 164703072086692425 from rfl] at hsize
    rw [show (u64Max.toNat - 1) / 2 = 9223372036854775807 from rfl]
    omega
  rw [validateChildTasks_ok_iff halloc]
  exact and_iff_left hfits

/-- A slice of a task 1. -/
def sliceOf (id index count shots : UInt64) : TaskDesc where
  taskId := id
  parentTaskId := 1
  metadata := some [⟨metaShots, .u64 shots⟩, ⟨metaSliceIndex, .u64 index⟩,
    ⟨metaSliceCount, .u64 count⟩]

/-- Fifteen shots in a slice of ten and one of five. -/
theorem child_validation_exact_twoSlices :
    ChildrenValid TaskTable.empty { taskId := 1 } ⟨0, 10, 0, 0, 15, 10, 2⟩
      [sliceOf 2 1 2 10, sliceOf 3 0 2 5] := by
  have halloc : ∀ k, (Env.still 0).alloc k = true := fun _ => rfl
  exact (child_validation_exact halloc TaskTable.empty { taskId := 1 } ⟨0, 10, 0, 0, 15, 10, 2⟩
    [sliceOf 2 1 2 10, sliceOf 3 0 2 5] (by decide) .start).1 (by decide)

end QhwScheduler
