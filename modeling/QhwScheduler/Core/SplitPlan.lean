import QhwScheduler.Core.Commit

/-!
# Planning a split

`compute_split_config` decides on a split and `validate_child_tasks` judges the
answer of the callback.  A plan can always be met.

* `smallestLimit` — the smaller of the limits that are set.
* `greedyShots`, `GreedySlices` — slices as large as they may be, in order.
* `validateChildTasks_memory` — memory is the only reason to refuse slices that
  partition the request.
* `split_planning` — plans are sound, and the greedy slices meet them.
-/

namespace QhwScheduler

open Foundations

variable {ν : Type} {σ : ν → Type}

/-! ## Limits -/

/-- The smaller of the limits that are set, by the policy and by the QPU. -/
def smallestLimit (config : SplitConfig) (qpuMetadata : KvArray) : Option ℕ :=
  ([config.maxShots.toNat, (qpuShotLimit qpuMetadata).toNat].filter (· ≠ 0)).min?

theorem smallestLimit_eq (config : SplitConfig) (qpuMetadata : KvArray) :
    smallestLimit config qpuMetadata =
      if shotLimit config qpuMetadata = 0 then none
      else some (shotLimit config qpuMetadata).toNat := by
  unfold smallestLimit shotLimit minNonzero
  generalize config.maxShots = a
  generalize qpuShotLimit qpuMetadata = b
  have hzero : ∀ x : UInt64, x.toNat = 0 ↔ x = 0 := fun x => by
    rw [← UInt64.toNat_zero, UInt64.toNat_inj]
  by_cases ha : a = 0
  · by_cases hb : b = 0
    · simp [ha, hb]
    · simp [ha, hb, hzero]
  · by_cases hb : b = 0
    · simp [ha, hb, hzero]
    · by_cases hlt : a < b
      · have hle : a.toNat ≤ b.toNat := le_of_lt (UInt64.lt_iff_toNat_lt.1 hlt)
        simp [ha, hb, hzero, hlt, List.min?_cons, hle]
      · have hle : b.toNat ≤ a.toNat := UInt64.le_iff_toNat_le.1 (UInt64.not_lt.1 hlt)
        simp [ha, hb, hzero, hlt, List.min?_cons, hle]

/-- A task is never left whole above the limit. -/
theorem shotThreshold_le (config : SplitConfig) (qpuMetadata : KvArray) :
    shotThreshold config qpuMetadata ≤ shotLimit config qpuMetadata := by
  unfold shotThreshold
  dsimp only
  split
  · exact UInt64.le_refl _
  · next h => exact UInt64.not_lt.1 fun hlt => h (Or.inr hlt)

/-! ## Greedy slices -/

/-- The shots of `count` slices that each take as many as they may. -/
def greedyShots (sliceShots : ℕ) : ℕ → ℕ → List ℕ
  | 0, _ => []
  | count + 1, remaining =>
    min sliceShots remaining :: greedyShots sliceShots count (remaining - min sliceShots remaining)

example : greedyShots 10 3 25 = [10, 10, 5] := by decide

/-- Slices with fresh ids, numbered in order, that take the shots greedily. -/
structure GreedySlices (table : TaskTable) (parent : TaskDesc) (config : SplitConfig)
    (children : List TaskDesc) : Prop where
  valid : ∀ d ∈ children, d.taskId ≠ invalidTaskId
  nodup : (taskIds children).Nodup
  not_parent : ∀ d ∈ children, d.taskId ≠ parent.taskId
  fresh : ∀ d ∈ children, taskTableFind table d.taskId = none
  names_parent : ∀ d ∈ children, d.parentTaskId = parent.taskId
  counts : ∀ d ∈ children, sliceCountOf d = some config.sliceCount.toNat
  indexes : children.map sliceIndexOf = (List.range config.sliceCount.toNat).map some
  shots : children.map shotsOf =
    greedyShots config.sliceShots.toNat config.sliceCount.toNat config.requestedShots.toNat

/-- With as many slices as are needed, and not more, every greedy slice gets a
shot and all shots are taken. -/
theorem greedyShots_spec {sliceShots count remaining : ℕ} (hle : remaining ≤ count * sliceShots)
    (hlt : ∀ k, count = k + 1 → k * sliceShots < remaining) :
    (greedyShots sliceShots count remaining).sum = remaining ∧
      ∀ n ∈ greedyShots sliceShots count remaining, 1 ≤ n ∧ n ≤ sliceShots := by
  induction count generalizing remaining with
  | zero =>
    rw [Nat.zero_mul, Nat.le_zero] at hle
    exact ⟨by simp [greedyShots, hle], by simp [greedyShots]⟩
  | succ count ih =>
    have hrem := hlt count rfl
    rw [Nat.add_mul, Nat.one_mul] at hle
    have hrest : remaining - min sliceShots remaining ≤ count * sliceShots := by omega
    obtain ⟨hsum, hall⟩ := ih hrest (by
      rintro k rfl
      rw [Nat.add_mul] at hrem hle
      omega)
    refine ⟨?_, ?_⟩
    · rw [greedyShots, List.sum_cons, hsum]
      omega
    · rw [greedyShots, List.forall_mem_cons]
      refine ⟨⟨?_, min_le_left _ _⟩, hall⟩
      have : 0 < sliceShots := by
        rw [Nat.pos_iff_ne_zero]
        rintro rfl
        omega
      omega

/-- The greedy answer to a demand partitions the request. -/
theorem GreedySlices.children_valid {table : TaskTable} {task : TaskDesc} {children : List TaskDesc}
    {config planned : SplitConfig} {qpuMetadata : KvArray}
    (h : GreedySlices table task planned children)
    (hdemand : Demands config qpuMetadata task planned) (hslice : planned.sliceShots ≠ 0) :
    ChildrenValid table task planned children := by
  have hpos := toNat_pos hslice
  have hlength : children.length = planned.sliceCount.toNat := by
    have := congrArg List.length h.indexes
    rwa [List.length_map, List.length_map, List.length_range] at this
  have hcount : planned.sliceCount.toNat =
      planned.requestedShots.toNat ⌈/⌉ planned.sliceShots.toNat := hdemand.count
  -- the slices suffice, and one fewer would not
  have henough : planned.requestedShots.toNat ≤
      planned.sliceCount.toNat * planned.sliceShots.toNat := by
    rw [hcount, Nat.mul_comm]
    exact (ceilDiv_le_iff_le_mul hpos).1 le_rfl
  have hfewer : ∀ k, planned.sliceCount.toNat = k + 1 →
      k * planned.sliceShots.toNat < planned.requestedShots.toNat := by
    intro k hk
    by_contra hge
    have := (ceilDiv_le_iff_le_mul hpos).2 (Nat.mul_comm k _ ▸ not_lt.1 hge)
    omega
  obtain ⟨hsum, hall⟩ := greedyShots_spec henough hfewer
  refine ⟨hlength, h.valid, h.nodup, h.not_parent, h.fresh, h.names_parent, ?_, ?_, ?_, ?_⟩
  · intro d hd
    rw [h.counts d hd, hlength]
  · rw [h.indexes, hlength]
  · intro d hd
    exact hall _ (h.shots ▸ List.mem_map_of_mem hd)
  · rw [h.shots, hsum]

/-! ## Memory -/

/-- In any environment the loop of the validator answers as it would with memory,
or reports that there is none. -/
theorem validateChildren_memory_or {E E' : Env} (halloc : ∀ k, E'.alloc k = true) {table : TaskTable}
    {parent : TaskDesc} {config : SplitConfig} {n : ℕ} {children : List TaskDesc}
    {seen : List TaskId} {slices : List UInt64} {total : UInt64} {c : Cursor} (c' : Cursor)
    (h : (validateChildren E' table parent config n children seen slices total c').1 = .ok) :
    (validateChildren E table parent config n children seen slices total c).1 = .ok ∨
      (validateChildren E table parent config n children seen slices total c).1 = .errNoMemory := by
  induction children generalizing seen slices total c c' with
  | nil => exact Or.inl h
  | cons child rest ih =>
    rw [validateChildren] at h ⊢
    simp only [halloc, Bool.not_true, Bool.false_eq_true, if_false] at h
    split at h
    · simp at h
    · next hids =>
      rw [if_neg hids]
      split at h
      · split at h
        · simp at h
        · next hslice =>
          rw [if_neg hslice]
          split at h
          · split at h
            · simp at h
            · next hshots =>
              rw [if_neg hshots]
              split
              · exact Or.inr rfl
              · split
                · exact Or.inr rfl
                · exact ih _ h
          · simp at h
      · simp at h

/-- An array of descriptions that fits into the address space is not too long for
the tables of the validator. -/
theorem le_of_fits {n : ℕ} (h : n ≤ u64Max.toNat / sizeofTaskDesc) :
    n ≤ (u64Max.toNat - 1) / 2 := by
  rw [show u64Max.toNat / sizeofTaskDesc = 164703072086692425 from rfl] at h
  rw [show (u64Max.toNat - 1) / 2 = 9223372036854775807 from rfl]
  omega

/-- Slices that the validator accepts with memory are refused for want of memory
only. -/
theorem validateChildTasks_memory {E E' : Env} (halloc : ∀ k, E'.alloc k = true) {table : TaskTable}
    {parent : TaskDesc} {children : List TaskDesc} {config : SplitConfig} {c : Cursor}
    (h : (validateChildTasks E' table parent children config c).1 = .ok) :
    (validateChildTasks E table parent children config c).1 = .ok ∨
      (validateChildTasks E table parent children config c).1 = .errNoMemory := by
  unfold validateChildTasks at h ⊢
  simp only [halloc, Bool.not_true, Bool.false_eq_true, if_false] at h
  split at h
  · simp at h
  · next hlen =>
    rw [if_neg hlen]
    split
    · exact Or.inr rfl
    · split
      · exact Or.inr rfl
      · exact validateChildren_memory_or halloc _ h

/-! ## Plans -/

section Plans

variable {P : ∀ n, PluginDesc (σ n)} {s : Sched σ} {task : TaskDesc}

/-- A split is asked for without error. -/
theorem splitDecision_rc {config : SplitConfig} {qpuMetadata : KvArray} {b : Bool}
    (h : (splitDecision config qpuMetadata b task).shouldSplit = true) :
    (splitDecision config qpuMetadata b task).rc = .ok := by
  unfold splitDecision at h ⊢
  split
  · rfl
  · next requested hr =>
    simp only [hr] at h
    dsimp only at h ⊢
    generalize minNonzero config.maxShots ((metadataGetU64 qpuMetadata metaMaxShots).getD 0) = m
      at h ⊢
    generalize (if requested % m ≠ 0 then requested / m + 1 else requested / m) = n at h ⊢
    generalize (if config.shotThreshold = 0 then m else config.shotThreshold) = th at h ⊢
    by_cases hm : m = 0
    · rw [if_pos hm]
    rw [if_neg hm] at h ⊢
    by_cases hle : requested ≤ if th = 0 ∨ th > m then m else th
    · rw [if_pos hle]
    rw [if_neg hle] at h ⊢
    by_cases hmax : config.maxChildren ≠ 0 ∧ n > config.maxChildren
    · rw [if_pos hmax] at h
      simp at h
    rw [if_neg hmax] at h ⊢
    by_cases hsize : n > u64Max
    · simp [hsize] at h
    rw [if_neg hsize] at h ⊢
    cases b with
    | false => simp at h
    | true => rfl

theorem computeSplitConfig_rc (h : (computeSplitConfig P s task).1.shouldSplit = true) :
    (computeSplitConfig P s task).1.rc = .ok := by
  unfold computeSplitConfig at h ⊢
  generalize getPolicySplitConfig P s = answer at h ⊢
  obtain ⟨rc, config, s'⟩ := answer
  cases rc <;> first | exact splitDecision_rc h | simp at h

/-- Whoever demands a slice has a limit. -/
theorem Demands.slice_ne_zero {config planned : SplitConfig} {qpuMetadata : KvArray}
    (h : Demands config qpuMetadata task planned) (hpos : 0 < planned.sliceCount.toNat) :
    planned.sliceShots ≠ 0 := by
  intro h0
  have hcount := h.count
  rw [h0, UInt64.toNat_zero, Nat.div_zero] at hcount
  omega

/-- **Plans are sound and can be met.**  A task left whole keeps within the
smaller limit.  A split takes that limit for its slices, as many as are needed,
and the validator refuses the greedy slices for want of memory only. -/
theorem split_planning (P : ∀ n, PluginDesc (σ n)) (s : Sched σ) (task : TaskDesc) :
    let config := configInForce P s
    let answer := (computeSplitConfig P s task).1
    let planned := answer.config
    (answer.rc = .ok → answer.shouldSplit = false →
      ∀ shots limit, metadataGetU64 task.metadata metaShots = some shots →
        smallestLimit config s.qpu.metadata = some limit → shots.toNat ≤ limit) ∧
    (answer.shouldSplit = true →
      answer.rc = .ok ∧
      metadataGetU64 task.metadata metaShots = some planned.requestedShots ∧
      smallestLimit config s.qpu.metadata = some planned.sliceShots.toNat ∧
      planned.sliceCount.toNat = planned.requestedShots.toNat ⌈/⌉ planned.sliceShots.toNat ∧
      1 ≤ planned.sliceCount.toNat ∧
      (config.maxChildren ≠ 0 → planned.sliceCount ≤ config.maxChildren) ∧
      ∀ children, GreedySlices s.tasks task planned children →
        planned.sliceCount.toNat ≤ u64Max.toNat / sizeofTaskDesc → ∀ E c,
          ((∀ k, E.alloc k = true) →
            (validateChildTasks E s.tasks task children planned c).1 = .ok) ∧
          ((validateChildTasks E s.tasks task children planned c).1 = .ok ∨
            (validateChildTasks E s.tasks task children planned c).1 = .errNoMemory)) := by
  have hspec := @computeSplitConfig_spec _ _ P s task
  have hpos := @computeSplitConfig_sliceCount _ _ P s task
  have hrc := @computeSplitConfig_rc _ _ P s task
  dsimp only at hspec ⊢
  generalize (computeSplitConfig P s task).1 = answer at hspec hpos hrc ⊢
  refine ⟨fun hok hwhole shots limit hshots hlimit => ?_, fun hsplit => ?_⟩
  · rcases hspec hok with ⟨-, hfits⟩ | ⟨hsplit, -⟩
    · rw [smallestLimit_eq] at hlimit
      split at hlimit
      · simp at hlimit
      · next hne =>
        have hle := hfits (minNonzero_ne_zero.1 hne) shots hshots
        rw [← Option.some.inj hlimit]
        exact UInt64.le_iff_toNat_le.1 (UInt64.le_trans hle (shotThreshold_le _ _))
    · simp [hwhole] at hsplit
  · rcases hspec (hrc hsplit) with ⟨hwhole, -⟩ | ⟨-, hdemand⟩
    · simp [hsplit] at hwhole
    have hslice := hdemand.slice_ne_zero (hpos hsplit)
    refine ⟨hrc hsplit, hdemand.requested, ?_, hdemand.count, hpos hsplit, hdemand.count_le, ?_⟩
    · rw [smallestLimit_eq, ← hdemand.limit, if_neg hslice]
    · intro children hgreedy hfits E c
      have hvalid := hgreedy.children_valid hdemand hslice
      rw [← hvalid.length] at hfits
      have haccepted : ∀ E' : Env, (∀ k, E'.alloc k = true) →
          (validateChildTasks E' s.tasks task children answer.config c).1 = .ok :=
        fun E' halloc => (validateChildTasks_ok_iff halloc).2 ⟨hvalid, le_of_fits hfits⟩
      exact ⟨haccepted E, @validateChildTasks_memory _ (Env.still 0) (fun _ => rfl) _ _ _ _ _
        (haccepted (Env.still 0) fun _ => rfl)⟩

end Plans

/-- A new scheduler on a QPU that takes ten shots at a time, with a callback that splits. -/
def splitting : Sched (Empty.elim : Empty → Type) :=
  { schedCreate (qpuCreate (some [⟨metaMaxShots, .u64 10⟩])) with callbacks := { splitTask := true } }

/-- Twenty-five shots are split into slices of ten, ten and five. -/
theorem split_planning_threeSlices :
    let task : TaskDesc := { taskId := 1, metadata := some [⟨metaShots, .u64 25⟩] }
    let slice := fun (i shots : UInt64) => ({
      taskId := i + 2
      parentTaskId := 1
      metadata := some [⟨metaSliceIndex, .u64 i⟩, ⟨metaSliceCount, .u64 3⟩, ⟨metaShots, .u64 shots⟩] } :
        TaskDesc)
    let children := [slice 0 10, slice 1 10, slice 2 5]
    let answer := (computeSplitConfig noPlugins splitting task).1
    answer.shouldSplit = true ∧ GreedySlices splitting.tasks task answer.config children ∧
      (validateChildTasks (.still 0) splitting.tasks task children answer.config .start).1 = .ok := by
  intro task slice children answer
  have hsplit : answer.shouldSplit = true := by decide
  have hgreedy : GreedySlices splitting.tasks task answer.config children :=
    ⟨by decide, by decide, by decide, by decide, by decide, by decide, by decide, by decide⟩
  obtain ⟨-, -, -, -, -, -, hmet⟩ := (split_planning noPlugins splitting task).2 hsplit
  exact ⟨hsplit, hgreedy, (hmet children hgreedy (by decide) (.still 0) .start).1 fun _ => rfl⟩

end QhwScheduler
