import QhwScheduler.Core.TaskTable

/-!
# Slicing

`qhw_split.c` and the slicing part of `qhw_scheduler.c`: when a task is split,
into how many slices, and which answers of the split callback are accepted.

* `splitConfigParseOptions` — the slicing options of a policy.
* `splitDecision` — the part of `compute_split_config` that follows the policy's
  answer.
* `validateChildTasks` — the checks on the slices.
-/

namespace QhwScheduler

/-! ## Configuration -/

/-- `qhw_sched_split_config_init`. -/
def splitConfigInit : SplitConfig := ⟨0, 0, 0, 0, 0, 0, 0⟩

/-- `is_split_option`. -/
def isSplitOption (key : UInt64) : Bool :=
  key = optSliceShotThreshold || key = optSliceMaxShots || key = optSliceMinRemainderShots ||
    key = optSliceMaxChildren

/-- `set_config_u64`. -/
def setConfigU64 (config : SplitConfig) (key value : UInt64) : SplitConfig :=
  if key = optSliceShotThreshold then { config with shotThreshold := value }
  else if key = optSliceMaxShots then { config with maxShots := value }
  else if key = optSliceMinRemainderShots then { config with minRemainderShots := value }
  else if key = optSliceMaxChildren then { config with maxChildren := value }
  else config

/-- One turn of the loop of `qhw_sched_split_config_parse_options`. -/
def splitConfigParseOption (config : SplitConfig) (option : Kv) : Option SplitConfig :=
  if !isSplitOption option.key then some config
  else
    match option.value with
    | .u64 v => some (setConfigU64 config option.key v)
    | _ => none

/-- `qhw_sched_split_config_parse_options`; `none` is
`QHW_SCHED_ERR_INVALID_ARG`. -/
def splitConfigParseOptions (config : SplitConfig) (options : KvArray) : Option SplitConfig :=
  match options with
  | none => none
  | some kvs => kvs.foldlM splitConfigParseOption config

/-! ## The decision -/

/-- `min_nonzero`. -/
def minNonzero (left right : UInt64) : UInt64 :=
  if left = 0 then right else if right = 0 then left else if left < right then left else right

/-- The result code and the two outputs of `compute_split_config`. -/
structure SplitDecision where
  rc : Rc
  config : SplitConfig
  shouldSplit : Bool

/-- `compute_split_config` once the policy has given its configuration. -/
def splitDecision (config : SplitConfig) (qpuMetadata : KvArray) (hasSplitTask : Bool)
    (task : TaskDesc) : SplitDecision :=
  match metadataGetU64 task.metadata metaShots with
  | none => ⟨.ok, config, false⟩
  | some requestedShots =>
    let qpuMaxShots := (metadataGetU64 qpuMetadata metaMaxShots).getD 0
    let maxShots := minNonzero config.maxShots qpuMaxShots
    if maxShots = 0 then ⟨.ok, config, false⟩
    else
      let threshold := if config.shotThreshold = 0 then maxShots else config.shotThreshold
      let threshold := if threshold = 0 ∨ threshold > maxShots then maxShots else threshold
      if requestedShots ≤ threshold then ⟨.ok, config, false⟩
      else
        let childCount := requestedShots / maxShots
        let childCount := if requestedShots % maxShots ≠ 0 then childCount + 1 else childCount
        if config.maxChildren ≠ 0 ∧ childCount > config.maxChildren then
          ⟨.errUnsupported, config, false⟩
        else if childCount > u64Max then ⟨.errUnsupported, config, false⟩
        else if !hasSplitTask then ⟨.errUnsupported, config, false⟩
        else
          ⟨.ok, { config with
            requestedShots := requestedShots
            sliceShots := maxShots
            sliceCount := childCount }, true⟩

/-- `sizeof(qhw_sched_task_desc_t)`. -/
def sizeofTaskDesc : ℕ := 112

/-! ## The slices -/

/-- The loop of `validate_child_tasks` over the slices that are left, with the
ids and slice indexes seen so far and the shots they add up to. -/
def validateChildren (E : Env) (table : TaskTable) (parent : TaskDesc) (config : SplitConfig)
    (childCount : ℕ) :
    List TaskDesc → List TaskId → List UInt64 → UInt64 → Cursor → Rc × Cursor
  | [], _, _, totalShots, c =>
    (if totalShots ≠ config.requestedShots then .errInvalidArg else .ok, c)
  | child :: rest, seen, seenSlices, totalShots, c =>
    if child.taskId = invalidTaskId ∨ child.taskId = parent.taskId ∨
        child.parentTaskId ≠ parent.taskId ∨ (taskTableFind table child.taskId).isSome ∨
        child.taskId ∈ seen then (.errInvalidArg, c)
    else
      match metadataGetU64 child.metadata metaSliceIndex,
          metadataGetU64 child.metadata metaSliceCount with
      | some sliceIndex, some sliceCount =>
        if sliceCount.toNat ≠ childCount ∨ sliceIndex.toNat ≥ childCount ∨
            sliceIndex ∈ seenSlices then (.errInvalidArg, c)
        else
          match metadataGetU64 child.metadata metaShots with
          | some childShots =>
            if childShots = 0 ∨ childShots > config.sliceShots ∨
                childShots > config.requestedShots - totalShots then (.errInvalidArg, c)
            else if !E.alloc c.allocs then (.errNoMemory, c.alloc)
            else if !E.alloc c.alloc.allocs then (.errNoMemory, c.alloc.alloc)
            else
              validateChildren E table parent config childCount rest (child.taskId :: seen)
                (sliceIndex :: seenSlices) (totalShots + childShots) c.alloc.alloc
          | none => (.errInvalidArg, c)
      | _, _ => (.errInvalidArg, c)

/-- `validate_child_tasks`. -/
def validateChildTasks (E : Env) (table : TaskTable) (parent : TaskDesc) (children : List TaskDesc)
    (config : SplitConfig) (c : Cursor) : Rc × Cursor :=
  if children.length ≠ config.sliceCount.toNat ∨ children.length > (u64Max.toNat - 1) / 2 then
    (.errUnsupported, c)
  else if !E.alloc c.allocs then (.errNoMemory, c.alloc)
  else if !E.alloc c.alloc.allocs then (.errNoMemory, c.alloc.alloc)
  else validateChildren E table parent config children.length children [] [] 0 c.alloc.alloc

/-! ## What acceptance means -/

/-- What `validate_child_tasks` makes sure of for the table: fresh, valid and
distinct ids, none of them the parent's, and the parent named by each slice. -/
structure ChildrenFresh (table : TaskTable) (parent : TaskDesc) (children : List TaskDesc) :
    Prop where
  nodup : (children.map TaskDesc.taskId).Nodup
  valid : ∀ d ∈ children, d.taskId ≠ invalidTaskId
  fresh : ∀ d ∈ children, taskTableFind table d.taskId = none
  not_parent : ∀ d ∈ children, d.taskId ≠ parent.taskId
  names_parent : ∀ d ∈ children, d.parentTaskId = parent.taskId

theorem validateChildren_fresh {E : Env} {table : TaskTable} {parent : TaskDesc}
    {config : SplitConfig} {n : ℕ} {children : List TaskDesc} {seen : List TaskId}
    {slices : List UInt64} {total : UInt64} {c : Cursor}
    (h : (validateChildren E table parent config n children seen slices total c).1 = .ok) :
    ChildrenFresh table parent children ∧ ∀ d ∈ children, d.taskId ∉ seen := by
  induction children generalizing seen slices total c with
  | nil => exact ⟨⟨by simp, by simp, by simp, by simp, by simp⟩, by simp⟩
  | cons child rest ih =>
    rw [validateChildren] at h
    split at h
    · simp at h
    · next hids =>
      simp only [not_or, Option.isSome_iff_ne_none, not_not] at hids
      obtain ⟨hvalid, hparent, hnames, hfresh, hseen⟩ := hids
      split at h
      · split at h
        · simp at h
        · split at h
          · split at h
            · simp at h
            · split at h
              · simp at h
              · split at h
                · simp at h
                · obtain ⟨hrest, hnot⟩ := ih h
                  refine ⟨⟨?_, ?_, ?_, ?_, ?_⟩, ?_⟩
                  · rw [List.map_cons, List.nodup_cons]
                    refine ⟨?_, hrest.nodup⟩
                    rw [List.mem_map]
                    rintro ⟨d, hd, hid⟩
                    exact hnot d hd (by simp [hid])
                  · exact List.forall_mem_cons.2 ⟨hvalid, hrest.valid⟩
                  · exact List.forall_mem_cons.2 ⟨hfresh, hrest.fresh⟩
                  · exact List.forall_mem_cons.2 ⟨hparent, hrest.not_parent⟩
                  · exact List.forall_mem_cons.2 ⟨hnames, hrest.names_parent⟩
                  · refine List.forall_mem_cons.2 ⟨hseen, fun d hd hmem => hnot d hd ?_⟩
                    exact List.mem_cons_of_mem _ hmem
          · simp at h
      · simp at h

theorem validateChildTasks_fresh {E : Env} {table : TaskTable} {parent : TaskDesc}
    {children : List TaskDesc} {config : SplitConfig} {c : Cursor}
    (h : (validateChildTasks E table parent children config c).1 = .ok) :
    ChildrenFresh table parent children ∧ children.length = config.sliceCount.toNat := by
  unfold validateChildTasks at h
  split at h
  · simp at h
  · next hlen =>
    simp only [not_or, not_not] at hlen
    split at h
    · simp at h
    · split at h
      · simp at h
      · exact ⟨(validateChildren_fresh h).1, hlen.1⟩

/-- A positive number of shots needs at least one slice. -/
theorem sliceCount_pos (requested : UInt64) {m : UInt64} (hr : requested ≠ 0) (hm : m ≠ 0) :
    0 < (if requested % m ≠ 0 then requested / m + 1 else requested / m).toNat := by
  have hr' : 0 < requested.toNat := by
    rw [Nat.pos_iff_ne_zero, ne_eq, ← UInt64.toNat_zero, UInt64.toNat_inj]
    exact hr
  have hm' : 0 < m.toNat := by
    rw [Nat.pos_iff_ne_zero, ne_eq, ← UInt64.toNat_zero, UInt64.toNat_inj]
    exact hm
  have hlt := requested.toNat_lt
  split
  · next hrem =>
    have hrem' : requested.toNat % m.toNat ≠ 0 := by
      rw [← UInt64.toNat_mod, ← UInt64.toNat_zero, ne_eq, UInt64.toNat_inj]
      exact hrem
    have hm2 : 2 ≤ m.toNat := by
      by_contra hlt2
      have : m.toNat = 1 := by omega
      rw [this, Nat.mod_one] at hrem'
      exact hrem' rfl
    have hdiv : requested.toNat / m.toNat ≤ requested.toNat / 2 := Nat.div_le_div_left hm2 (by omega)
    rw [UInt64.toNat_add, UInt64.toNat_div, UInt64.toNat_one, Nat.mod_eq_of_lt (by omega)]
    exact Nat.succ_pos _
  · next hrem =>
    have hrem' : requested.toNat % m.toNat = 0 := by
      rw [← UInt64.toNat_mod, ← UInt64.toNat_zero, UInt64.toNat_inj]
      simpa using hrem
    rw [UInt64.toNat_div]
    exact Nat.div_pos (Nat.le_of_dvd hr' (Nat.dvd_of_mod_eq_zero hrem')) hm'

/-- A decision to split asks for at least one slice. -/
theorem splitDecision_sliceCount {config : SplitConfig} {qpuMetadata : KvArray} {b : Bool}
    {task : TaskDesc} (h : (splitDecision config qpuMetadata b task).shouldSplit = true) :
    0 < (splitDecision config qpuMetadata b task).config.sliceCount.toNat := by
  unfold splitDecision at h ⊢
  split
  · next hn => simp [hn] at h
  · next requested hr =>
    simp only [hr] at h
    dsimp only at h ⊢
    generalize minNonzero config.maxShots ((metadataGetU64 qpuMetadata metaMaxShots).getD 0) = m
      at h ⊢
    by_cases hm : m = 0
    · simp [hm] at h
    rw [if_neg hm] at h ⊢
    have hpos := fun hne => sliceCount_pos requested hne hm
    generalize (if requested % m ≠ 0 then requested / m + 1 else requested / m) = n at h hpos ⊢
    generalize (if config.shotThreshold = 0 then m else config.shotThreshold) = th at h ⊢
    generalize (if th = 0 ∨ th > m then m else th) = threshold at h ⊢
    by_cases hle : requested ≤ threshold
    · simp [hle] at h
    rw [if_neg hle] at h ⊢
    have hne : requested ≠ 0 := fun h0 => hle (h0 ▸ UInt64.zero_le)
    by_cases hmax : config.maxChildren ≠ 0 ∧ n > config.maxChildren
    · rw [if_pos hmax] at h
      simp at h
    rw [if_neg hmax] at h ⊢
    by_cases hsize : n > u64Max
    · simp [hsize] at h
    rw [if_neg hsize] at h ⊢
    cases b with
    | false => simp at h
    | true => exact hpos hne

end QhwScheduler
