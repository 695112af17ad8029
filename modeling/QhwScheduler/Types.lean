import QhwScheduler.Foundations.Heap

/-!
# Types of the public interface

The data of `qhw_scheduler_types.h` that the scheduler reads or writes, and the
environment a call runs in.

* `Rc`, `TaskState`, `Kv`, `TaskDesc`, `SplitConfig`, `Assignment` — the ABI
  types.  An array argument is `none` for a null pointer with a positive count.
* `metadataGetU64` — the first entry with a key and the `U64` type.
* `Env`, `Cursor` — the answers of the allocator and of the monotonic clock
  during one call, and how many of them have been used up.
* `heapPush` — a push that asks the allocator only to outgrow the largest size
  the heap has had.
-/

namespace QhwScheduler

open Foundations

/-! ## Result codes and task states -/

/-- `qhw_sched_rc_t`. -/
inductive Rc where
  | ok
  | errInvalidArg
  | errNoMemory
  | errNotFound
  | errExists
  | errPlugin
  | errUnsupported
  | errState
  deriving DecidableEq, Repr, Inhabited

/-- `qhw_sched_task_id_t`. -/
abbrev TaskId := UInt64

/-- `QHW_SCHED_INVALID_TASK_ID`. -/
def invalidTaskId : TaskId := 0

/-- `qhw_sched_task_state_t`. -/
inductive TaskState where
  | unknown
  | queued
  | running
  | completed
  | failed
  | cancelled
  | assigned
  | waiting
  deriving DecidableEq, Repr, Inhabited

/-- `UINT64_MAX`, also `(size_t)-1`. -/
def u64Max : UInt64 := 0xFFFFFFFFFFFFFFFF

/-! ## Key/value entries -/

/-- The type tag of an entry with the union member it selects.  The code reads
only the `u64` and the `i64` member. -/
inductive Value where
  | u64 (v : UInt64)
  | i64 (v : Int64)
  | other (type : UInt32)
  deriving DecidableEq, Inhabited

/-- `qhw_sched_kv_t`. -/
structure Kv where
  key : UInt64
  value : Value
  deriving DecidableEq, Inhabited

/-- A pointer and a count: `none` is a null pointer with a positive count. -/
abbrev KvArray := Option (List Kv)

/-- `QHW_SCHED_META_SHOTS`. -/
def metaShots : UInt64 := 1
/-- `QHW_SCHED_META_ESTIMATED_RUNTIME_NS`. -/
def metaEstimatedRuntimeNs : UInt64 := 5
/-- `QHW_SCHED_META_SLICE_INDEX`. -/
def metaSliceIndex : UInt64 := 9
/-- `QHW_SCHED_META_SLICE_COUNT`. -/
def metaSliceCount : UInt64 := 10
/-- `QHW_SCHED_META_MAX_SHOTS`. -/
def metaMaxShots : UInt64 := 13
/-- `QHW_SCHED_OPT_SLICE_SHOT_THRESHOLD`. -/
def optSliceShotThreshold : UInt64 := 100
/-- `QHW_SCHED_OPT_SLICE_MAX_SHOTS`. -/
def optSliceMaxShots : UInt64 := 101
/-- `QHW_SCHED_OPT_SLICE_MIN_REMAINDER_SHOTS`. -/
def optSliceMinRemainderShots : UInt64 := 102
/-- `QHW_SCHED_OPT_SLICE_MAX_CHILDREN`. -/
def optSliceMaxChildren : UInt64 := 103
/-- `QHW_SCHED_OPT_DEADLINE_BOOST_ENABLE`. -/
def optDeadlineBoostEnable : UInt64 := 200
/-- `QHW_SCHED_OPT_DEADLINE_NOW_NS`. -/
def optDeadlineNowNs : UInt64 := 201
/-- `QHW_SCHED_OPT_DEADLINE_NORMAL_THRESHOLD`. -/
def optDeadlineNormalThreshold : UInt64 := 202
/-- `QHW_SCHED_OPT_DEADLINE_URGENT_THRESHOLD`. -/
def optDeadlineUrgentThreshold : UInt64 := 203
/-- `QHW_SCHED_OPT_DEADLINE_CRITICAL_THRESHOLD`. -/
def optDeadlineCriticalThreshold : UInt64 := 204
/-- `QHW_SCHED_OPT_DEADLINE_NORMAL_BOOST`. -/
def optDeadlineNormalBoost : UInt64 := 205
/-- `QHW_SCHED_OPT_DEADLINE_URGENT_BOOST`. -/
def optDeadlineUrgentBoost : UInt64 := 206
/-- `QHW_SCHED_OPT_DEADLINE_CRITICAL_BOOST`. -/
def optDeadlineCriticalBoost : UInt64 := 207
/-- `QHW_SCHED_OPT_ORDER_KEY`. -/
def optOrderKey : UInt64 := 300

/-- `metadata_get_u64`: the first entry with this key whose type is `U64`. -/
def metadataGetU64 (metadata : KvArray) (key : UInt64) : Option UInt64 :=
  match metadata with
  | none => none
  | some kvs => kvs.findSome? fun kv =>
      match kv.value with
      | .u64 v => if kv.key = key then some v else none
      | _ => none

/-! ## Tasks -/

/-- `qhw_sched_task_desc_t`, without the two fields that nothing reads. -/
structure TaskDesc where
  taskId : TaskId
  parentTaskId : TaskId := 0
  jobId : UInt64 := 0
  reservationId : UInt64 := 0
  priority : Int64 := 0
  deadlineNs : UInt64 := 0
  estimatedRuntimeNs : UInt64 := 0
  estimatedCost : UInt64 := 0
  payload : UInt64 := 0
  payloadSize : UInt64 := 0
  metadata : KvArray := some []
  deriving DecidableEq, Inhabited

/-- `qhw_sched_assignment_t`. -/
structure Assignment where
  taskId : TaskId
  parentTaskId : TaskId
  sliceIndex : UInt64
  sliceCount : UInt64
  payload : UInt64
  payloadSize : UInt64
  estimatedRuntimeNs : UInt64
  estimatedCost : UInt64
  deriving DecidableEq, Inhabited

/-- `qhw_sched_split_config_t`. -/
structure SplitConfig where
  shotThreshold : UInt64
  maxShots : UInt64
  minRemainderShots : UInt64
  maxChildren : UInt64
  requestedShots : UInt64
  sliceShots : UInt64
  sliceCount : UInt64
  deriving DecidableEq, Inhabited

/-! ## The environment of a call -/

/-- What the allocator and the clock answer during one call: whether the
`n`-th request for memory succeeds, and the value of the `n`-th reading of
`CLOCK_MONOTONIC`. -/
structure Env where
  /-- Does the `n`-th request succeed? -/
  alloc : ℕ → Bool
  /-- The `n`-th reading. -/
  clock : ℕ → UInt64
  /-- The clock does not run backwards. -/
  clock_mono : ∀ i j, i ≤ j → clock i ≤ clock j

/-- A call in which no request fails and the clock stands still. -/
def Env.still (t : UInt64) : Env := ⟨fun _ => true, fun _ => t, fun _ _ _ => UInt64.le_refl t⟩

/-- How many requests and readings a call has used up. -/
structure Cursor where
  allocs : ℕ
  reads : ℕ
  deriving DecidableEq

/-- The beginning of a call. -/
def Cursor.start : Cursor := ⟨0, 0⟩

/-- One request for memory later. -/
def Cursor.alloc (c : Cursor) : Cursor := { c with allocs := c.allocs + 1 }

/-- One clock reading later. -/
def Cursor.read (c : Cursor) : Cursor := { c with reads := c.reads + 1 }

/-- `qhw_deadline_boost_now_ns`. -/
def deadlineBoostNowNs (E : Env) (c : Cursor) : UInt64 × Cursor := (E.clock c.reads, c.read)

/-- The outcome of a heap push. -/
structure PushResult (ι : Type) where
  ok : Bool
  heap : Heap ι
  cursor : Cursor

/-- `qhw_heap_push`: the heap asks for memory only when it must grow beyond the
largest size it has had. -/
def heapPush {ι : Type} [DecidableEq ι] (H : HeapOps) (E : Env) (cmp : ι → ι → Ordering)
    (h : Heap ι) (x : ι) (c : Cursor) : PushResult ι :=
  if h.items.length < h.peak then ⟨true, h.push H cmp x, c⟩
  else if E.alloc c.allocs then ⟨true, h.push H cmp x, c.alloc⟩
  else ⟨false, h, c.alloc⟩

section HeapPush

variable {ι : Type} [DecidableEq ι] {H : HeapOps} {E : Env} {cmp : ι → ι → Ordering} {h : Heap ι}
  {x : ι} {c : Cursor}

theorem heapPush_ok (hok : (heapPush H E cmp h x c).ok = true) :
    (heapPush H E cmp h x c).heap = h.push H cmp x := by
  unfold heapPush at hok ⊢
  split
  · rfl
  · split
    · rfl
    · next hn ha => simp [hn, ha] at hok

theorem heapPush_failed (hok : (heapPush H E cmp h x c).ok = false) :
    (heapPush H E cmp h x c).heap = h := by
  unfold heapPush at hok ⊢
  split
  · next hr => simp [hr] at hok
  · split
    · next hn ha => simp [hn, ha] at hok
    · rfl

theorem heapPush_room (hr : h.items.length < h.peak) : (heapPush H E cmp h x c).ok = true := by
  simp [heapPush, hr]

theorem heapPush_alloc (ha : ∀ n, E.alloc n = true) : (heapPush H E cmp h x c).ok = true := by
  unfold heapPush
  split
  · rfl
  · simp [ha]

end HeapPush

end QhwScheduler
