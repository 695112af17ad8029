import QhwScheduler.Foundations.Comparator
import QhwScheduler.Policy.Metadata
import QhwScheduler.Policy.Waiting

/-!
# Ready queues

`qhw_ready_queue.c`: the ready tasks of a policy, in a list or in a heap, with a
hash table over their ids.

* `ReadyTask`, `Memory` — the queue items.  They are written in place, so they
  live in a memory of their own; the item of a task is found under its id.
* `ReadyQueue` and its operations.
* `Mirrors`, `Numbered` — the items say what the descriptions of the tasks say,
  and the sequence numbers follow the order of insertion.
* `ReadyQueue.HeapOk`, `ReadyQueue.FifoOk` — what the two kinds of queue hold.
-/

namespace QhwScheduler

open Foundations
open Std (TransCmp ReflCmp)

/-! ## Items -/

/-- `struct qhw_ready_task`.  The two position fields are kept by the heaps. -/
structure ReadyTask where
  desc : TaskDesc
  basePriority : Int64
  effectivePriority : Int64
  estimatedCost : UInt64
  nextRefreshNs : UInt64
  seq : ℕ
  deriving DecidableEq, Inhabited

/-- The items of the ready tasks. -/
abbrev Memory := TaskId → ReadyTask

/-- The memory before any item was made. -/
def emptyMemory : Memory := fun _ => default

/-- `qhw_ready_queue_compare_fn`. -/
abbrev ReadyCompare := ReadyTask → ReadyTask → Ordering

/-- `ready_heap_compare`: entries of a heap are compared by their items. -/
def onMemory (cmp : ReadyCompare) (mem : Memory) (a b : TaskId) : Ordering := cmp (mem a) (mem b)

/-- The item `qhw_ready_queue_insert` makes. -/
def newReadyTask (estimateCost : Bool) (seq : ℕ) (task : TaskDesc) : ReadyTask where
  desc := task
  basePriority := task.priority
  effectivePriority := task.priority
  estimatedCost := if estimateCost then policyTaskEstimatedCost task else 1
  nextRefreshNs := u64Max
  seq := seq

/-! ## The queue -/

/-- `enum qhw_ready_queue_kind`. -/
inductive ReadyQueueKind where
  | fifo
  | heap
  deriving DecidableEq

/-- `struct qhw_ready_queue`; `estimateCost` is its only flag. -/
structure ReadyQueue where
  kind : ReadyQueueKind
  estimateCost : Bool
  fifo : List TaskId
  heap : Heap TaskId
  byId : Finset TaskId
  nextSeq : ℕ

/-- `qhw_ready_queue_init`: one request for the hash table and one for the heap;
`none` is `QHW_SCHED_ERR_NO_MEMORY`. -/
def readyQueueInit (E : Env) (kind : ReadyQueueKind) (estimateCost : Bool) (c : Cursor) :
    Option ReadyQueue × Cursor :=
  let queue : ReadyQueue := ⟨kind, estimateCost, [], Heap.empty, ∅, 1⟩
  if !E.alloc c.allocs then (none, c.alloc)
  else
    match kind with
    | .fifo => (some queue, c.alloc)
    | .heap =>
      if !E.alloc c.alloc.allocs then (none, c.alloc.alloc) else (some queue, c.alloc.alloc)

/-- Result code, items, queue and cursor after an insertion. -/
structure ReadyResult where
  rc : Rc
  mem : Memory
  queue : ReadyQueue
  cursor : Cursor

/-- `qhw_ready_queue_insert`. -/
def readyQueueInsert (H : HeapOps) (E : Env) (cmp : ReadyCompare) (mem : Memory)
    (queue : ReadyQueue) (task : TaskDesc) (c : Cursor) : ReadyResult :=
  if task.taskId ∈ queue.byId then ⟨.errExists, mem, queue, c⟩
  else if !E.alloc c.allocs then ⟨.errNoMemory, mem, queue, c.alloc⟩
  else
    let item := newReadyTask queue.estimateCost queue.nextSeq task
    let mem := Function.update mem task.taskId item
    let queue := { queue with nextSeq := queue.nextSeq + 1 }
    if !E.alloc c.alloc.allocs then ⟨.errNoMemory, mem, queue, c.alloc.alloc⟩
    else
      match queue.kind with
      | .fifo =>
        ⟨.ok, mem,
          { queue with
            byId := insert task.taskId queue.byId
            fifo := queue.fifo ++ [task.taskId] },
          c.alloc.alloc⟩
      | .heap =>
        let r := heapPush H E (onMemory cmp mem) (queue.heap.setIndex task.taskId (some 0))
          task.taskId c.alloc.alloc
        if !r.ok then ⟨.errNoMemory, mem, { queue with heap := r.heap }, r.cursor⟩
        else
          ⟨.ok, mem, { queue with byId := insert task.taskId queue.byId, heap := r.heap }, r.cursor⟩

/-- `qhw_ready_queue_peek`. -/
def readyQueuePeek (queue : ReadyQueue) : Option TaskId :=
  match queue.kind with
  | .heap => queue.heap.items.head?
  | .fifo => queue.fifo.head?

/-- `qhw_ready_queue_pop`; `none` is `QHW_SCHED_ERR_NOT_FOUND`. -/
def readyQueuePop (H : HeapOps) (cmp : ReadyCompare) (mem : Memory) (queue : ReadyQueue) :
    Option (TaskId × ReadyQueue) :=
  match readyQueuePeek queue with
  | none => none
  | some x =>
    let id := (mem x).desc.taskId
    let queue := { queue with byId := queue.byId.erase id }
    match queue.kind with
    | .heap => some (id, { queue with heap := queue.heap.pop H (onMemory cmp mem) })
    | .fifo => some (id, { queue with fifo := queue.fifo.tail })

/-- `qhw_ready_queue_find`. -/
def readyQueueFind (queue : ReadyQueue) (id : TaskId) : Bool := decide (id ∈ queue.byId)

/-- `qhw_ready_queue_remove`. -/
def readyQueueRemove (H : HeapOps) (cmp : ReadyCompare) (mem : Memory) (queue : ReadyQueue)
    (id : TaskId) : Rc × ReadyQueue :=
  if id ∉ queue.byId then (.errNotFound, queue)
  else
    match queue.kind with
    | .heap =>
      let r := queue.heap.remove H (onMemory cmp mem) id
      if !r.1 then (.errState, { queue with heap := r.2 })
      else (.ok, { queue with heap := r.2, byId := queue.byId.erase id })
    | .fifo => (.ok, { queue with fifo := queue.fifo.erase id, byId := queue.byId.erase id })

/-- `qhw_ready_queue_reorder`. -/
def readyQueueReorder (H : HeapOps) (cmp : ReadyCompare) (mem : Memory) (queue : ReadyQueue)
    (id : TaskId) : Rc × ReadyQueue :=
  match queue.kind with
  | .fifo => (.ok, queue)
  | .heap =>
    let r := queue.heap.reheapify H (onMemory cmp mem) id
    if !r.1 then (.errState, { queue with heap := r.2 }) else (.ok, { queue with heap := r.2 })

/-! ## Items and descriptions -/

/-- The item says what the description says. -/
structure Mirrors (estimateCost : Bool) (t : ReadyTask) (d : TaskDesc) : Prop where
  taskId : t.desc.taskId = d.taskId
  deadlineNs : t.desc.deadlineNs = d.deadlineNs
  estimatedRuntimeNs : t.desc.estimatedRuntimeNs = d.estimatedRuntimeNs
  basePriority : t.basePriority = d.priority
  estimatedCost : t.estimatedCost = if estimateCost then policyTaskEstimatedCost d else 1

/-- The tasks have distinct ids and their items say what they say. -/
structure Mirrored (estimateCost : Bool) (mem : Memory) (l : List TaskDesc) : Prop where
  nodup : (taskIds l).Nodup
  mirrors : ∀ d ∈ l, Mirrors estimateCost (mem d.taskId) d

/-- Sequence numbers grow along the list and stay below the next one. -/
structure Numbered (mem : Memory) (l : List TaskDesc) (nextSeq : ℕ) : Prop where
  growing : l.Pairwise fun a b => (mem a.taskId).seq < (mem b.taskId).seq
  below : ∀ d ∈ l, (mem d.taskId).seq < nextSeq

section Items

variable {estimateCost : Bool} {mem mem' : Memory} {l l' : List TaskDesc} {d : TaskDesc}
  {nextSeq nextSeq' : ℕ} {priority : Int64} {id : TaskId} {t : ReadyTask}

theorem newReadyTask_mirrors (estimateCost : Bool) (seq : ℕ) (task : TaskDesc) :
    Mirrors estimateCost (newReadyTask estimateCost seq task) task := ⟨rfl, rfl, rfl, rfl, rfl⟩

theorem mirrored_nil (estimateCost : Bool) (mem : Memory) : Mirrored estimateCost mem [] :=
  ⟨List.nodup_nil, by simp⟩

theorem numbered_nil (mem : Memory) (nextSeq : ℕ) : Numbered mem [] nextSeq :=
  ⟨List.Pairwise.nil, by simp⟩

theorem Mirrored.sublist (hm : Mirrored estimateCost mem l) (hl : l'.Sublist l) :
    Mirrored estimateCost mem l' :=
  ⟨hm.nodup.sublist (hl.map _), fun d hd => hm.mirrors d (hl.subset hd)⟩

theorem Numbered.sublist (hn : Numbered mem l nextSeq) (hl : l'.Sublist l) :
    Numbered mem l' nextSeq :=
  ⟨hn.growing.sublist hl, fun d hd => hn.below d (hl.subset hd)⟩

theorem Numbered.mono (hn : Numbered mem l nextSeq) (hle : nextSeq ≤ nextSeq') :
    Numbered mem l nextSeq' :=
  ⟨hn.growing, fun d hd => lt_of_lt_of_le (hn.below d hd) hle⟩

theorem Numbered.congr (hn : Numbered mem l nextSeq)
    (hseq : ∀ d ∈ l, (mem' d.taskId).seq = (mem d.taskId).seq) : Numbered mem' l nextSeq := by
  refine ⟨hn.growing.imp_of_mem ?_, ?_⟩
  · intro a b ha hb hlt
    rw [hseq a ha, hseq b hb]
    exact hlt
  · intro d hd
    rw [hseq d hd]
    exact hn.below d hd

/-- The numbers depend on the ids only. -/
theorem Numbered.of_ids (hn : Numbered mem l nextSeq) (hids : taskIds l' = taskIds l) :
    Numbered mem l' nextSeq := by
  have hgrow : ∀ l : List TaskDesc, (l.Pairwise fun a b => (mem a.taskId).seq < (mem b.taskId).seq) ↔
      (taskIds l).Pairwise fun a b => (mem a).seq < (mem b).seq :=
    fun l => (List.pairwise_map (R := fun a b => (mem a).seq < (mem b).seq)).symm
  refine ⟨(hgrow l').2 (hids ▸ (hgrow l).1 hn.growing), ?_⟩
  intro d hd
  obtain ⟨e, he, hed⟩ := mem_taskIds.1 (hids ▸ mem_taskIds_of_mem hd)
  rw [← hed]
  exact hn.below e he

theorem Mirrored.congr (hm : Mirrored estimateCost mem l)
    (hmem : ∀ d ∈ l, Mirrors estimateCost (mem d.taskId) d →
      Mirrors estimateCost (mem' d.taskId) d) : Mirrored estimateCost mem' l :=
  ⟨hm.nodup, fun d hd => hmem d hd (hm.mirrors d hd)⟩

/-- One more task, with the item the insertion made. -/
theorem Mirrored.insert (hm : Mirrored estimateCost mem l) (hnew : d.taskId ∉ taskIds l) (seq : ℕ)
    (hmem : ∀ x, x ≠ d.taskId → mem' x = mem x)
    (hitem : mem' d.taskId = newReadyTask estimateCost seq d) :
    Mirrored estimateCost mem' (l ++ [d]) := by
  have hne : ∀ e ∈ l, e.taskId ≠ d.taskId := fun e he h => hnew (h ▸ mem_taskIds_of_mem he)
  refine ⟨?_, ?_⟩
  · rw [taskIds_append, List.nodup_append]
    refine ⟨hm.nodup, by simp, ?_⟩
    intro a ha b hb hab
    rw [List.mem_singleton.1 hb] at hab
    exact hnew (hab ▸ ha)
  · intro e he
    rcases List.mem_append.1 he with he | he
    · rw [hmem _ (hne e he)]
      exact hm.mirrors e he
    · rw [List.mem_singleton.1 he, hitem]
      exact newReadyTask_mirrors estimateCost seq d

theorem Numbered.insert (hn : Numbered mem l nextSeq) (hnew : d.taskId ∉ taskIds l)
    (hmem : ∀ x, x ≠ d.taskId → mem' x = mem x)
    (hitem : (mem' d.taskId).seq = nextSeq) : Numbered mem' (l ++ [d]) (nextSeq + 1) := by
  have hne : ∀ e ∈ l, e.taskId ≠ d.taskId := fun e he h => hnew (h ▸ mem_taskIds_of_mem he)
  have hold : Numbered mem' l nextSeq := hn.congr fun e he => by rw [hmem _ (hne e he)]
  refine ⟨?_, ?_⟩
  · rw [List.pairwise_append]
    refine ⟨hold.growing, List.pairwise_singleton _ _, ?_⟩
    intro a ha b hb
    rw [List.mem_singleton.1 hb, hitem]
    exact hold.below a ha
  · intro e he
    rcases List.mem_append.1 he with he | he
    · exact lt_trans (hold.below e he) (Nat.lt_succ_self _)
    · rw [List.mem_singleton.1 he, hitem]
      exact Nat.lt_succ_self _

/-- A priority changed both in the item and in the description. -/
theorem Mirrored.reprioritize (hm : Mirrored estimateCost mem l) (id : TaskId) (priority : Int64)
    (hmem : ∀ x, x ≠ id → mem' x = mem x)
    (hitem : mem' id = { mem id with basePriority := priority }) :
    Mirrored estimateCost mem' (reprioritize id priority l) := by
  refine ⟨by rw [taskIds_reprioritize]; exact hm.nodup, ?_⟩
  intro e he
  obtain ⟨d, hd, rfl⟩ := mem_reprioritize.1 he
  have hold := hm.mirrors d hd
  split
  · next hid =>
    rw [withPriority_taskId, hid, hitem]
    rw [hid] at hold
    exact ⟨hold.taskId, hold.deadlineNs, hold.estimatedRuntimeNs, rfl, hold.estimatedCost⟩
  · next hid =>
    rw [hmem _ hid]
    exact hold

instance onMemory_transCmp (cmp : ReadyCompare) [TransCmp cmp] (mem : Memory) :
    TransCmp (onMemory cmp mem) := transCmp_comap cmp mem

/-- Off a changed item the comparison stays. -/
theorem onMemory_of_ne {cmp : ReadyCompare} {a b : TaskId} (hmem : ∀ x, x ≠ id → mem' x = mem x)
    (ha : a ≠ id) (hb : b ≠ id) : onMemory cmp mem a b = onMemory cmp mem' a b := by
  rw [onMemory, onMemory, hmem a ha, hmem b hb]

end Items

/-! ## What a heap queue holds -/

/-- A heap queue over exactly these tasks, in order. -/
structure ReadyQueue.HeapOk (cmp : ReadyCompare) (mem : Memory) (queue : ReadyQueue)
    (S : Set TaskId) : Prop where
  kind : queue.kind = .heap
  byId : ∀ id, id ∈ queue.byId ↔ id ∈ S
  holds : queue.heap.Holds (onMemory cmp mem) S

namespace ReadyQueue

section HeapOk

variable {H : HeapOps} {E : Env} {cmp : ReadyCompare} {mem mem' : Memory} {queue : ReadyQueue}
  {S : Set TaskId} {task : TaskDesc} {id : TaskId} {c : Cursor}

theorem HeapOk.congr (hq : HeapOk cmp mem queue S)
    (hmem : ∀ x ∈ S, ∀ y ∈ S, onMemory cmp mem x y = onMemory cmp mem' x y) :
    HeapOk cmp mem' queue S := ⟨hq.kind, hq.byId, hq.holds.congr hmem⟩

theorem HeapOk.peek_eq (hq : HeapOk cmp mem queue S) :
    readyQueuePeek queue = queue.heap.items.head? := by rw [readyQueuePeek, hq.kind]

theorem HeapOk.peek_mem (hq : HeapOk cmp mem queue S) (hp : readyQueuePeek queue = some id) :
    id ∈ S := hq.holds.root_mem (hq.peek_eq ▸ hp)

theorem HeapOk.peek_none_iff (hq : HeapOk cmp mem queue S) : readyQueuePeek queue = none ↔ S = ∅ := by
  rw [hq.peek_eq]
  exact hq.holds.empty_iff

theorem HeapOk.find_iff (hq : HeapOk cmp mem queue S) : readyQueueFind queue id = true ↔ id ∈ S := by
  rw [readyQueueFind, decide_eq_true_iff, hq.byId]

theorem HeapOk.peek_le [TransCmp (onMemory cmp mem)] (hq : HeapOk cmp mem queue S)
    (hp : readyQueuePeek queue = some id) : ∀ y ∈ S, (cmp (mem id) (mem y)).isLE :=
  hq.holds.root_le (hq.peek_eq ▸ hp)

variable (hH : H.Lawful)

include hH

/-- An insertion adds the task with its item, or changes nothing but counters
and an item nobody uses. -/
theorem HeapOk.insert (task : TaskDesc) [hcmp : TransCmp (onMemory cmp (Function.update mem
      task.taskId (newReadyTask queue.estimateCost queue.nextSeq task)))]
    (hq : HeapOk cmp mem queue S) (E : Env) (c : Cursor) :
    let r := readyQueueInsert H E cmp mem queue task c
    r.queue.estimateCost = queue.estimateCost ∧ queue.nextSeq ≤ r.queue.nextSeq ∧
    (∀ x, x ≠ task.taskId → r.mem x = mem x) ∧
    ((r.rc = .ok ∧ task.taskId ∉ S ∧
        r.mem task.taskId = newReadyTask queue.estimateCost queue.nextSeq task ∧
        r.queue.nextSeq = queue.nextSeq + 1 ∧ HeapOk cmp r.mem r.queue (insert task.taskId S)) ∨
      (r.rc ≠ .ok ∧ (∀ x ∈ S, r.mem x = mem x) ∧ HeapOk cmp r.mem r.queue S ∧
        readyQueuePeek r.queue = readyQueuePeek queue)) := by
  dsimp only
  unfold readyQueueInsert
  split
  · exact ⟨rfl, le_rfl, fun _ _ => rfl, Or.inr ⟨by simp, fun _ _ => rfl, hq, rfl⟩⟩
  · next hdup =>
    have hnot : task.taskId ∉ S := fun h => hdup ((hq.byId _).2 h)
    have hne : ∀ x ∈ S, x ≠ task.taskId := fun x hx h => hnot (h ▸ hx)
    split
    · exact ⟨rfl, le_rfl, fun _ _ => rfl, Or.inr ⟨by simp, fun _ _ => rfl, hq, rfl⟩⟩
    · dsimp only
      generalize hmem' : Function.update mem task.taskId
        (newReadyTask queue.estimateCost queue.nextSeq task) = mem' at hcmp ⊢
      have hoff : ∀ x, x ≠ task.taskId → mem' x = mem x := by
        intro x hx
        rw [← hmem', Function.update_of_ne hx]
      have hitem : mem' task.taskId = newReadyTask queue.estimateCost queue.nextSeq task := by
        rw [← hmem', Function.update_self]
      have hon : ∀ x ∈ S, mem' x = mem x := fun x hx => hoff x (hne x hx)
      have hq' := hq.congr fun x hx y hy => onMemory_of_ne hoff (hne x hx) (hne y hy)
      split
      · exact ⟨rfl, Nat.le_succ _, hoff, Or.inr ⟨by simp, hon, ⟨hq.kind, hq.byId, hq'.holds⟩, rfl⟩⟩
      · rw [hq.kind]
        dsimp only
        have hset := hq'.holds.setIndex hnot (some 0)
        split
        · next hr =>
          have hr' := heapPush_failed (by simpa using hr)
          refine ⟨rfl, Nat.le_succ _, hoff, Or.inr ⟨by simp, hon, ⟨rfl, hq.byId, ?_⟩, ?_⟩⟩
          · dsimp only
            rw [hr']
            exact hset
          · simp only [readyQueuePeek, hq.kind, hr', Heap.setIndex_items]
        · next hr =>
          have hr' := heapPush_ok (by simpa using hr)
          refine ⟨rfl, Nat.le_succ _, hoff, Or.inl ⟨rfl, hnot, hitem, rfl, ⟨rfl, ?_, ?_⟩⟩⟩
          · intro x
            rw [Finset.mem_insert, Set.mem_insert_iff, hq.byId]
          · dsimp only
            rw [hr']
            exact hset.push hH hnot

omit hH in
theorem insert_alloc (ha : ∀ n, E.alloc n = true) (queue : ReadyQueue) (mem : Memory)
    (task : TaskDesc) (c : Cursor) :
    (readyQueueInsert H E cmp mem queue task c).rc =
      if task.taskId ∈ queue.byId then .errExists else .ok := by
  unfold readyQueueInsert
  split
  · rfl
  · simp only [ha, Bool.not_true, Bool.false_eq_true, if_false]
    cases queue.kind with
    | fifo => rfl
    | heap => simp [heapPush_alloc ha]

/-- The root leaves. -/
theorem HeapOk.pop [TransCmp (onMemory cmp mem)] (hq : HeapOk cmp mem queue S)
    (hid : ∀ x ∈ S, (mem x).desc.taskId = x) (hp : readyQueuePeek queue = some id) :
    ∃ q', readyQueuePop H cmp mem queue = some (id, q') ∧ HeapOk cmp mem q' (S \ {id}) ∧
      q'.estimateCost = queue.estimateCost ∧ q'.nextSeq = queue.nextSeq := by
  refine ⟨{ queue with
    byId := queue.byId.erase id, heap := queue.heap.pop H (onMemory cmp mem) }, ?_, ?_, rfl, rfl⟩
  · simp only [readyQueuePop, hp, hq.kind, hid id (hq.peek_mem hp)]
  · refine ⟨hq.kind, ?_, hq.holds.pop hH (hq.peek_eq ▸ hp)⟩
    intro x
    rw [Finset.mem_erase, hq.byId, Set.mem_sdiff, Set.mem_singleton_iff, and_comm]

omit hH in
theorem HeapOk.pop_none (hq : HeapOk cmp mem queue S) (hS : S = ∅) :
    readyQueuePop H cmp mem queue = none := by
  rw [readyQueuePop, hq.peek_none_iff.2 hS]

/-- A task is removed wherever it stands, also when its own item has changed. -/
theorem HeapOk.remove_loose [TransCmp (onMemory cmp mem)] (hk : queue.kind = .heap)
    (hb : ∀ id, id ∈ queue.byId ↔ id ∈ S)
    (hl : queue.heap.Loose (onMemory cmp mem) id S) (hid : id ∈ S) :
    ∃ q', readyQueueRemove H cmp mem queue id = (.ok, q') ∧ HeapOk cmp mem q' (S \ {id}) ∧
      q'.estimateCost = queue.estimateCost ∧ q'.nextSeq = queue.nextSeq := by
  obtain ⟨hfound, hholds, -⟩ := hl.remove hH hid
  refine ⟨{ queue with
    heap := (queue.heap.remove H (onMemory cmp mem) id).2, byId := queue.byId.erase id },
    ?_, ⟨hk, ?_, hholds⟩, rfl, rfl⟩
  · simp [readyQueueRemove, (hb id).2 hid, hk, hfound]
  · intro x
    rw [Finset.mem_erase, hb, Set.mem_sdiff, Set.mem_singleton_iff, and_comm]

theorem HeapOk.remove [TransCmp (onMemory cmp mem)] (hq : HeapOk cmp mem queue S) (hid : id ∈ S) :
    ∃ q', readyQueueRemove H cmp mem queue id = (.ok, q') ∧ HeapOk cmp mem q' (S \ {id}) ∧
      q'.estimateCost = queue.estimateCost ∧ q'.nextSeq = queue.nextSeq :=
  HeapOk.remove_loose hH hq.kind hq.byId (hq.holds.loose id) hid

omit hH in
theorem HeapOk.remove_absent (hq : HeapOk cmp mem queue S) (hid : id ∉ S) :
    readyQueueRemove H cmp mem queue id = (.errNotFound, queue) := by
  rw [readyQueueRemove, if_pos (fun h => hid ((hq.byId id).1 h))]

/-- After the item of one task changed, reordering that task restores the order. -/
theorem HeapOk.reorder [TransCmp (onMemory cmp mem')] (hq : HeapOk cmp mem queue S) (hid : id ∈ S)
    (hmem : ∀ x, x ≠ id → mem' x = mem x) :
    ∃ q', readyQueueReorder H cmp mem' queue id = (.ok, q') ∧ HeapOk cmp mem' q' S ∧
      q'.estimateCost = queue.estimateCost ∧ q'.nextSeq = queue.nextSeq := by
  have hloose : queue.heap.Loose (onMemory cmp mem') id S :=
    (hq.holds.loose id).congr fun x _ y _ hx hy => onMemory_of_ne hmem hx hy
  obtain ⟨hfound, hholds⟩ := hloose.reheapify hH hid
  refine ⟨{ queue with heap := (queue.heap.reheapify H (onMemory cmp mem') id).2 },
    ?_, ⟨hq.kind, hq.byId, hholds⟩, rfl, rfl⟩
  simp [readyQueueReorder, hq.kind, hfound]

end HeapOk

theorem init_heap {E : Env} {estimateCost : Bool} {c c' : Cursor} {queue : ReadyQueue}
    (h : readyQueueInit E .heap estimateCost c = (some queue, c')) (cmp : ReadyCompare)
    (mem : Memory) :
    HeapOk cmp mem queue ∅ ∧ queue.estimateCost = estimateCost ∧ queue.nextSeq = 1 := by
  unfold readyQueueInit at h
  dsimp only at h
  split at h
  · simp at h
  · split at h
    · simp at h
    · simp only [Prod.mk.injEq, Option.some.injEq] at h
      rw [← h.1]
      exact ⟨⟨rfl, by simp, Heap.holds_empty _⟩, rfl, rfl⟩

theorem init_alloc {E : Env} (ha : ∀ n, E.alloc n = true) (kind : ReadyQueueKind)
    (estimateCost : Bool) (c : Cursor) :
    (readyQueueInit E kind estimateCost c).1 =
      some ⟨kind, estimateCost, [], Heap.empty, ∅, 1⟩ := by
  cases kind <;> simp [readyQueueInit, ha]

end ReadyQueue

/-! ## What a list queue holds -/

/-- A list queue over exactly these tasks, in this order. -/
structure ReadyQueue.FifoOk (queue : ReadyQueue) (ids : List TaskId) : Prop where
  kind : queue.kind = .fifo
  byId : ∀ id, id ∈ queue.byId ↔ id ∈ ids
  fifo : queue.fifo = ids

namespace ReadyQueue

section FifoOk

variable {H : HeapOps} {E : Env} {cmp : ReadyCompare} {mem : Memory} {queue : ReadyQueue}
  {ids : List TaskId} {task : TaskDesc} {id : TaskId} {c : Cursor}

theorem FifoOk.insert (hq : FifoOk queue ids) (H : HeapOps) (E : Env) (cmp : ReadyCompare)
    (mem : Memory) (task : TaskDesc) (c : Cursor) :
    let r := readyQueueInsert H E cmp mem queue task c
    (∀ x, x ≠ task.taskId → r.mem x = mem x) ∧
    ((r.rc = .ok ∧ task.taskId ∉ ids ∧ (r.mem task.taskId).desc.taskId = task.taskId ∧
        FifoOk r.queue (ids ++ [task.taskId])) ∨
      (r.rc ≠ .ok ∧ (∀ x ∈ ids, r.mem x = mem x) ∧ FifoOk r.queue ids)) := by
  dsimp only
  unfold readyQueueInsert
  split
  · exact ⟨fun _ _ => rfl, Or.inr ⟨by simp, fun _ _ => rfl, hq⟩⟩
  · next hdup =>
    have hnot : task.taskId ∉ ids := fun h => hdup ((hq.byId _).2 h)
    have hoff : ∀ x, x ≠ task.taskId → Function.update mem task.taskId
        (newReadyTask queue.estimateCost queue.nextSeq task) x = mem x :=
      fun x hx => Function.update_of_ne hx _ _
    have hon : ∀ x ∈ ids, Function.update mem task.taskId
        (newReadyTask queue.estimateCost queue.nextSeq task) x = mem x :=
      fun x hx => hoff x fun h => hnot (h ▸ hx)
    split
    · exact ⟨fun _ _ => rfl, Or.inr ⟨by simp, fun _ _ => rfl, hq⟩⟩
    · dsimp only
      split
      · exact ⟨hoff, Or.inr ⟨by simp, hon, ⟨hq.kind, hq.byId, hq.fifo⟩⟩⟩
      · rw [hq.kind]
        refine ⟨hoff, Or.inl ⟨rfl, hnot, by simp [newReadyTask], ⟨rfl, ?_, ?_⟩⟩⟩
        · intro x
          simp [hq.byId, or_comm]
        · simp [hq.fifo]

theorem FifoOk.peek (hq : FifoOk queue ids) : readyQueuePeek queue = ids.head? := by
  rw [readyQueuePeek, hq.kind, ← hq.fifo]

theorem FifoOk.pop (H : HeapOps) (cmp : ReadyCompare) {rest : List TaskId}
    (hq : FifoOk queue (id :: rest)) (hnd : (id :: rest).Nodup)
    (hid : (mem id).desc.taskId = id) :
    ∃ q', readyQueuePop H cmp mem queue = some (id, q') ∧ FifoOk q' rest ∧
      q'.estimateCost = queue.estimateCost ∧ q'.nextSeq = queue.nextSeq := by
  have hnot := (List.nodup_cons.1 hnd).1
  refine ⟨{ queue with byId := queue.byId.erase id, fifo := queue.fifo.tail }, ?_,
    ⟨hq.kind, ?_, ?_⟩, rfl, rfl⟩
  · simp only [readyQueuePop, hq.peek, List.head?_cons, hq.kind, hid]
  · intro x
    rw [Finset.mem_erase, hq.byId, List.mem_cons]
    constructor
    · rintro ⟨hne, hx⟩
      exact hx.resolve_left hne
    · intro hx
      exact ⟨fun h => hnot (h ▸ hx), Or.inr hx⟩
  · simp [hq.fifo]

theorem FifoOk.remove (H : HeapOps) (cmp : ReadyCompare) (mem : Memory) (hq : FifoOk queue ids)
    (hnd : ids.Nodup) (hid : id ∈ ids) :
    ∃ q', readyQueueRemove H cmp mem queue id = (.ok, q') ∧ FifoOk q' (ids.filter (· ≠ id)) ∧
      q'.estimateCost = queue.estimateCost ∧ q'.nextSeq = queue.nextSeq := by
  refine ⟨{ queue with fifo := queue.fifo.erase id, byId := queue.byId.erase id },
    ?_, ⟨hq.kind, ?_, ?_⟩, rfl, rfl⟩
  · simp [readyQueueRemove, (hq.byId id).2 hid, hq.kind]
  · intro x
    simp [hq.byId, and_comm]
  · show queue.fifo.erase id = _
    rw [hq.fifo, hnd.erase_eq_filter]
    exact List.filter_congr fun x _ => by by_cases hx : x = id <;> simp [hx]

theorem FifoOk.remove_absent (hq : FifoOk queue ids) (hid : id ∉ ids) :
    readyQueueRemove H cmp mem queue id = (.errNotFound, queue) := by
  rw [readyQueueRemove, if_pos (fun h => hid ((hq.byId id).1 h))]

theorem init_fifo {E : Env} {estimateCost : Bool} {c c' : Cursor}
    (h : readyQueueInit E .fifo estimateCost c = (some queue, c')) : FifoOk queue [] := by
  unfold readyQueueInit at h
  dsimp only at h
  split at h
  · simp at h
  · simp only [Prod.mk.injEq, Option.some.injEq] at h
    rw [← h.1]
    exact ⟨rfl, by simp, rfl⟩

end FifoOk

end ReadyQueue

end QhwScheduler
