import QhwScheduler.Core.Split
import QhwScheduler.Policy.Contract
import QhwScheduler.Policy.ReadyQueue

/-!
# The fifo plugin

`fifo.c`: one ready queue of the list kind.

* `fifoPlugin` — the hooks.
* `fifo_policyInv` — the queue holds exactly the waiting tasks, in the order of
  insertion.
-/

namespace QhwScheduler

open Foundations

/-- `struct fifo_state`, with the items of its queue. -/
structure FifoState where
  mem : Memory
  ready : ReadyQueue
  splitConfig : SplitConfig

/-- The queue of the list kind has no comparison. -/
def noCompare : ReadyCompare := fun _ _ => .eq

section

variable (H : HeapOps) (E : Env)

/-- `fifo_init`. -/
def fifoInit (options : KvArray) (c : Cursor) : InitResult FifoState :=
  if !E.alloc c.allocs then ⟨.error .errNoMemory, c.alloc⟩
  else
    match readyQueueInit E .fifo false c.alloc with
    | (none, c) => ⟨.error .errNoMemory, c⟩
    | (some ready, c) =>
      match splitConfigParseOptions splitConfigInit options with
      | none => ⟨.error .errInvalidArg, c⟩
      | some splitConfig => ⟨.ok ⟨emptyMemory, ready, splitConfig⟩, c⟩

/-- `fifo_on_task_submit`. -/
def fifoOnTaskSubmit (s : FifoState) (task : TaskDesc) (c : Cursor) : HookResult FifoState :=
  let r := readyQueueInsert H E noCompare s.mem s.ready task c
  ⟨r.rc, { s with mem := r.mem, ready := r.queue }, r.cursor⟩

/-- `fifo_select_next`. -/
def fifoSelectNext (s : FifoState) (c : Cursor) : SelectResult FifoState :=
  match readyQueuePop H noCompare s.mem s.ready with
  | none => ⟨.errNotFound, invalidTaskId, s, c⟩
  | some (id, ready) => ⟨.ok, id, { s with ready := ready }, c⟩

/-- `fifo_on_task_finished`. -/
def fifoOnTaskFinished (s : FifoState) (id : TaskId) (c : Cursor) : HookResult FifoState :=
  let (rc, ready) := readyQueueRemove H noCompare s.mem s.ready id
  ⟨if rc = .errNotFound then .ok else rc, { s with ready := ready }, c⟩

end

/-- `fifo_desc`. -/
def fifoPlugin (H : HeapOps) : PluginDesc FifoState where
  init := fun E options c => fifoInit E options c
  onTaskSubmit := fun E s task c => fifoOnTaskSubmit H E s task c
  selectNext := fun _ s c => fifoSelectNext H s c
  getSplitConfig := fun _ s => ⟨.ok, s.splitConfig, s⟩
  onTaskPriorityChanged := fun _ s _ _ c => ⟨.ok, s, c⟩
  onTaskStarted := fun _ s _ c => ⟨.ok, s, c⟩
  onTaskFinished := fun _ s id _ c => fifoOnTaskFinished H s id c

/-- The queue holds exactly the waiting tasks, in the order of insertion. -/
structure FifoInv (s : FifoState) (l : List TaskDesc) : Prop where
  nodup : (taskIds l).Nodup
  ready : s.ready.FifoOk (taskIds l)
  named : ∀ x ∈ taskIds l, (s.mem x).desc.taskId = x

section

variable {H : HeapOps} {E : Env} {s : FifoState} {l : List TaskDesc}

theorem taskIds_withoutTask (id : TaskId) (l : List TaskDesc) :
    taskIds (withoutTask id l) = (taskIds l).filter (· ≠ id) := by
  simp only [taskIds, withoutTask, List.filter_map, Function.comp_def]

theorem FifoInv.submit (hs : FifoInv s l) (task : TaskDesc) (c : Cursor) :
    Submits FifoInv l task (fifoOnTaskSubmit H E s task c) := by
  obtain ⟨hoff, hins⟩ := hs.ready.insert H E noCompare s.mem task c
  unfold fifoOnTaskSubmit
  generalize readyQueueInsert H E noCompare s.mem s.ready task c = r at hoff hins ⊢
  rcases hins with ⟨hrc, hnot, hnamed, hq⟩ | ⟨hrc, hon, hq⟩
  · refine Or.inl ⟨hrc, hnot, ?_, ?_, ?_⟩
    · rw [taskIds_append, List.nodup_append]
      refine ⟨hs.nodup, by simp, ?_⟩
      intro a ha b hb hab
      rw [List.mem_singleton.1 hb] at hab
      exact hnot (hab ▸ ha)
    · simpa using hq
    · intro x hx
      rw [taskIds_append, List.mem_append] at hx
      rcases hx with hx | hx
      · show (r.mem x).desc.taskId = x
        rw [hoff x fun h => hnot (h ▸ hx)]
        exact hs.named x hx
      · rw [List.mem_singleton.1 hx]
        exact hnamed
  · refine Or.inr ⟨hrc, hs.nodup, hq, fun x hx => ?_⟩
    show (r.mem x).desc.taskId = x
    rw [hon x hx]
    exact hs.named x hx

theorem FifoInv.without (hs : FifoInv s l) {ready : ReadyQueue} {id : TaskId}
    (hq : ready.FifoOk (taskIds (withoutTask id l))) :
    FifoInv { s with ready := ready } (withoutTask id l) :=
  ⟨hs.nodup.sublist taskIds_withoutTask_sublist, hq,
    fun x hx => hs.named x (mem_taskIds_withoutTask.1 hx).1⟩

theorem FifoInv.select_nil (hs : FifoInv s []) (c : Cursor) :
    fifoSelectNext H s c = ⟨.errNotFound, invalidTaskId, s, c⟩ := by
  have hpop : readyQueuePop H noCompare s.mem s.ready = none := by
    rw [readyQueuePop, hs.ready.peek]
    rfl
  rw [fifoSelectNext, hpop]

/-- The task that waits longest is taken. -/
theorem FifoInv.select_cons {d : TaskDesc} {rest : List TaskDesc} (hs : FifoInv s (d :: rest))
    (c : Cursor) : ∃ s', fifoSelectNext H s c = ⟨.ok, d.taskId, s', c⟩ ∧ FifoInv s' rest := by
  obtain ⟨ready, hpop, hq, -⟩ := hs.ready.pop H noCompare hs.nodup (hs.named d.taskId (by simp))
  refine ⟨{ s with ready := ready }, by rw [fifoSelectNext, hpop], ?_⟩
  rw [← withoutTask_cons_self hs.nodup] at hq
  rw [← withoutTask_cons_self hs.nodup]
  exact hs.without hq

theorem FifoInv.select (hs : FifoInv s l) (c : Cursor) :
    Selects FifoInv l (fifoSelectNext H s c) := by
  cases l with
  | nil =>
    rw [hs.select_nil]
    exact Or.inl ⟨rfl, rfl, hs⟩
  | cons d rest =>
    obtain ⟨s', hselect, hs'⟩ := hs.select_cons (H := H) c
    rw [hselect]
    refine Or.inr ⟨d, List.mem_cons_self .., rfl, rfl, ?_⟩
    rw [withoutTask_cons_self hs.nodup]
    exact hs'

theorem FifoInv.finished (hs : FifoInv s l) (id : TaskId) (c : Cursor) :
    Finishes FifoInv l id (fifoOnTaskFinished H s id c) := by
  unfold fifoOnTaskFinished
  by_cases hid : id ∈ taskIds l
  · obtain ⟨ready, hrem, hq, -⟩ := hs.ready.remove H noCompare s.mem hs.nodup hid
    rw [← taskIds_withoutTask] at hq
    rw [hrem]
    exact ⟨by simp, hs.without hq⟩
  · rw [hs.ready.remove_absent hid]
    refine ⟨by simp, ?_⟩
    rw [withoutTask_of_not_mem hid]
    exact hs

theorem fifoInit_inv {options : KvArray} {c : Cursor} (h : (fifoInit E options c).outcome = .ok s) :
    FifoInv s [] := by
  unfold fifoInit at h
  split at h
  · simp at h
  · split at h
    · simp at h
    · next hinit =>
      split at h
      · simp at h
      · simp only [Except.ok.injEq] at h
        rw [← h]
        exact ⟨List.nodup_nil, ReadyQueue.init_fifo hinit, by simp⟩

end

/-- The fifo plugin keeps its queue, whatever the allocator and the clock do. -/
theorem fifo_policyInv (H : HeapOps) (Good : UInt64 → Env → UInt64 → Prop) :
    PolicyInv (fifoPlugin H) Good fun _ => FifoInv where
  mono _ h := h
  nodup h := h.nodup
  init _ h := fifoInit_inv h
  submit _ h := h.submit _ _
  select _ h := h.select _
  config h := ⟨rfl, h⟩
  priorityChanged _ h :=
    Or.inl ⟨rfl, ⟨by rw [taskIds_reprioritize]; exact h.nodup,
      by rw [taskIds_reprioritize]; exact h.ready, by rw [taskIds_reprioritize]; exact h.named⟩⟩
  started _ h := ⟨rfl, h⟩
  finished _ h := h.finished _ _

end QhwScheduler
