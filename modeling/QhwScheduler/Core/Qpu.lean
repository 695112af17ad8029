import QhwScheduler.Types

/-!
# The QPU handle

`qhw_qpu.c` and the runtime helpers of `qhw_scheduler.c`: what the schedulers
bound to one device share.

* `qpuRuntimeTaskQueued`, `qpuRuntimeTaskUnqueued` — the number of queued tasks.
* `qpuRuntimeTaskStarted`, `qpuRuntimeTaskUnstarted`, `qpuRuntimeTaskFinished` —
  the single execution slot and the counters of finished tasks.
* `qpu_unqueued_queued`, `qpu_unstarted_started` — the roll-backs undo what they
  roll back.
-/

namespace QhwScheduler

/-- `qhw_sched_qpu_runtime_t`. -/
structure QpuRuntime where
  runningTaskId : TaskId := 0
  queuedCount : ℕ := 0
  completedCount : ℕ := 0
  failedCount : ℕ := 0
  cancelledCount : ℕ := 0
  deriving DecidableEq, Inhabited

/-- `struct qhw_sched_qpu`, with the part of the profile that is read. -/
structure Qpu where
  metadata : KvArray
  runtime : QpuRuntime
  refcount : ℕ
  deriving DecidableEq, Inhabited

/-- `qhw_sched_qpu_create`, when it succeeds. -/
def qpuCreate (metadata : KvArray) : Qpu := ⟨metadata, {}, 1⟩

/-- `qhw_qpu_retain`. -/
def qpuRetain (qpu : Qpu) : Qpu := { qpu with refcount := qpu.refcount + 1 }

/-- `qhw_qpu_release`, as long as a reference is left. -/
def qpuRelease (qpu : Qpu) : Qpu := { qpu with refcount := qpu.refcount - 1 }

/-- `qpu_runtime_task_queued`. -/
def qpuRuntimeTaskQueued (qpu : Qpu) : Qpu :=
  { qpu with runtime := { qpu.runtime with queuedCount := qpu.runtime.queuedCount + 1 } }

/-- `qpu_runtime_task_unqueued`. -/
def qpuRuntimeTaskUnqueued (qpu : Qpu) : Qpu :=
  if qpu.runtime.queuedCount > 0 then
    { qpu with runtime := { qpu.runtime with queuedCount := qpu.runtime.queuedCount - 1 } }
  else qpu

/-- `qpu_runtime_task_started`. -/
def qpuRuntimeTaskStarted (qpu : Qpu) (id : TaskId) : Rc × Qpu :=
  if qpu.runtime.runningTaskId ≠ invalidTaskId then (.errState, qpu)
  else (.ok, { qpu with runtime := { qpu.runtime with runningTaskId := id } })

/-- `qpu_runtime_task_unstarted`. -/
def qpuRuntimeTaskUnstarted (qpu : Qpu) (id : TaskId) : Qpu :=
  if qpu.runtime.runningTaskId = id then
    { qpu with runtime := { qpu.runtime with runningTaskId := invalidTaskId } }
  else qpu

/-- `qpu_runtime_task_finished`. -/
def qpuRuntimeTaskFinished (qpu : Qpu) (id : TaskId) (state : TaskState) : Qpu :=
  let runtime := (qpuRuntimeTaskUnstarted qpu id).runtime
  match state with
  | .completed => { qpu with runtime := { runtime with completedCount := runtime.completedCount + 1 } }
  | .failed => { qpu with runtime := { runtime with failedCount := runtime.failedCount + 1 } }
  | .cancelled => { qpu with runtime := { runtime with cancelledCount := runtime.cancelledCount + 1 } }
  | _ => { qpu with runtime := runtime }

/-! ## What the helpers change -/

section

variable (qpu : Qpu) (id : TaskId) (state : TaskState)

theorem qpu_unqueued_queued : qpuRuntimeTaskUnqueued (qpuRuntimeTaskQueued qpu) = qpu := by
  simp [qpuRuntimeTaskUnqueued, qpuRuntimeTaskQueued]

/-- Giving the slot back right after taking it. -/
theorem qpu_unstarted_started (h : (qpuRuntimeTaskStarted qpu id).1 = .ok) :
    qpuRuntimeTaskUnstarted (qpuRuntimeTaskStarted qpu id).2 id = qpu := by
  unfold qpuRuntimeTaskStarted at h ⊢
  split
  · next hne => simp [hne] at h
  · next heq =>
    simp only [not_not] at heq
    simp [qpuRuntimeTaskUnstarted, ← heq]

@[simp] theorem qpuQueued_queuedCount :
    (qpuRuntimeTaskQueued qpu).runtime.queuedCount = qpu.runtime.queuedCount + 1 := rfl

@[simp] theorem qpuQueued_runningTaskId :
    (qpuRuntimeTaskQueued qpu).runtime.runningTaskId = qpu.runtime.runningTaskId := rfl

@[simp] theorem qpuUnqueued_queuedCount :
    (qpuRuntimeTaskUnqueued qpu).runtime.queuedCount = qpu.runtime.queuedCount - 1 := by
  unfold qpuRuntimeTaskUnqueued
  split
  · rfl
  · omega

@[simp] theorem qpuUnqueued_runningTaskId :
    (qpuRuntimeTaskUnqueued qpu).runtime.runningTaskId = qpu.runtime.runningTaskId := by
  unfold qpuRuntimeTaskUnqueued
  split <;> rfl

@[simp] theorem qpuUnqueued_completedCount :
    (qpuRuntimeTaskUnqueued qpu).runtime.completedCount = qpu.runtime.completedCount := by
  unfold qpuRuntimeTaskUnqueued
  split <;> rfl

@[simp] theorem qpuUnqueued_failedCount :
    (qpuRuntimeTaskUnqueued qpu).runtime.failedCount = qpu.runtime.failedCount := by
  unfold qpuRuntimeTaskUnqueued
  split <;> rfl

@[simp] theorem qpuUnqueued_cancelledCount :
    (qpuRuntimeTaskUnqueued qpu).runtime.cancelledCount = qpu.runtime.cancelledCount := by
  unfold qpuRuntimeTaskUnqueued
  split <;> rfl

theorem qpuFinished_queuedCount :
    (qpuRuntimeTaskFinished qpu id state).runtime.queuedCount = qpu.runtime.queuedCount := by
  unfold qpuRuntimeTaskFinished qpuRuntimeTaskUnstarted
  cases state <;> dsimp only <;> split <;> rfl

theorem qpuFinished_runningTaskId :
    (qpuRuntimeTaskFinished qpu id state).runtime.runningTaskId =
      if qpu.runtime.runningTaskId = id then invalidTaskId else qpu.runtime.runningTaskId := by
  unfold qpuRuntimeTaskFinished qpuRuntimeTaskUnstarted
  cases state <;> dsimp only <;> split <;> rfl

theorem qpuFinished_completedCount :
    (qpuRuntimeTaskFinished qpu id state).runtime.completedCount =
      qpu.runtime.completedCount + if state = .completed then 1 else 0 := by
  unfold qpuRuntimeTaskFinished qpuRuntimeTaskUnstarted
  cases state <;> dsimp only <;> split <;> simp

theorem qpuFinished_failedCount :
    (qpuRuntimeTaskFinished qpu id state).runtime.failedCount =
      qpu.runtime.failedCount + if state = .failed then 1 else 0 := by
  unfold qpuRuntimeTaskFinished qpuRuntimeTaskUnstarted
  cases state <;> dsimp only <;> split <;> simp

theorem qpuFinished_cancelledCount :
    (qpuRuntimeTaskFinished qpu id state).runtime.cancelledCount =
      qpu.runtime.cancelledCount + if state = .cancelled then 1 else 0 := by
  unfold qpuRuntimeTaskFinished qpuRuntimeTaskUnstarted
  cases state <;> dsimp only <;> split <;> simp

end

end QhwScheduler
