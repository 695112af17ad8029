import QhwScheduler.Core.Plugin
import QhwScheduler.Core.Qpu
import QhwScheduler.Core.Split
import QhwScheduler.Policy.Metadata

/-!
# The scheduler

`qhw_scheduler.c` and `qhw_sched_set_policy`: the operations of the public
interface on one scheduler, over any family of plugins.

* `Sched` — the scheduler with the QPU it is bound to.
* `submitPrepare`, `submitFinish` — the two critical sections of
  `qhw_sched_submit_task`; the lock is not held while a callback runs.
* `schedSelectNext`, `taskUpdatePriority`, `taskStarted`, `finishTask`,
  `setPolicy` — the other operations.
* `Op`, `step` — all of them as one transition function.
-/

namespace QhwScheduler

variable {ν : Type} {σ : ν → Type}

/-- Which callbacks of `qhw_sched_callbacks_t` are set. -/
structure Callbacks where
  estimateCost : Bool := false
  splitTask : Bool := false
  deriving DecidableEq, Inhabited

/-- `struct qhw_sched`.  A plugin is known by its name `n`, its policy state has
type `σ n`; `policy` is `none` before the first `set_policy`. -/
structure Sched (σ : ν → Type) where
  tasks : TaskTable
  qpu : Qpu
  plugins : PluginRegistry ν
  policy : Option (Sigma σ)
  callbacks : Callbacks
  enqueueSeqNext : ℕ

/-- `qhw_sched_create`, when memory is there. -/
def schedCreate (qpu : Qpu) : Sched σ where
  tasks := TaskTable.empty
  qpu := qpuRetain qpu
  plugins := ⟨[], 0⟩
  policy := none
  callbacks := {}
  enqueueSeqNext := 1

/-- Result code, scheduler and cursor after a part of an operation. -/
structure StepResult (σ : ν → Type) where
  rc : Rc
  sched : Sched σ
  cursor : Cursor

/-- What the callbacks answer during one submission: the code of the split
callback and what it makes of each slice, the code and the cost of each call of
the cost callback. -/
structure CallbackAnswers where
  splitRc : Rc := .ok
  slice : ℕ → TaskDesc → TaskDesc := fun _ d => d
  estimateRc : ℕ → Rc := fun _ => .ok
  cost : ℕ → UInt64 := fun _ => 1

section Operations

variable (P : ∀ n, PluginDesc (σ n)) (E : Env)

/-! ## Slicing -/

/-- `get_policy_split_config`. -/
def getPolicySplitConfig (s : Sched σ) : Rc × SplitConfig × Sched σ :=
  match s.policy with
  | none => (.ok, splitConfigInit, s)
  | some ⟨n, state⟩ =>
    let r := (P n).getSplitConfig splitConfigInit state
    (r.rc, r.config, { s with policy := some ⟨n, r.state⟩ })

/-- `compute_split_config`. -/
def computeSplitConfig (s : Sched σ) (task : TaskDesc) : SplitDecision × Sched σ :=
  match getPolicySplitConfig P s with
  | (.ok, config, s) => (splitDecision config s.qpu.metadata s.callbacks.splitTask task, s)
  | (rc, config, s) => (⟨rc, config, false⟩, s)

/-! ## Costs -/

/-- `estimate_task_cost`, the `k`-th call of the cost callback in a submission. -/
def estimateTaskCost (hasEstimateCost : Bool) (answers : CallbackAnswers) (k : ℕ)
    (task : TaskDesc) : Except Rc TaskDesc :=
  if hasEstimateCost then
    if answers.estimateRc k ≠ .ok then .error (answers.estimateRc k)
    else if answers.cost k = 0 then .error .errInvalidArg
    else .ok { task with estimatedCost := answers.cost k }
  else .ok { task with estimatedCost := policyTaskEstimatedCost task }

/-- `estimate_child_costs`, from the `k`-th slice on. -/
def estimateChildCosts (hasEstimateCost : Bool) (answers : CallbackAnswers) :
    ℕ → List TaskDesc → Except Rc (List TaskDesc)
  | _, [] => .ok []
  | k, child :: rest =>
    match estimateTaskCost hasEstimateCost answers k child with
    | .error rc => .error rc
    | .ok estimated =>
      match estimateChildCosts hasEstimateCost answers (k + 1) rest with
      | .error rc => .error rc
      | .ok rest => .ok (estimated :: rest)

/-! ## Entering tasks -/

/-- `enqueue_task_locked`. -/
def enqueueTaskLocked (s : Sched σ) (task : TaskDesc) (c : Cursor) : StepResult σ :=
  let r := taskTableInsert E s.tasks task s.enqueueSeqNext c
  let s := { s with tasks := r.table, enqueueSeqNext := s.enqueueSeqNext + 1 }
  if r.rc ≠ .ok then ⟨r.rc, s, r.cursor⟩
  else
    let s := { s with qpu := qpuRuntimeTaskQueued s.qpu }
    match s.policy with
    | none => ⟨.ok, s, r.cursor⟩
    | some ⟨n, state⟩ =>
      let h := (P n).onTaskSubmit E state task r.cursor
      let s := { s with policy := some ⟨n, h.state⟩ }
      if h.rc ≠ .ok then
        ⟨h.rc,
          { s with
            qpu := qpuRuntimeTaskUnqueued s.qpu
            tasks := taskTableRemove s.tasks task.taskId },
          h.cursor⟩
      else ⟨.ok, s, h.cursor⟩

/-- `remove_queued_task_locked`. -/
def removeQueuedTaskLocked (s : Sched σ) (id : TaskId) (c : Cursor) : Sched σ × Cursor :=
  let taken := fun s : Sched σ =>
    { s with qpu := qpuRuntimeTaskUnqueued s.qpu, tasks := taskTableRemove s.tasks id }
  match s.policy with
  | none => (taken s, c)
  | some ⟨n, state⟩ =>
    let h := (P n).onTaskFinished E state id .cancelled c
    (taken { s with policy := some ⟨n, h.state⟩ }, h.cursor)

/-- The roll-back loop of `submit_split_task_locked`, latest slice first. -/
def removeChildren : Sched σ → List TaskDesc → Cursor → Sched σ × Cursor
  | s, [], c => (s, c)
  | s, child :: earlier, c =>
    let r := removeQueuedTaskLocked P E s child.taskId c
    removeChildren r.1 earlier r.2

/-- The loop of `submit_split_task_locked`; `done` are the slices already
entered, latest first. -/
def enqueueChildren : Sched σ → List TaskDesc → List TaskDesc → Cursor → StepResult σ
  | s, _, [], c => ⟨.ok, s, c⟩
  | s, done, child :: rest, c =>
    let r := enqueueTaskLocked P E s child c
    if r.rc ≠ .ok then
      let b := removeChildren P E r.sched done r.cursor
      ⟨r.rc, b.1, b.2⟩
    else enqueueChildren r.sched (child :: done) rest r.cursor

/-- `submit_split_task_locked`. -/
def submitSplitTaskLocked (s : Sched σ) (parent : TaskDesc) (children : List TaskDesc)
    (c : Cursor) : StepResult σ :=
  let r := taskTableInsertState E s.tasks parent s.enqueueSeqNext .waiting c
  let s := { s with tasks := r.table, enqueueSeqNext := s.enqueueSeqNext + 1 }
  if r.rc ≠ .ok then ⟨r.rc, s, r.cursor⟩
  else
    match taskTableFind s.tasks parent.taskId with
    | none => ⟨.errState, s, r.cursor⟩
    | some record =>
      let s := { s with
        tasks := s.tasks.update parent.taskId { record with childCount := children.length } }
      let e := enqueueChildren P E s [] children r.cursor
      if e.rc ≠ .ok then
        ⟨e.rc, { e.sched with tasks := taskTableRemove e.sched.tasks parent.taskId }, e.cursor⟩
      else e

/-! ## Submission -/

/-- What a submission carries from its first critical section to its second. -/
inductive SubmitPlan where
  /-- One task; its cost callback runs in between. -/
  | estimate (task : TaskDesc)
  /-- A task to be split; both callbacks may run in between. -/
  | split (task : TaskDesc) (config : SplitConfig) (children : List TaskDesc)
      (hasEstimateCost : Bool)

/-- The outcome of the first critical section: a result, or a plan and no
result yet. -/
structure PrepareResult (σ : ν → Type) where
  rc : Rc
  sched : Sched σ
  cursor : Cursor
  plan : Option SubmitPlan

/-- A result without a plan. -/
def StepResult.prepared (r : StepResult σ) : PrepareResult σ := ⟨r.rc, r.sched, r.cursor, none⟩

/-- `qhw_sched_submit_task` up to the point where the lock is dropped for the
callbacks, or to its end when none has to run. -/
def submitPrepare (s : Sched σ) (task : TaskDesc) (c : Cursor) : PrepareResult σ :=
  if (taskTableFind s.tasks task.taskId).isSome then ⟨.errExists, s, c, none⟩
  else
    let (d, s) := computeSplitConfig P s task
    if d.rc ≠ .ok then ⟨d.rc, s, c, none⟩
    else if !d.shouldSplit then
      if s.callbacks.estimateCost then ⟨.ok, s, c, some (.estimate task)⟩
      else
        match estimateTaskCost false {} 0 task with
        | .error rc => ⟨rc, s, c, none⟩
        | .ok estimated => (enqueueTaskLocked P E s estimated c).prepared
    else if d.config.sliceCount.toNat > u64Max.toNat / sizeofTaskDesc then
      ⟨.errUnsupported, s, c, none⟩
    else if !E.alloc c.allocs then ⟨.errNoMemory, s, c.alloc, none⟩
    else
      let child := { task with taskId := invalidTaskId, parentTaskId := task.taskId }
      ⟨.ok, s, c.alloc, some (.split task d.config
        (List.replicate d.config.sliceCount.toNat child) s.callbacks.estimateCost)⟩

/-- The rest of `qhw_sched_submit_task`: the callbacks, and the second critical
section. -/
def submitFinish (s : Sched σ) (plan : SubmitPlan) (answers : CallbackAnswers) (c : Cursor) :
    StepResult σ :=
  match plan with
  | .estimate task =>
    match estimateTaskCost true answers 0 task with
    | .error rc => ⟨rc, s, c⟩
    | .ok estimated =>
      if (taskTableFind s.tasks task.taskId).isSome then ⟨.errExists, s, c⟩
      else
        let (latest, s) := computeSplitConfig P s task
        if latest.rc ≠ .ok then ⟨latest.rc, s, c⟩
        else if latest.shouldSplit then ⟨.errState, s, c⟩
        else enqueueTaskLocked P E s estimated c
  | .split task config children hasEstimateCost =>
    if answers.splitRc ≠ .ok then ⟨answers.splitRc, s, c⟩
    else
      match estimateChildCosts hasEstimateCost answers 0 (children.mapIdx answers.slice) with
      | .error rc => ⟨rc, s, c⟩
      | .ok children =>
        if (taskTableFind s.tasks task.taskId).isSome then ⟨.errExists, s, c⟩
        else
          let (latest, s) := computeSplitConfig P s task
          if latest.rc ≠ .ok then ⟨latest.rc, s, c⟩
          else if !latest.shouldSplit ∨ latest.config.sliceCount ≠ config.sliceCount ∨
              latest.config.sliceShots ≠ config.sliceShots then ⟨.errState, s, c⟩
          else
            let v := validateChildTasks E s.tasks task children config c
            if v.1 ≠ .ok then ⟨v.1, s, v.2⟩
            else submitSplitTaskLocked P E s task children v.2

/-- `qhw_sched_submit_task`, with no other operation while the lock is dropped. -/
def submitTask (s : Sched σ) (task : TaskDesc) (answers : CallbackAnswers) (c : Cursor) :
    StepResult σ :=
  let p := submitPrepare P E s task c
  match p.plan with
  | none => ⟨p.rc, p.sched, p.cursor⟩
  | some plan => submitFinish P E p.sched plan answers p.cursor

/-! ## Selection and lifecycle -/

/-- `fill_assignment_from_record`. -/
def fillAssignmentFromRecord (record : TaskRecord) : Assignment where
  taskId := record.desc.taskId
  parentTaskId := record.desc.parentTaskId
  sliceIndex := (metadataGetU64 record.desc.metadata metaSliceIndex).getD 0
  sliceCount := (metadataGetU64 record.desc.metadata metaSliceCount).getD 1
  payload := record.desc.payload
  payloadSize := record.desc.payloadSize
  estimatedRuntimeNs := record.desc.estimatedRuntimeNs
  estimatedCost := record.desc.estimatedCost

/-- Result code, scheduler and assignment of an operation. -/
structure OpResult (σ : ν → Type) where
  rc : Rc
  sched : Sched σ
  assignment : Option Assignment := none

/-- `qhw_sched_select_next`. -/
def schedSelectNext (s : Sched σ) (c : Cursor) : OpResult σ :=
  match s.policy with
  | none => ⟨.errNotFound, s, none⟩
  | some ⟨n, state⟩ =>
    let h := (P n).selectNext E state c
    let s := { s with policy := some ⟨n, h.state⟩ }
    if h.rc ≠ .ok then ⟨h.rc, s, none⟩
    else
      match taskTableFind s.tasks h.taskId with
      | none => ⟨.errNotFound, s, none⟩
      | some record =>
        if record.state ≠ .queued then ⟨.errState, s, none⟩
        else
          ⟨.ok,
            { s with
              tasks := taskTableSetState s.tasks h.taskId .assigned
              qpu := qpuRuntimeTaskUnqueued s.qpu },
            some (fillAssignmentFromRecord record)⟩

/-- `qhw_sched_task_update_priority`. -/
def taskUpdatePriority (s : Sched σ) (id : TaskId) (priority : Int64) (c : Cursor) : OpResult σ :=
  match taskTableFind s.tasks id with
  | none => ⟨.errNotFound, s, none⟩
  | some record =>
    if record.state ≠ .queued then ⟨.errState, s, none⟩
    else
      let changed := { s with
        tasks := s.tasks.update id { record with desc := { record.desc with priority := priority } } }
      match s.policy with
      | none => ⟨.ok, changed, none⟩
      | some ⟨n, state⟩ =>
        let h := (P n).onTaskPriorityChanged E state id priority c
        if h.rc ≠ .ok then ⟨h.rc, { s with policy := some ⟨n, h.state⟩ }, none⟩
        else ⟨.ok, { changed with policy := some ⟨n, h.state⟩ }, none⟩

/-- `qhw_sched_task_started`. -/
def taskStarted (s : Sched σ) (id : TaskId) (c : Cursor) : OpResult σ :=
  match taskTableFind s.tasks id with
  | none => ⟨.errNotFound, s, none⟩
  | some record =>
    if record.state ≠ .assigned ∧ (record.state ≠ .queued ∨ s.policy.isSome) then
      ⟨.errState, s, none⟩
    else
      let r := qpuRuntimeTaskStarted s.qpu id
      if r.1 ≠ .ok then ⟨r.1, s, none⟩
      else
        let qpu := if record.state = .queued then qpuRuntimeTaskUnqueued r.2 else r.2
        let running := { s with tasks := taskTableSetState s.tasks id .running, qpu := qpu }
        match s.policy with
        | none => ⟨.ok, running, none⟩
        | some ⟨n, state⟩ =>
          let h := (P n).onTaskStarted E state id c
          let running := { running with policy := some ⟨n, h.state⟩ }
          if h.rc ≠ .ok then
            let qpu :=
              if record.state = .queued then qpuRuntimeTaskQueued running.qpu else running.qpu
            ⟨h.rc,
              { running with
                tasks := taskTableSetState running.tasks id record.state
                qpu := qpuRuntimeTaskUnstarted qpu id },
              none⟩
          else ⟨.ok, running, none⟩

/-- `task_state_is_terminal`. -/
def taskStateIsTerminal (state : TaskState) : Bool :=
  state = .completed || state = .failed || state = .cancelled

/-- The parent record after the counter of the child's state went up. -/
def TaskRecord.countChild (record : TaskRecord) (state : TaskState) : TaskRecord :=
  match state with
  | .completed => { record with completedChildCount := record.completedChildCount + 1 }
  | .failed => { record with failedChildCount := record.failedChildCount + 1 }
  | .cancelled => { record with cancelledChildCount := record.cancelledChildCount + 1 }
  | _ => record

/-- The state of the parent of the counted children, once all are terminal. -/
def TaskRecord.parentState (record : TaskRecord) : TaskState :=
  if record.completedChildCount + record.failedChildCount + record.cancelledChildCount <
      record.childCount then .waiting
  else if record.failedChildCount > 0 then .failed
  else if record.cancelledChildCount > 0 then .cancelled
  else .completed

/-- `update_parent_after_child_locked`. -/
def updateParentAfterChildLocked (table : TaskTable) (child : TaskRecord) (state : TaskState) :
    TaskTable :=
  if child.desc.parentTaskId = invalidTaskId then table
  else
    match taskTableFind table child.desc.parentTaskId with
    | none => table
    | some parent =>
      if parent.state ≠ .waiting then table
      else
        let parent := parent.countChild state
        table.update child.desc.parentTaskId { parent with state := parent.parentState }

/-- `finish_task`. -/
def finishTask (s : Sched σ) (id : TaskId) (state : TaskState) (c : Cursor) : OpResult σ :=
  match taskTableFind s.tasks id with
  | none => ⟨.errNotFound, s, none⟩
  | some record =>
    if taskStateIsTerminal record.state then ⟨.errState, s, none⟩
    else if record.state = .waiting then ⟨.errState, s, none⟩
    else if state = .completed ∧ record.state ≠ .running then ⟨.errState, s, none⟩
    else
      let qpu := if record.state = .queued then qpuRuntimeTaskUnqueued s.qpu else s.qpu
      let tasks := taskTableSetState s.tasks id state
      let finished := { s with
        tasks := updateParentAfterChildLocked tasks record state
        qpu := qpuRuntimeTaskFinished qpu id state }
      match s.policy with
      | none => ⟨.ok, finished, none⟩
      | some ⟨n, policyState⟩ =>
        let h := (P n).onTaskFinished E policyState id state c
        ⟨h.rc, { finished with policy := some ⟨n, h.state⟩ }, none⟩

/-! ## Policies and callbacks -/

/-- `replay_queued_task` for each record in turn. -/
def replayQueued (n : ν) : σ n → List TaskRecord → Cursor → HookResult (σ n)
  | state, [], c => ⟨.ok, state, c⟩
  | state, record :: rest, c =>
    let h := (P n).onTaskSubmit E state record.desc c
    if h.rc ≠ .ok then h else replayQueued n h.state rest h.cursor

/-- `qhw_sched_set_policy`. -/
def setPolicy [DecidableEq ν] (s : Sched σ) (name : ν) (options : KvArray) (c : Cursor) :
    OpResult σ :=
  if name ∉ s.plugins.items then ⟨.errNotFound, s, none⟩
  else if options = none then ⟨.errInvalidArg, s, none⟩
  else
    let r := (P name).init E options c
    match r.outcome with
    | .error rc => ⟨rc, s, none⟩
    | .ok state =>
      let h := replayQueued P E name state (taskTableQueued s.tasks) r.cursor
      if h.rc ≠ .ok then ⟨h.rc, s, none⟩
      else ⟨.ok, { s with policy := some ⟨name, h.state⟩ }, none⟩

/-- `qhw_sched_load_plugin`; `valid` tells whether the shared object opens and
its descriptor passes `validate_plugin_desc`. -/
def loadPlugin [DecidableEq ν] (s : Sched σ) (name : ν) (valid : Bool) (c : Cursor) : OpResult σ :=
  if !valid then ⟨.errPlugin, s, none⟩
  else
    let r := pluginRegistryAdd E s.plugins name c
    ⟨r.1, { s with plugins := r.2.1 }, none⟩

/-- `qhw_sched_set_callbacks`, with a structure that is large enough. -/
def setCallbacks (s : Sched σ) (callbacks : Callbacks) : OpResult σ :=
  ⟨.ok, { s with callbacks := callbacks }, none⟩

end Operations

/-! ## All operations -/

/-- The operations on one scheduler.  `submitBegin` and `submitEnd` are the two
critical sections of a submission during which other operations ran; `submitEnd`
takes any plan. -/
inductive Op (ν : Type) where
  | setCallbacks (callbacks : Callbacks)
  | loadPlugin (name : ν) (valid : Bool)
  | setPolicy (name : ν) (options : KvArray)
  | submitTask (task : TaskDesc) (answers : CallbackAnswers)
  | submitBegin (task : TaskDesc)
  | submitEnd (plan : SubmitPlan) (answers : CallbackAnswers)
  | selectNext
  | taskUpdatePriority (id : TaskId) (priority : Int64)
  | taskStarted (id : TaskId)
  | taskCompleted (id : TaskId)
  | taskFailed (id : TaskId)
  | taskCancelled (id : TaskId)

/-- The result of a critical section as the result of an operation. -/
def StepResult.done (r : StepResult σ) : OpResult σ := ⟨r.rc, r.sched, none⟩

/-- One operation, in an environment of its own. -/
def step [DecidableEq ν] (P : ∀ n, PluginDesc (σ n)) (s : Sched σ) (E : Env) : Op ν → OpResult σ
  | .setCallbacks callbacks => setCallbacks s callbacks
  | .loadPlugin name valid => loadPlugin E s name valid .start
  | .setPolicy name options => setPolicy P E s name options .start
  | .submitTask task answers => (submitTask P E s task answers .start).done
  | .submitBegin task =>
    let p := submitPrepare P E s task .start
    ⟨p.rc, p.sched, none⟩
  | .submitEnd plan answers => (submitFinish P E s plan answers .start).done
  | .selectNext => schedSelectNext P E s .start
  | .taskUpdatePriority id priority => taskUpdatePriority P E s id priority .start
  | .taskStarted id => taskStarted P E s id .start
  | .taskCompleted id => finishTask P E s id .completed .start
  | .taskFailed id => finishTask P E s id .failed .start
  | .taskCancelled id => finishTask P E s id .cancelled .start

end QhwScheduler
