import QhwScheduler.Core.SharedQpu
import QhwScheduler.Foundations.Program

/-!
# The critical sections of a call

A call of the public interface holds the lock of its scheduler from its first to
its last access, but takes the lock of the QPU anew for each of the
`qpu_runtime_*` helpers.  Other schedulers reach the QPU in between.

* `QpuSection` — the helpers, each one indivisible section.
* `Sections.enqueueTaskLocked`, …, `Sections.finishTask` — the operations of
  `Scheduler` once more, with the sections where the source has them.
* `Sections.callOf` — all operations.
* `callOf_run` — without anyone else at the QPU a call is one `step`.
-/

namespace QhwScheduler

open Foundations

variable {ν : Type} {σ : ν → Type}

/-- The functions of `qhw_scheduler.c` that hold the lock of the QPU. -/
inductive QpuSection where
  | queued
  | unqueued
  | started (id : TaskId)
  | unstarted (id : TaskId)
  | finished (id : TaskId) (state : TaskState)

/-- One section; those that return nothing answer `ok`. -/
def QpuSection.exec : QpuSection → Qpu → Rc × Qpu
  | .queued, qpu => (.ok, qpuRuntimeTaskQueued qpu)
  | .unqueued, qpu => (.ok, qpuRuntimeTaskUnqueued qpu)
  | .started id, qpu => qpuRuntimeTaskStarted qpu id
  | .unstarted id, qpu => (.ok, qpuRuntimeTaskUnstarted qpu id)
  | .finished id state, qpu => (.ok, qpuRuntimeTaskFinished qpu id state)

/-- What is left of a call. -/
abbrev Call (α : Type) := Program QpuSection Rc α

/-- A section whose answer is not looked at. -/
def Call.visit {α : Type} (x : QpuSection) (rest : Call α) : Call α := .enter x fun _ => rest

/-- A section that is entered under a condition. -/
def Call.visitIf {α : Type} (p : Bool) (x : QpuSection) (rest : Call α) : Call α :=
  if p then Call.visit x rest else rest

/-- The lock of the scheduler is held from the beginning to the end.  A submission
whose callbacks run is its two halves. -/
def Op.Unbroken : Op ν → Prop
  | .submitTask _ _ => False
  | _ => True

/-- A result with the scheduler as it finds the QPU. -/
def StepResult.atQpu (r : StepResult σ) (qpu : Qpu) : StepResult σ :=
  { r with sched := r.sched.at qpu }

/-- A plan with the scheduler as it finds the QPU. -/
def PrepareResult.atQpu (r : PrepareResult σ) (qpu : Qpu) : PrepareResult σ :=
  { r with sched := r.sched.at qpu }

/-- The outcome of an operation with the scheduler as it finds the QPU. -/
def OpResult.atQpu (r : OpResult σ) (qpu : Qpu) : OpResult σ :=
  { r with sched := r.sched.at qpu }

namespace Sections

open Call

section Operations

variable (P : ∀ n, PluginDesc (σ n)) (E : Env)

/-! ## Entering tasks -/

/-- `enqueue_task_locked`. -/
def enqueueTaskLocked (s : Sched σ) (task : TaskDesc) (c : Cursor) : Call (StepResult σ) :=
  let r := taskTableInsert E s.tasks task s.enqueueSeqNext c
  let s := { s with tasks := r.table, enqueueSeqNext := s.enqueueSeqNext + 1 }
  if r.rc ≠ .ok then .done ⟨r.rc, s, r.cursor⟩
  else visit .queued <|
    match s.policy with
    | none => .done ⟨.ok, s, r.cursor⟩
    | some ⟨n, state⟩ =>
      let h := (P n).onTaskSubmit E state task r.cursor
      let s := { s with policy := some ⟨n, h.state⟩ }
      if h.rc ≠ .ok then
        visit .unqueued <| .done
          ⟨h.rc, { s with tasks := taskTableRemove s.tasks task.taskId }, h.cursor⟩
      else .done ⟨.ok, s, h.cursor⟩

/-- `remove_queued_task_locked`. -/
def removeQueuedTaskLocked (s : Sched σ) (id : TaskId) (c : Cursor) : Call (Sched σ × Cursor) :=
  match s.policy with
  | none => visit .unqueued <| .done ({ s with tasks := taskTableRemove s.tasks id }, c)
  | some ⟨n, state⟩ =>
    let h := (P n).onTaskFinished E state id .cancelled c
    visit .unqueued <| .done
      ({ s with policy := some ⟨n, h.state⟩, tasks := taskTableRemove s.tasks id }, h.cursor)

/-- The roll-back loop of `submit_split_task_locked`, latest slice first. -/
def removeChildren : Sched σ → List TaskDesc → Cursor → Call (Sched σ × Cursor)
  | s, [], c => .done (s, c)
  | s, child :: earlier, c =>
    (removeQueuedTaskLocked P E s child.taskId c).bind fun r => removeChildren r.1 earlier r.2

/-- The loop of `submit_split_task_locked`; `done` are the slices already
entered, latest first. -/
def enqueueChildren : Sched σ → List TaskDesc → List TaskDesc → Cursor → Call (StepResult σ)
  | s, _, [], c => .done ⟨.ok, s, c⟩
  | s, done, child :: rest, c =>
    (enqueueTaskLocked P E s child c).bind fun r =>
      if r.rc ≠ .ok then
        (removeChildren P E r.sched done r.cursor).bind fun b => .done ⟨r.rc, b.1, b.2⟩
      else enqueueChildren r.sched (child :: done) rest r.cursor

/-- `submit_split_task_locked`. -/
def submitSplitTaskLocked (s : Sched σ) (parent : TaskDesc) (children : List TaskDesc)
    (c : Cursor) : Call (StepResult σ) :=
  let r := taskTableInsertState E s.tasks parent s.enqueueSeqNext .waiting c
  let s := { s with tasks := r.table, enqueueSeqNext := s.enqueueSeqNext + 1 }
  if r.rc ≠ .ok then .done ⟨r.rc, s, r.cursor⟩
  else
    match taskTableFind s.tasks parent.taskId with
    | none => .done ⟨.errState, s, r.cursor⟩
    | some record =>
      let s := { s with
        tasks := s.tasks.update parent.taskId { record with childCount := children.length } }
      (enqueueChildren P E s [] children r.cursor).bind fun e =>
        if e.rc ≠ .ok then
          .done
            ⟨e.rc, { e.sched with tasks := taskTableRemove e.sched.tasks parent.taskId }, e.cursor⟩
        else .done e

/-! ## Submission -/

/-- `qhw_sched_submit_task` up to the point where the lock is dropped for the
callbacks, or to its end when none has to run. -/
def submitPrepare (s : Sched σ) (task : TaskDesc) (c : Cursor) : Call (PrepareResult σ) :=
  if (taskTableFind s.tasks task.taskId).isSome then .done ⟨.errExists, s, c, none⟩
  else
    let (d, s) := computeSplitConfig P s task
    if d.rc ≠ .ok then .done ⟨d.rc, s, c, none⟩
    else if !d.shouldSplit then
      if s.callbacks.estimateCost then .done ⟨.ok, s, c, some (.estimate task)⟩
      else
        match estimateTaskCost false {} 0 task with
        | .error rc => .done ⟨rc, s, c, none⟩
        | .ok estimated => (enqueueTaskLocked P E s estimated c).bind fun r => .done r.prepared
    else if d.config.sliceCount.toNat > u64Max.toNat / sizeofTaskDesc then
      .done ⟨.errUnsupported, s, c, none⟩
    else if !E.alloc c.allocs then .done ⟨.errNoMemory, s, c.alloc, none⟩
    else
      let child := { task with taskId := invalidTaskId, parentTaskId := task.taskId }
      .done ⟨.ok, s, c.alloc, some (.split task d.config
        (List.replicate d.config.sliceCount.toNat child) s.callbacks.estimateCost)⟩

/-- The rest of `qhw_sched_submit_task`: the callbacks, and the second time under
the lock. -/
def submitFinish (s : Sched σ) (plan : SubmitPlan) (answers : CallbackAnswers) (c : Cursor) :
    Call (StepResult σ) :=
  match plan with
  | .estimate task =>
    match estimateTaskCost true answers 0 task with
    | .error rc => .done ⟨rc, s, c⟩
    | .ok estimated =>
      if (taskTableFind s.tasks task.taskId).isSome then .done ⟨.errExists, s, c⟩
      else
        let (latest, s) := computeSplitConfig P s task
        if latest.rc ≠ .ok then .done ⟨latest.rc, s, c⟩
        else if latest.shouldSplit then .done ⟨.errState, s, c⟩
        else enqueueTaskLocked P E s estimated c
  | .split task config children hasEstimateCost =>
    if answers.splitRc ≠ .ok then .done ⟨answers.splitRc, s, c⟩
    else
      match estimateChildCosts hasEstimateCost answers 0 (children.mapIdx answers.slice) with
      | .error rc => .done ⟨rc, s, c⟩
      | .ok children =>
        if (taskTableFind s.tasks task.taskId).isSome then .done ⟨.errExists, s, c⟩
        else
          let (latest, s) := computeSplitConfig P s task
          if latest.rc ≠ .ok then .done ⟨latest.rc, s, c⟩
          else if !latest.shouldSplit ∨ latest.config.sliceCount ≠ config.sliceCount ∨
              latest.config.sliceShots ≠ config.sliceShots then .done ⟨.errState, s, c⟩
          else
            let v := validateChildTasks E s.tasks task children config c
            if v.1 ≠ .ok then .done ⟨v.1, s, v.2⟩
            else submitSplitTaskLocked P E s task children v.2

/-! ## Selection and lifecycle -/

/-- `qhw_sched_select_next`. -/
def schedSelectNext (s : Sched σ) (c : Cursor) : Call (OpResult σ) :=
  match s.policy with
  | none => .done ⟨.errNotFound, s, none⟩
  | some ⟨n, state⟩ =>
    let h := (P n).selectNext E state c
    let s := { s with policy := some ⟨n, h.state⟩ }
    if h.rc ≠ .ok then .done ⟨h.rc, s, none⟩
    else
      match taskTableFind s.tasks h.taskId with
      | none => .done ⟨.errNotFound, s, none⟩
      | some record =>
        if record.state ≠ .queued then .done ⟨.errState, s, none⟩
        else
          visit .unqueued <| .done
            ⟨.ok, { s with tasks := taskTableSetState s.tasks h.taskId .assigned },
              some (fillAssignmentFromRecord record)⟩

/-- `qhw_sched_task_started`. -/
def taskStarted (s : Sched σ) (id : TaskId) (c : Cursor) : Call (OpResult σ) :=
  match taskTableFind s.tasks id with
  | none => .done ⟨.errNotFound, s, none⟩
  | some record =>
    if record.state ≠ .assigned ∧ (record.state ≠ .queued ∨ s.policy.isSome) then
      .done ⟨.errState, s, none⟩
    else
      .enter (.started id) fun rc =>
        if rc ≠ .ok then .done ⟨rc, s, none⟩
        else visitIf (record.state = .queued) .unqueued <|
          let running := { s with tasks := taskTableSetState s.tasks id .running }
          match s.policy with
          | none => .done ⟨.ok, running, none⟩
          | some ⟨n, state⟩ =>
            let h := (P n).onTaskStarted E state id c
            let running := { running with policy := some ⟨n, h.state⟩ }
            if h.rc ≠ .ok then
              visitIf (record.state = .queued) .queued <| visit (.unstarted id) <| .done
                ⟨h.rc, { running with tasks := taskTableSetState running.tasks id record.state }, none⟩
            else .done ⟨.ok, running, none⟩

/-- `finish_task`. -/
def finishTask (s : Sched σ) (id : TaskId) (state : TaskState) (c : Cursor) : Call (OpResult σ) :=
  match taskTableFind s.tasks id with
  | none => .done ⟨.errNotFound, s, none⟩
  | some record =>
    if taskStateIsTerminal record.state then .done ⟨.errState, s, none⟩
    else if record.state = .waiting then .done ⟨.errState, s, none⟩
    else if state = .completed ∧ record.state ≠ .running then .done ⟨.errState, s, none⟩
    else visitIf (record.state = .queued) .unqueued <| visit (.finished id state) <|
      let tasks := taskTableSetState s.tasks id state
      let finished := { s with tasks := updateParentAfterChildLocked tasks record state }
      match s.policy with
      | none => .done ⟨.ok, finished, none⟩
      | some ⟨n, policyState⟩ =>
        let h := (P n).onTaskFinished E policyState id state c
        .done ⟨h.rc, { finished with policy := some ⟨n, h.state⟩ }, none⟩

end Operations

/-! ## All operations -/

/-- What a call does from taking the lock of its scheduler to giving it back.  An
operation that never reaches the QPU is a single piece of local work, and of a
whole submission this is the first half. -/
def callOf [DecidableEq ν] (P : ∀ n, PluginDesc (σ n)) (s : Sched σ) (E : Env) :
    Op ν → Call (OpResult σ)
  | .setCallbacks callbacks => .done (setCallbacks s callbacks)
  | .loadPlugin name valid => .done (loadPlugin E s name valid .start)
  | .setPolicy name options => .done (setPolicy P E s name options .start)
  | .submitTask task _ | .submitBegin task =>
    (submitPrepare P E s task .start).bind fun p => .done ⟨p.rc, p.sched, none⟩
  | .submitEnd plan answers => (submitFinish P E s plan answers .start).bind fun r => .done r.done
  | .selectNext => schedSelectNext P E s .start
  | .taskUpdatePriority id priority => .done (taskUpdatePriority P E s id priority .start)
  | .taskStarted id => taskStarted P E s id .start
  | .taskCompleted id => finishTask P E s id .completed .start
  | .taskFailed id => finishTask P E s id .failed .start
  | .taskCancelled id => finishTask P E s id .cancelled .start

/-! ## Without anyone else at the QPU -/

section Run

variable {P : ∀ n, PluginDesc (σ n)} {E : Env} (s : Sched σ) (qpu : Qpu) (c : Cursor)

@[simp] theorem run_visit {α : Type} (x : QpuSection) (rest : Call α) :
    (visit x rest).run QpuSection.exec qpu = rest.run QpuSection.exec (x.exec qpu).2 := rfl

theorem run_visitIf {α : Type} (p : Bool) (x : QpuSection) (rest : Call α) :
    (visitIf p x rest).run QpuSection.exec qpu =
      rest.run QpuSection.exec (if p then (x.exec qpu).2 else qpu) := by
  cases p <;> rfl

theorem enqueueTaskLocked_run (task : TaskDesc) :
    let z := (enqueueTaskLocked P E s task c).run QpuSection.exec qpu
    z.1.atQpu z.2 = QhwScheduler.enqueueTaskLocked P E (s.at qpu) task c := by
  unfold enqueueTaskLocked QhwScheduler.enqueueTaskLocked
  dsimp only [Sched.at]
  split
  · rfl
  · rw [run_visit]
    cases s.policy with
    | none => rfl
    | some p =>
      dsimp only
      split <;> rfl

theorem removeQueuedTaskLocked_run (id : TaskId) :
    let z := (removeQueuedTaskLocked P E s id c).run QpuSection.exec qpu
    (z.1.1.at z.2, z.1.2) = QhwScheduler.removeQueuedTaskLocked P E (s.at qpu) id c := by
  unfold removeQueuedTaskLocked QhwScheduler.removeQueuedTaskLocked
  dsimp only [Sched.at]
  cases s.policy <;> rfl

theorem removeChildren_run (children : List TaskDesc) :
    let z := (removeChildren P E s children c).run QpuSection.exec qpu
    (z.1.1.at z.2, z.1.2) = QhwScheduler.removeChildren P E (s.at qpu) children c := by
  induction children generalizing s qpu c with
  | nil => rfl
  | cons child earlier ih =>
    unfold removeChildren QhwScheduler.removeChildren
    rw [Program.run_bind, ← removeQueuedTaskLocked_run]
    exact ih _ _ _

theorem enqueueChildren_run (done children : List TaskDesc) :
    let z := (enqueueChildren P E s done children c).run QpuSection.exec qpu
    z.1.atQpu z.2 = QhwScheduler.enqueueChildren P E (s.at qpu) done children c := by
  induction children generalizing s qpu c done with
  | nil => rfl
  | cons child rest ih =>
    unfold enqueueChildren QhwScheduler.enqueueChildren
    rw [Program.run_bind, ← enqueueTaskLocked_run]
    dsimp only [StepResult.atQpu]
    split
    · rw [Program.run_bind, ← removeChildren_run]
      rfl
    · exact ih _ _ _ _

theorem submitSplitTaskLocked_run (parent : TaskDesc) (children : List TaskDesc) :
    let z := (submitSplitTaskLocked P E s parent children c).run QpuSection.exec qpu
    z.1.atQpu z.2 = QhwScheduler.submitSplitTaskLocked P E (s.at qpu) parent children c := by
  unfold submitSplitTaskLocked QhwScheduler.submitSplitTaskLocked
  dsimp only [Sched.at]
  generalize taskTableInsertState E s.tasks parent s.enqueueSeqNext .waiting c = r
  split
  · rfl
  · cases taskTableFind r.table parent.taskId with
    | none => rfl
    | some record =>
      dsimp only
      have h := enqueueChildren_run (P := P) (E := E) { s with
        tasks := r.table.update parent.taskId { record with childCount := children.length }
        enqueueSeqNext := s.enqueueSeqNext + 1 } qpu r.cursor [] children
      dsimp only [Sched.at] at h
      rw [Program.run_bind, ← h]
      generalize (enqueueChildren P E _ [] children r.cursor).run QpuSection.exec qpu = z
      by_cases hrc : z.1.rc = .ok
      · simp [StepResult.atQpu, hrc]
      · simp only [StepResult.atQpu, hrc, ne_eq, not_false_eq_true, if_true]
        rfl

/-- Slicing reads the profile only. -/
theorem computeSplitConfig_at (task : TaskDesc) (hprofile : s.qpu.metadata = qpu.metadata) :
    computeSplitConfig P (s.at qpu) task =
      ((computeSplitConfig P s task).1, (computeSplitConfig P s task).2.at qpu) := by
  unfold computeSplitConfig getPolicySplitConfig
  cases hpolicy : s.policy with
  | none => simp [Sched.at, hpolicy, hprofile]
  | some p =>
    simp only [Sched.at, hpolicy]
    cases hrc : ((P p.1).getSplitConfig splitConfigInit p.2).rc <;> simp [hprofile]

theorem submitPrepare_run (task : TaskDesc) (hprofile : s.qpu.metadata = qpu.metadata) :
    let z := (submitPrepare P E s task c).run QpuSection.exec qpu
    z.1.atQpu z.2 = QhwScheduler.submitPrepare P E (s.at qpu) task c := by
  unfold submitPrepare QhwScheduler.submitPrepare
  rw [computeSplitConfig_at s qpu task hprofile]
  generalize computeSplitConfig P s task = decided
  obtain ⟨d, s'⟩ := decided
  have hfind : (s.at qpu).tasks = s.tasks := rfl
  have hcalls : (s'.at qpu).callbacks = s'.callbacks := rfl
  simp only [hfind, hcalls]
  split
  · rfl
  · split
    · rfl
    · split
      · split
        · rfl
        · cases estimateTaskCost false {} 0 task with
          | error rc => rfl
          | ok estimated =>
            dsimp only
            rw [Program.run_bind, ← enqueueTaskLocked_run]
            rfl
      · split
        · rfl
        · split <;> rfl

theorem submitFinish_run (plan : SubmitPlan) (answers : CallbackAnswers)
    (hprofile : s.qpu.metadata = qpu.metadata) :
    let z := (submitFinish P E s plan answers c).run QpuSection.exec qpu
    z.1.atQpu z.2 = QhwScheduler.submitFinish P E (s.at qpu) plan answers c := by
  have hfind : (s.at qpu).tasks = s.tasks := rfl
  unfold submitFinish QhwScheduler.submitFinish
  cases plan with
  | estimate task =>
    simp only [hfind, computeSplitConfig_at s qpu task hprofile]
    generalize computeSplitConfig P s task = decided
    obtain ⟨d, s'⟩ := decided
    cases estimateTaskCost true answers 0 task with
    | error rc => rfl
    | ok estimated =>
      dsimp only
      split
      · rfl
      · split
        · rfl
        · split
          · rfl
          · exact enqueueTaskLocked_run s' qpu c estimated
  | split task config children hasEstimateCost =>
    simp only [hfind, computeSplitConfig_at s qpu task hprofile]
    generalize computeSplitConfig P s task = decided
    obtain ⟨d, s'⟩ := decided
    have htasks : (s'.at qpu).tasks = s'.tasks := rfl
    split
    · rfl
    · cases estimateChildCosts hasEstimateCost answers 0 (children.mapIdx answers.slice) with
      | error rc => rfl
      | ok children =>
        simp only [htasks]
        split
        · rfl
        · split
          · rfl
          · split
            · rfl
            · split
              · rfl
              · exact submitSplitTaskLocked_run s' qpu _ task children

theorem schedSelectNext_run :
    let z := (schedSelectNext P E s c).run QpuSection.exec qpu
    z.1.atQpu z.2 = QhwScheduler.schedSelectNext P E (s.at qpu) c := by
  have hpolicy : (s.at qpu).policy = s.policy := rfl
  have htasks : (s.at qpu).tasks = s.tasks := rfl
  unfold schedSelectNext QhwScheduler.schedSelectNext
  rw [hpolicy]
  cases s.policy with
  | none => rfl
  | some p =>
    simp only [htasks]
    split
    · rfl
    · cases taskTableFind s.tasks ((P p.1).selectNext E p.2 c).taskId with
      | none => rfl
      | some record =>
        dsimp only
        split <;> rfl

/-- A start that is refused leaves the QPU alone. -/
theorem started_refused {id : TaskId} (h : (qpuRuntimeTaskStarted qpu id).1 ≠ .ok) :
    (qpuRuntimeTaskStarted qpu id).2 = qpu := by
  unfold qpuRuntimeTaskStarted at h ⊢
  split
  · rfl
  · next hfree => simp [hfree] at h

theorem taskStarted_run (id : TaskId) :
    let z := (taskStarted P E s id c).run QpuSection.exec qpu
    z.1.atQpu z.2 = QhwScheduler.taskStarted P E (s.at qpu) id c := by
  have hpolicy : (s.at qpu).policy = s.policy := rfl
  have htasks : (s.at qpu).tasks = s.tasks := rfl
  have hqpu : (s.at qpu).qpu = qpu := rfl
  unfold taskStarted QhwScheduler.taskStarted
  simp only [hpolicy, htasks, hqpu]
  cases taskTableFind s.tasks id with
  | none => rfl
  | some record =>
    dsimp only
    by_cases hstate : record.state ≠ .assigned ∧ (record.state ≠ .queued ∨ s.policy.isSome)
    · rw [if_pos hstate, if_pos hstate]
      rfl
    · have hexec : (QpuSection.started id).exec qpu = qpuRuntimeTaskStarted qpu id := rfl
      rw [if_neg hstate, if_neg hstate, Program.run_enter, hexec]
      by_cases hrc : (qpuRuntimeTaskStarted qpu id).1 ≠ .ok
      · rw [if_pos hrc, if_pos hrc, started_refused qpu hrc]
        rfl
      · rw [if_neg hrc, if_neg hrc, run_visitIf]
        simp only [decide_eq_true_eq]
        cases s.policy with
        | none => rfl
        | some p =>
          dsimp only
          by_cases hhook : ((P p.1).onTaskStarted E p.2 id c).rc ≠ .ok
          · rw [if_pos hhook, if_pos hhook, run_visitIf]
            simp only [decide_eq_true_eq]
            rfl
          · rw [if_neg hhook, if_neg hhook]
            rfl

theorem finishTask_run (id : TaskId) (state : TaskState) :
    let z := (finishTask P E s id state c).run QpuSection.exec qpu
    z.1.atQpu z.2 = QhwScheduler.finishTask P E (s.at qpu) id state c := by
  have hpolicy : (s.at qpu).policy = s.policy := rfl
  have htasks : (s.at qpu).tasks = s.tasks := rfl
  have hqpu : (s.at qpu).qpu = qpu := rfl
  unfold finishTask QhwScheduler.finishTask
  simp only [hpolicy, htasks, hqpu]
  cases taskTableFind s.tasks id with
  | none => rfl
  | some record =>
    dsimp only
    split
    · rfl
    · split
      · rfl
      · split
        · rfl
        · rw [run_visitIf]
          simp only [decide_eq_true_eq]
          cases s.policy <;> rfl

theorem setPolicy_at [DecidableEq ν] (name : ν) (options : KvArray) :
    (setPolicy P E s name options c).atQpu qpu = setPolicy P E (s.at qpu) name options c := by
  have hplugins : (s.at qpu).plugins = s.plugins := rfl
  have htasks : (s.at qpu).tasks = s.tasks := rfl
  unfold setPolicy
  simp only [hplugins, htasks]
  by_cases hname : name ∉ s.plugins.items
  · rw [if_pos hname, if_pos hname]
    rfl
  · rw [if_neg hname, if_neg hname]
    by_cases hoptions : options = none
    · rw [if_pos hoptions, if_pos hoptions]
      rfl
    · rw [if_neg hoptions, if_neg hoptions]
      cases ((P name).init E options c).outcome with
      | error rc => rfl
      | ok state =>
        dsimp only
        generalize replayQueued P E name state _ _ = h
        by_cases hrc : h.rc ≠ .ok
        · rw [if_pos hrc, if_pos hrc]
          rfl
        · rw [if_neg hrc, if_neg hrc]
          rfl

theorem taskUpdatePriority_at (id : TaskId) (priority : Int64) :
    (taskUpdatePriority P E s id priority c).atQpu qpu =
      taskUpdatePriority P E (s.at qpu) id priority c := by
  have hpolicy : (s.at qpu).policy = s.policy := rfl
  have htasks : (s.at qpu).tasks = s.tasks := rfl
  unfold taskUpdatePriority
  simp only [hpolicy, htasks]
  cases taskTableFind s.tasks id with
  | none => rfl
  | some record =>
    dsimp only
    by_cases hstate : record.state ≠ .queued
    · rw [if_pos hstate, if_pos hstate]
      rfl
    · rw [if_neg hstate, if_neg hstate]
      cases s.policy with
      | none => rfl
      | some p =>
        dsimp only
        by_cases hhook : ((P p.1).onTaskPriorityChanged E p.2 id priority c).rc ≠ .ok
        · rw [if_pos hhook, if_pos hhook]
          rfl
        · rw [if_neg hhook, if_neg hhook]
          rfl

end Run

/-- The QPU as a scheduler sees it without its lock: the profile. -/
def profile (qpu : Qpu) : Qpu := ⟨qpu.metadata, {}, 0⟩

/-- **Without anyone else at the QPU a call is one operation.** -/
theorem callOf_run [DecidableEq ν] (P : ∀ n, PluginDesc (σ n)) (E : Env) (s : Sched σ) (qpu : Qpu)
    {op : Op ν} (hop : op.Unbroken) :
    let z := (callOf P (s.at (profile qpu)) E op).run QpuSection.exec qpu
    z.1.atQpu z.2 = step P (s.at qpu) E op := by
  have hprofile : (s.at (profile qpu)).qpu.metadata = qpu.metadata := rfl
  cases op with
  | setCallbacks callbacks => rfl
  | loadPlugin name valid =>
    dsimp only [callOf, step, loadPlugin]
    cases valid <;> rfl
  | setPolicy name options => exact setPolicy_at _ qpu _ name options
  | submitTask task answers => exact hop.elim
  | submitBegin task =>
    have hprepare := submitPrepare_run (P := P) (E := E) _ qpu .start task hprofile
    dsimp only [callOf, step]
    rw [Program.run_bind]
    exact congrArg (fun p : PrepareResult σ => (⟨p.rc, p.sched, none⟩ : OpResult σ)) hprepare
  | submitEnd plan answers =>
    have hfinish := submitFinish_run (P := P) (E := E) _ qpu .start plan answers hprofile
    dsimp only [callOf, step]
    rw [Program.run_bind]
    exact congrArg StepResult.done hfinish
  | selectNext => exact schedSelectNext_run _ qpu _
  | taskUpdatePriority id priority => exact taskUpdatePriority_at _ qpu _ id priority
  | taskStarted id => exact taskStarted_run _ qpu _ id
  | taskCompleted id => exact finishTask_run _ qpu _ id _
  | taskFailed id => exact finishTask_run _ qpu _ id _
  | taskCancelled id => exact finishTask_run _ qpu _ id _

end Sections

end QhwScheduler
