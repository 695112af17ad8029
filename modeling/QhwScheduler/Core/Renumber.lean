import QhwScheduler.Core.Lockstep

/-!
# Enqueue numbers

Each submission takes a number from the scheduler, also one that fails.  Nobody can
tell: the records keep their order by themselves, and no operation reads the numbers.

* `SameRecords` — two tables whose records differ in their numbers only.
* `Renumbered` — two schedulers with such tables.
* `step_renumbered` — an operation answers both alike.
* `replies_renumbered` — so does every run.
-/

namespace QhwScheduler

variable {ν : Type} {σ : ν → Type}

/-! ## Tables -/

/-- The records of two tables differ in their enqueue numbers only. -/
structure SameRecords (table table' : TaskTable) : Prop where
  order : table'.enqueueOrder = table.enqueueOrder
  count : table'.count = table.count
  find : ∀ id, (table.byId id = none ∧ table'.byId id = none) ∨
    ∃ r n, table.byId id = some r ∧ table'.byId id = some { r with enqueueSeq := n }

namespace SameRecords

variable {table table' : TaskTable} {id : TaskId} {r : TaskRecord} {state : TaskState}

theorem refl (table : TaskTable) : SameRecords table table := by
  refine ⟨rfl, rfl, fun id => ?_⟩
  cases h : table.byId id with
  | none => exact Or.inl ⟨rfl, rfl⟩
  | some r => exact Or.inr ⟨r, r.enqueueSeq, rfl, rfl⟩

theorem isSome (h : SameRecords table table') (id : TaskId) :
    (taskTableFind table' id).isSome = (taskTableFind table id).isSome := by
  unfold taskTableFind
  rcases h.find id with ⟨h, h'⟩ | ⟨r, n, h, h'⟩
  · rw [h, h']
  · rw [h, h']
    rfl

theorem insert (h : SameRecords table table') (r : TaskRecord) (n : ℕ) :
    SameRecords (table.insert r) (table'.insert { r with enqueueSeq := n }) := by
  refine ⟨congrArg (· ++ _) h.order, congrArg (· + 1) h.count, fun id => ?_⟩
  simp only [TaskTable.insert, Function.update_apply]
  split
  · exact Or.inr ⟨r, n, rfl, rfl⟩
  · exact h.find id

theorem update (h : SameRecords table table') (id : TaskId) (r : TaskRecord) (n : ℕ) :
    SameRecords (table.update id r) (table'.update id { r with enqueueSeq := n }) := by
  refine ⟨h.order, h.count, fun x => ?_⟩
  simp only [TaskTable.update, Function.update_apply]
  split
  · exact Or.inr ⟨r, n, rfl, rfl⟩
  · exact h.find x

theorem setState (h : SameRecords table table') (id : TaskId) (state : TaskState) :
    SameRecords (taskTableSetState table id state) (taskTableSetState table' id state) := by
  unfold taskTableSetState
  rcases h.find id with ⟨hr, hr'⟩ | ⟨r, n, hr, hr'⟩
  · rw [hr, hr']
    exact h
  · rw [hr, hr']
    exact h.update id { r with state := state } n

theorem remove (h : SameRecords table table') (id : TaskId) :
    SameRecords (taskTableRemove table id) (taskTableRemove table' id) := by
  unfold taskTableRemove
  rcases h.find id with ⟨hr, hr'⟩ | ⟨r, n, hr, hr'⟩
  · rw [hr, hr']
    exact h
  · rw [hr, hr', h.order, h.count]
    refine ⟨rfl, rfl, fun x => ?_⟩
    simp only [Function.update_apply]
    split
    · exact Or.inl ⟨rfl, rfl⟩
    · exact h.find x

/-- The number of a new record plays no part in its insertion. -/
theorem insertState (h : SameRecords table table') (E : Env) (task : TaskDesc) (n n' : ℕ)
    (state : TaskState) (c : Cursor) :
    let r := taskTableInsertState E table task n state c
    let r' := taskTableInsertState E table' task n' state c
    r'.rc = r.rc ∧ r'.cursor = r.cursor ∧ SameRecords r.table r'.table := by
  dsimp only
  unfold taskTableInsertState
  rw [h.isSome]
  split
  · exact ⟨rfl, rfl, h⟩
  · split
    · exact ⟨rfl, rfl, h⟩
    · split
      · exact ⟨rfl, rfl, h⟩
      · split
        · exact ⟨rfl, rfl, h⟩
        · split
          · exact ⟨rfl, rfl, h⟩
          · split
            · exact ⟨rfl, rfl, h⟩
            · dsimp only
              split <;> split
              · exact ⟨rfl, rfl, h⟩
              · exact ⟨rfl, rfl, h.insert _ n'⟩
              · exact ⟨rfl, rfl, h⟩
              · exact ⟨rfl, rfl, h.insert _ n'⟩

/-- The records of queued tasks are the same in the same order. -/
theorem queued (h : SameRecords table table') :
    (taskTableQueued table').map TaskRecord.desc = (taskTableQueued table).map TaskRecord.desc := by
  unfold taskTableQueued
  rw [h.order]
  induction table.enqueueOrder with
  | nil => rfl
  | cons id order ih =>
    rcases h.find id with ⟨hr, hr'⟩ | ⟨r, n, hr, hr'⟩
    · rw [List.filterMap_cons_none hr, List.filterMap_cons_none hr']
      exact ih
    · rw [List.filterMap_cons_some hr, List.filterMap_cons_some hr', List.filter_cons,
        List.filter_cons]
      dsimp only
      split
      · rw [List.map_cons, List.map_cons, ih]
      · exact ih

theorem updateParent (h : SameRecords table table') (child : TaskRecord) (n : ℕ) (state : TaskState) :
    SameRecords (updateParentAfterChildLocked table child state)
      (updateParentAfterChildLocked table' { child with enqueueSeq := n } state) := by
  unfold updateParentAfterChildLocked taskTableFind
  dsimp only
  split
  · exact h
  · rcases h.find child.desc.parentTaskId with ⟨hr, hr'⟩ | ⟨parent, m, hr, hr'⟩
    · rw [hr, hr']
      exact h
    · rw [hr, hr']
      dsimp only
      split
      · exact h
      · cases state <;> exact h.update _ _ m

end SameRecords

/-- A slice is checked against the ids of a table only. -/
theorem validateChildTasks_sameRecords {table table' : TaskTable} (h : SameRecords table table')
    (E : Env) (parent : TaskDesc) (children : List TaskDesc) (config : SplitConfig) (c : Cursor) :
    validateChildTasks E table' parent children config c =
      validateChildTasks E table parent children config c := by
  have hloop : ∀ n seen slices total c,
      validateChildren E table' parent config n children seen slices total c =
        validateChildren E table parent config n children seen slices total c := by
    induction children with
    | nil => exact fun _ _ _ _ _ => rfl
    | cons child rest ih =>
      intro n seen slices total c
      unfold validateChildren
      simp only [h.isSome, ih]
  unfold validateChildTasks
  rw [hloop]

/-! ## Schedulers -/

/-- Two schedulers that differ in enqueue numbers only. -/
def Renumbered (s s' : Sched σ) : Prop :=
  ∃ tasks next, SameRecords s.tasks tasks ∧ s' = { s with tasks := tasks, enqueueSeqNext := next }

/-- Two parts of an operation ended alike. -/
structure StepsRenumbered (r r' : StepResult σ) : Prop where
  rc : r'.rc = r.rc
  cursor : r'.cursor = r.cursor
  sched : Renumbered r.sched r'.sched

/-- Two operations ended alike. -/
structure OpsRenumbered (r r' : OpResult σ) : Prop where
  rc : r'.rc = r.rc
  assignment : r'.assignment = r.assignment
  sched : Renumbered r.sched r'.sched

section Operations

variable {P : ∀ n, PluginDesc (σ n)} {E : Env} {s s' : Sched σ} {c : Cursor}

theorem Renumbered.refl (s : Sched σ) : Renumbered s s :=
  ⟨s.tasks, s.enqueueSeqNext, .refl s.tasks, rfl⟩

theorem Renumbered.tasks (hs : Renumbered s s') : SameRecords s.tasks s'.tasks := by
  obtain ⟨tasks, next, h, rfl⟩ := hs
  exact h

theorem Renumbered.callbacks (hs : Renumbered s s') : s'.callbacks = s.callbacks := by
  obtain ⟨tasks, next, -, rfl⟩ := hs
  rfl

/-- The same happens to both tables. -/
theorem Renumbered.withTasks (hs : Renumbered s s') {tasks tasks' : TaskTable}
    (h : SameRecords tasks tasks') :
    Renumbered { s with tasks := tasks } { s' with tasks := tasks' } := by
  obtain ⟨t, next, -, rfl⟩ := hs
  exact ⟨tasks', next, h, rfl⟩

theorem StepsRenumbered.done {r r' : StepResult σ} (h : StepsRenumbered r r') :
    OpsRenumbered r.done r'.done := ⟨h.rc, rfl, h.sched⟩

/-! ### Submissions -/

theorem enqueueTaskLocked_renumbered (hs : Renumbered s s') (task : TaskDesc) (c : Cursor) :
    StepsRenumbered (enqueueTaskLocked P E s task c) (enqueueTaskLocked P E s' task c) := by
  obtain ⟨tasks, next, ht, rfl⟩ := hs
  obtain ⟨hrc, hcur, htable⟩ := ht.insertState E task s.enqueueSeqNext next .queued c
  unfold enqueueTaskLocked taskTableInsert
  dsimp only
  rw [hrc, hcur]
  split
  · exact ⟨rfl, rfl, _, _, htable, rfl⟩
  · cases s.policy with
    | none => exact ⟨rfl, rfl, _, _, htable, rfl⟩
    | some π =>
      dsimp only
      split
      · exact ⟨rfl, rfl, _, _, htable.remove task.taskId, rfl⟩
      · exact ⟨rfl, rfl, _, _, htable, rfl⟩

theorem removeChildren_renumbered (done : List TaskDesc) (hs : Renumbered s s') (c : Cursor) :
    Renumbered (removeChildren P E s done c).1 (removeChildren P E s' done c).1 ∧
      (removeChildren P E s' done c).2 = (removeChildren P E s done c).2 := by
  induction done generalizing s s' c with
  | nil => exact ⟨hs, rfl⟩
  | cons child earlier ih =>
    have hone : Renumbered (removeQueuedTaskLocked P E s child.taskId c).1
          (removeQueuedTaskLocked P E s' child.taskId c).1 ∧
        (removeQueuedTaskLocked P E s' child.taskId c).2 =
          (removeQueuedTaskLocked P E s child.taskId c).2 := by
      obtain ⟨tasks, next, ht, rfl⟩ := hs
      unfold removeQueuedTaskLocked
      dsimp only
      cases s.policy with
      | none => exact ⟨⟨_, _, ht.remove child.taskId, rfl⟩, rfl⟩
      | some π => exact ⟨⟨_, _, ht.remove child.taskId, rfl⟩, rfl⟩
    unfold removeChildren
    dsimp only
    rw [hone.2]
    exact ih hone.1 _

theorem enqueueChildren_renumbered (rest done : List TaskDesc) (hs : Renumbered s s') (c : Cursor) :
    StepsRenumbered (enqueueChildren P E s done rest c) (enqueueChildren P E s' done rest c) := by
  induction rest generalizing s s' c done with
  | nil => exact ⟨rfl, rfl, hs⟩
  | cons child rest ih =>
    have hstep := enqueueTaskLocked_renumbered (P := P) (E := E) hs child c
    unfold enqueueChildren
    dsimp only
    rw [hstep.rc, hstep.cursor]
    split
    · obtain ⟨hback, hcur⟩ := removeChildren_renumbered (P := P) (E := E) done hstep.sched _
      exact ⟨rfl, hcur, hback⟩
    · exact ih (child :: done) hstep.sched _

theorem submitSplitTaskLocked_renumbered (hs : Renumbered s s') (parent : TaskDesc)
    (children : List TaskDesc) (c : Cursor) :
    StepsRenumbered (submitSplitTaskLocked P E s parent children c)
      (submitSplitTaskLocked P E s' parent children c) := by
  obtain ⟨tasks, next, ht, rfl⟩ := hs
  obtain ⟨hrc, hcur, htable⟩ := ht.insertState E parent s.enqueueSeqNext next .waiting c
  unfold submitSplitTaskLocked taskTableFind
  dsimp only
  rw [hrc, hcur]
  split
  · exact ⟨rfl, rfl, _, _, htable, rfl⟩
  · rcases htable.find parent.taskId with ⟨hr, hr'⟩ | ⟨record, n, hr, hr'⟩
    · rw [hr, hr']
      exact ⟨rfl, rfl, _, _, htable, rfl⟩
    · rw [hr, hr']
      dsimp only
      have hstart : Renumbered
          { s with
            tasks := (taskTableInsertState E s.tasks parent s.enqueueSeqNext .waiting c).table.update
              parent.taskId { record with childCount := children.length }
            enqueueSeqNext := s.enqueueSeqNext + 1 }
          { s with
            tasks := (taskTableInsertState E tasks parent next .waiting c).table.update
              parent.taskId { record with enqueueSeq := n, childCount := children.length }
            enqueueSeqNext := next + 1 } := ⟨_, _, htable.update _ _ n, rfl⟩
      have hchildren := enqueueChildren_renumbered (P := P) (E := E) children [] hstart
        (taskTableInsertState E s.tasks parent s.enqueueSeqNext .waiting c).cursor
      rw [hchildren.rc]
      split
      · exact ⟨rfl, hchildren.cursor, hchildren.sched.withTasks (hchildren.sched.tasks.remove _)⟩
      · exact hchildren

theorem computeSplitConfig_renumbered (hs : Renumbered s s') (task : TaskDesc) :
    (computeSplitConfig P s' task).1 = (computeSplitConfig P s task).1 ∧
      Renumbered (computeSplitConfig P s task).2 (computeSplitConfig P s' task).2 := by
  obtain ⟨tasks, next, ht, rfl⟩ := hs
  unfold computeSplitConfig getPolicySplitConfig
  dsimp only
  cases hpolicy : s.policy with
  | none =>
    refine ⟨rfl, tasks, next, ht, ?_⟩
    show (⟨tasks, s.qpu, s.plugins, none, s.callbacks, next⟩ : Sched σ) =
      ⟨tasks, s.qpu, s.plugins, s.policy, s.callbacks, next⟩
    rw [hpolicy]
  | some π =>
    dsimp only
    cases ((P π.1).getSplitConfig splitConfigInit π.2).rc with
    | ok => exact ⟨rfl, tasks, next, ht, rfl⟩
    | _ => exact ⟨rfl, tasks, next, ht, rfl⟩

theorem submitPrepare_renumbered (hs : Renumbered s s') (task : TaskDesc) (c : Cursor) :
    let r := submitPrepare P E s task c
    let r' := submitPrepare P E s' task c
    r'.rc = r.rc ∧ r'.plan = r.plan ∧ r'.cursor = r.cursor ∧ Renumbered r.sched r'.sched := by
  obtain ⟨hconfig, hconf⟩ := computeSplitConfig_renumbered (P := P) hs task
  unfold submitPrepare
  dsimp only
  rw [hs.tasks.isSome, hconfig, hconf.callbacks]
  split
  · exact ⟨rfl, rfl, rfl, hs⟩
  · split
    · exact ⟨rfl, rfl, rfl, hconf⟩
    · split
      · split
        · exact ⟨rfl, rfl, rfl, hconf⟩
        · split
          · exact ⟨rfl, rfl, rfl, hconf⟩
          · next estimated _ =>
            have henqueue := enqueueTaskLocked_renumbered (P := P) (E := E) hconf estimated c
            exact ⟨henqueue.rc, rfl, henqueue.cursor, henqueue.sched⟩
      · split
        · exact ⟨rfl, rfl, rfl, hconf⟩
        · split
          · exact ⟨rfl, rfl, rfl, hconf⟩
          · exact ⟨rfl, rfl, rfl, hconf⟩

theorem submitFinish_renumbered (hs : Renumbered s s') (plan : SubmitPlan)
    (answers : CallbackAnswers) (c : Cursor) :
    StepsRenumbered (submitFinish P E s plan answers c) (submitFinish P E s' plan answers c) := by
  cases plan with
  | estimate task =>
    obtain ⟨hconfig, hconf⟩ := computeSplitConfig_renumbered (P := P) hs task
    unfold submitFinish
    dsimp only
    rw [hs.tasks.isSome, hconfig]
    split
    · exact ⟨rfl, rfl, hs⟩
    · split
      · exact ⟨rfl, rfl, hs⟩
      · split
        · exact ⟨rfl, rfl, hconf⟩
        · split
          · exact ⟨rfl, rfl, hconf⟩
          · exact enqueueTaskLocked_renumbered hconf _ c
  | split task config children hasEstimateCost =>
    obtain ⟨hconfig, hconf⟩ := computeSplitConfig_renumbered (P := P) hs task
    unfold submitFinish
    dsimp only
    rw [hs.tasks.isSome, hconfig]
    split
    · exact ⟨rfl, rfl, hs⟩
    · split
      · exact ⟨rfl, rfl, hs⟩
      · rw [validateChildTasks_sameRecords hconf.tasks]
        split
        · exact ⟨rfl, rfl, hs⟩
        · split
          · exact ⟨rfl, rfl, hconf⟩
          · split
            · exact ⟨rfl, rfl, hconf⟩
            · split
              · exact ⟨rfl, rfl, hconf⟩
              · exact submitSplitTaskLocked_renumbered hconf _ _ _

theorem submitTask_renumbered (hs : Renumbered s s') (task : TaskDesc) (answers : CallbackAnswers)
    (c : Cursor) :
    StepsRenumbered (submitTask P E s task answers c) (submitTask P E s' task answers c) := by
  obtain ⟨hrc, hplan, hcur, hsched⟩ := submitPrepare_renumbered (P := P) (E := E) hs task c
  unfold submitTask
  dsimp only
  rw [hplan, hcur, hrc]
  split
  · exact ⟨rfl, rfl, hsched⟩
  · exact submitFinish_renumbered hsched _ answers _

/-! ### The other operations -/

theorem OpsRenumbered.unchanged (hs : Renumbered s s') (rc : Rc) :
    OpsRenumbered ⟨rc, s, none⟩ ⟨rc, s', none⟩ := ⟨rfl, rfl, hs⟩

theorem schedSelectNext_renumbered (hs : Renumbered s s') :
    OpsRenumbered (schedSelectNext P E s c) (schedSelectNext P E s' c) := by
  have hsame := hs
  obtain ⟨tasks, next, ht, rfl⟩ := hs
  unfold schedSelectNext
  dsimp only
  cases hpolicy : s.policy with
  | none =>
    rw [hpolicy] at hsame
    exact .unchanged hsame _
  | some π =>
    dsimp only
    split
    · exact ⟨rfl, rfl, _, _, ht, rfl⟩
    · unfold taskTableFind
      rcases ht.find ((P π.1).selectNext E π.2 c).taskId with ⟨hr, hr'⟩ | ⟨record, n, hr, hr'⟩
      · rw [hr, hr']
        exact ⟨rfl, rfl, _, _, ht, rfl⟩
      · rw [hr, hr']
        dsimp only
        split
        · exact ⟨rfl, rfl, _, _, ht, rfl⟩
        · exact ⟨rfl, rfl, _, _, ht.setState _ _, rfl⟩

theorem taskUpdatePriority_renumbered (hs : Renumbered s s') (id : TaskId) (priority : Int64) :
    OpsRenumbered (taskUpdatePriority P E s id priority c)
      (taskUpdatePriority P E s' id priority c) := by
  have hsame := hs
  obtain ⟨tasks, next, ht, rfl⟩ := hs
  unfold taskUpdatePriority taskTableFind
  dsimp only
  rcases ht.find id with ⟨hr, hr'⟩ | ⟨record, n, hr, hr'⟩
  · rw [hr, hr']
    exact .unchanged hsame _
  · rw [hr, hr']
    dsimp only
    have hchanged := ht.update id { record with desc := { record.desc with priority := priority } } n
    split
    · exact .unchanged hsame _
    · cases s.policy with
      | none => exact ⟨rfl, rfl, _, _, hchanged, rfl⟩
      | some π =>
        dsimp only
        split
        · exact ⟨rfl, rfl, _, _, ht, rfl⟩
        · exact ⟨rfl, rfl, _, _, hchanged, rfl⟩

theorem taskStarted_renumbered (hs : Renumbered s s') (id : TaskId) :
    OpsRenumbered (taskStarted P E s id c) (taskStarted P E s' id c) := by
  have hsame := hs
  obtain ⟨tasks, next, ht, rfl⟩ := hs
  unfold taskStarted taskTableFind
  dsimp only
  rcases ht.find id with ⟨hr, hr'⟩ | ⟨record, n, hr, hr'⟩
  · rw [hr, hr']
    exact .unchanged hsame _
  · rw [hr, hr']
    dsimp only
    have hrunning := ht.setState id .running
    split
    · exact .unchanged hsame _
    · split
      · exact .unchanged hsame _
      · cases s.policy with
        | none => exact ⟨rfl, rfl, _, _, hrunning, rfl⟩
        | some π =>
          dsimp only
          split
          · exact ⟨rfl, rfl, _, _, hrunning.setState id record.state, rfl⟩
          · exact ⟨rfl, rfl, _, _, hrunning, rfl⟩

theorem finishTask_renumbered (hs : Renumbered s s') (id : TaskId) (state : TaskState) :
    OpsRenumbered (finishTask P E s id state c) (finishTask P E s' id state c) := by
  have hsame := hs
  obtain ⟨tasks, next, ht, rfl⟩ := hs
  unfold finishTask taskTableFind
  dsimp only
  rcases ht.find id with ⟨hr, hr'⟩ | ⟨record, n, hr, hr'⟩
  · rw [hr, hr']
    exact .unchanged hsame _
  · rw [hr, hr']
    dsimp only
    have hfinished := (ht.setState id state).updateParent record n state
    split
    · exact .unchanged hsame _
    · split
      · exact .unchanged hsame _
      · split
        · exact .unchanged hsame _
        · cases s.policy with
          | none => exact ⟨rfl, rfl, _, _, hfinished, rfl⟩
          | some π => exact ⟨rfl, rfl, _, _, hfinished, rfl⟩

/-- A replay hands on the descriptors of the records. -/
theorem replayQueued_congr (n : ν) {records records' : List TaskRecord}
    (h : records'.map TaskRecord.desc = records.map TaskRecord.desc) (state : σ n) (c : Cursor) :
    replayQueued P E n state records' c = replayQueued P E n state records c := by
  induction records generalizing records' state c with
  | nil => rw [List.map_eq_nil_iff.1 h]
  | cons record rest ih =>
    obtain ⟨record', rest', rfl, hdesc, hrest⟩ := List.map_eq_cons_iff.1 h
    unfold replayQueued
    rw [hdesc]
    dsimp only
    split
    · rfl
    · exact ih hrest _ _

variable [DecidableEq ν]

theorem setPolicy_renumbered (hs : Renumbered s s') (name : ν) (options : KvArray) :
    OpsRenumbered (setPolicy P E s name options c) (setPolicy P E s' name options c) := by
  have hsame := hs
  obtain ⟨tasks, next, ht, rfl⟩ := hs
  unfold setPolicy
  dsimp only
  split
  · exact .unchanged hsame _
  · split
    · exact .unchanged hsame _
    · split
      · exact .unchanged hsame _
      · rw [replayQueued_congr name ht.queued]
        split
        · exact .unchanged hsame _
        · exact ⟨rfl, rfl, _, _, ht, rfl⟩

/-- **An operation answers both alike**, and leaves schedulers that differ in enqueue
numbers only. -/
theorem step_renumbered (hs : Renumbered s s') (op : Op ν) :
    OpsRenumbered (step P s E op) (step P s' E op) := by
  cases op with
  | setCallbacks callbacks =>
    obtain ⟨tasks, next, ht, rfl⟩ := hs
    exact ⟨rfl, rfl, _, _, ht, rfl⟩
  | loadPlugin name valid =>
    have hsame := hs
    obtain ⟨tasks, next, ht, rfl⟩ := hs
    show OpsRenumbered (loadPlugin E s name valid .start) (loadPlugin E _ name valid .start)
    unfold loadPlugin
    split
    · exact .unchanged hsame _
    · exact ⟨rfl, rfl, _, _, ht, rfl⟩
  | setPolicy name options => exact setPolicy_renumbered hs name options
  | submitTask task answers => exact (submitTask_renumbered hs task answers _).done
  | submitBegin task =>
    obtain ⟨hrc, -, -, hsched⟩ := submitPrepare_renumbered (P := P) (E := E) hs task .start
    exact ⟨hrc, rfl, hsched⟩
  | submitEnd plan answers => exact (submitFinish_renumbered hs plan answers _).done
  | selectNext => exact schedSelectNext_renumbered hs
  | taskUpdatePriority id priority => exact taskUpdatePriority_renumbered hs id priority
  | taskStarted id => exact taskStarted_renumbered hs id
  | taskCompleted id => exact finishTask_renumbered hs id .completed
  | taskFailed id => exact finishTask_renumbered hs id .failed
  | taskCancelled id => exact finishTask_renumbered hs id .cancelled

/-- **Enqueue numbers cannot be told**: every run returns the same from both. -/
theorem replies_renumbered (hs : Renumbered s s') (is : List (Env × Op ν)) :
    replies P s is = replies P s' is := by
  have hstep : ∀ s s' i, Renumbered s s' → True → reply P s i = reply P s' i ∧
      Renumbered (nextState P s i) (nextState P s' i) := by
    intro s s' i hs _
    have h := step_renumbered (P := P) (E := i.1) hs i.2
    exact ⟨by rw [reply, reply, h.rc, h.assignment], h.sched⟩
  exact Foundations.outputs_eq hstep hs fun _ _ => trivial

end Operations

end QhwScheduler
