import QhwScheduler.Core.Lifecycle

/-!
# Policies in lockstep

When two policies answer every hook alike, nobody can tell the schedulers apart
that they serve.

* `Lockstep` — two families of policy states whose hooks answer alike, up to the
  cursors they leave behind.
* `Twins` — two schedulers that differ in the state of their policy only.
* `setPolicy_agree` — two policies that are set on one scheduler make twins.
* `step_twins` — an operation answers both alike, and they stay twins or become
  equal.
* `replies`, `replies_twins` — all answers of a run.
-/

namespace QhwScheduler

variable {ν : Type} {σ : ν → Type}

/-! ## Policies that answer alike -/

/-- The allocator answers alike at both cursors, and goes on to do so. -/
structure Paces (E : Env) (C : Cursor → Cursor → Prop) : Prop where
  start : C .start .start
  answer : ∀ {c c'}, C c c' → E.alloc c.allocs = E.alloc c'.allocs
  next : ∀ {c c'}, C c c' → C c.alloc c'.alloc

/-- Two hooks returned the same code, and related states and cursors. -/
structure HooksAgree (C : Cursor → Cursor → Prop) (Q : Sigma σ → Sigma σ → Prop) {n n' : ν}
    (r : HookResult (σ n)) (r' : HookResult (σ n')) : Prop where
  rc : r.rc = r'.rc
  state : Q ⟨n, r.state⟩ ⟨n', r'.state⟩
  cursor : C r.cursor r'.cursor

/-- Two policies refuse their options with the same code, or accept them and start
out in related states. -/
def InitsAgree (C : Cursor → Cursor → Prop) (Q : Sigma σ → Sigma σ → Prop) {n n' : ν}
    (r : InitResult (σ n)) (r' : InitResult (σ n')) : Prop :=
  (∃ rc, r.outcome = .error rc ∧ r'.outcome = .error rc) ∨
    ∃ state state', r.outcome = .ok state ∧ r'.outcome = .ok state' ∧
      Q ⟨n, state⟩ ⟨n', state'⟩ ∧ C r.cursor r'.cursor

/-- From related states all hooks return the same and leave related states, in
environments of a kind.  The scheduler reports changed priorities of tasks only that the
policy holds. -/
structure Lockstep (P : ∀ n, PluginDesc (σ n)) (Good : Env → Prop) (C : Cursor → Cursor → Prop)
    (Q : Sigma σ → Sigma σ → Prop) (Held : Sigma σ → TaskId → Prop) : Prop where
  paces : ∀ {E}, Good E → Paces E C
  submit : ∀ {E π π' c c'} task, Good E → Q π π' → C c c' →
    HooksAgree C Q ((P π.1).onTaskSubmit E π.2 task c) ((P π'.1).onTaskSubmit E π'.2 task c')
  select : ∀ {E π π' c c'}, Good E → Q π π' → C c c' →
    let r := (P π.1).selectNext E π.2 c
    let r' := (P π'.1).selectNext E π'.2 c'
    r.rc = r'.rc ∧ (r.rc = .ok → r.taskId = r'.taskId) ∧ Q ⟨π.1, r.state⟩ ⟨π'.1, r'.state⟩
  config : ∀ {π π'} config, Q π π' →
    let r := (P π.1).getSplitConfig config π.2
    let r' := (P π'.1).getSplitConfig config π'.2
    r.rc = r'.rc ∧ r.config = r'.config ∧ Q ⟨π.1, r.state⟩ ⟨π'.1, r'.state⟩
  priorityChanged : ∀ {E π π' c c'} id priority, Good E → Q π π' → Held π id → C c c' →
    HooksAgree C Q ((P π.1).onTaskPriorityChanged E π.2 id priority c)
      ((P π'.1).onTaskPriorityChanged E π'.2 id priority c')
  started : ∀ {E π π' c c'} id, Good E → Q π π' → C c c' →
    HooksAgree C Q ((P π.1).onTaskStarted E π.2 id c) ((P π'.1).onTaskStarted E π'.2 id c')
  finished : ∀ {E π π' c c'} id state, Good E → Q π π' → C c c' →
    HooksAgree C Q ((P π.1).onTaskFinished E π.2 id state c)
      ((P π'.1).onTaskFinished E π'.2 id state c')

/-- The policy holds every queued task. -/
def Holding (Held : Sigma σ → TaskId → Prop) (s : Sched σ) : Prop :=
  ∀ π, s.policy = some π → ∀ id r, taskTableFind s.tasks id = some r → r.state = .queued → Held π id

/-- Two schedulers that differ in the state of their policy only. -/
def Twins (Q : Sigma σ → Sigma σ → Prop) (s s' : Sched σ) : Prop :=
  ∃ π π', Q π π' ∧ s.policy = some π ∧ s' = { s with policy := some π' }

/-- Two parts of an operation ended alike. -/
structure StepsAgree (C : Cursor → Cursor → Prop) (Q : Sigma σ → Sigma σ → Prop)
    (r r' : StepResult σ) : Prop where
  rc : r.rc = r'.rc
  sched : Twins Q r.sched r'.sched
  cursor : C r.cursor r'.cursor

/-! ## The allocator -/

section Paces

variable {E : Env} {C : Cursor → Cursor → Prop} {c c' : Cursor}

theorem taskTableInsert_paces (hE : Paces E C) (hc : C c c') (table : TaskTable) (task : TaskDesc)
    (seq : ℕ) (state : TaskState) :
    let r := taskTableInsertState E table task seq state c
    let r' := taskTableInsertState E table task seq state c'
    r.rc = r'.rc ∧ r.table = r'.table ∧ C r.cursor r'.cursor := by
  have hnext := hE.next hc
  dsimp only
  unfold taskTableInsertState
  rw [hE.answer hc, hE.answer hnext]
  by_cases hvalid : task.taskId = invalidTaskId
  · simp only [hvalid, if_true]
    exact ⟨trivial, trivial, hc⟩
  · rw [if_neg hvalid, if_neg hvalid]
    split
    · exact ⟨rfl, rfl, hnext⟩
    · split
      · exact ⟨rfl, rfl, hnext⟩
      · cases task.metadata with
        | none => exact ⟨rfl, rfl, hnext⟩
        | some kvs =>
          dsimp only
          split
          · exact ⟨rfl, rfl, hnext⟩
          · split
            · exact ⟨rfl, rfl, hE.next hnext⟩
            · have hcopy : C (if kvs.isEmpty then c.alloc else c.alloc.alloc)
                  (if kvs.isEmpty then c'.alloc else c'.alloc.alloc) := by
                split
                · exact hnext
                · exact hE.next hnext
              rw [hE.answer hcopy]
              generalize (if kvs.isEmpty then c.alloc else c.alloc.alloc) = d at hcopy ⊢
              generalize (if kvs.isEmpty then c'.alloc else c'.alloc.alloc) = d' at hcopy ⊢
              split
              · exact ⟨rfl, rfl, hE.next hcopy⟩
              · exact ⟨rfl, rfl, hE.next hcopy⟩

theorem validateChildren_paces (hE : Paces E C) (hc : C c c') (table : TaskTable) (parent : TaskDesc)
    (config : SplitConfig) (n : ℕ) (children : List TaskDesc) (seen : List TaskId)
    (slices : List UInt64) (total : UInt64) :
    let r := validateChildren E table parent config n children seen slices total c
    let r' := validateChildren E table parent config n children seen slices total c'
    r.1 = r'.1 ∧ C r.2 r'.2 := by
  induction children generalizing seen slices total c c' with
  | nil => exact ⟨rfl, hc⟩
  | cons child rest ih =>
    have hnext := hE.next hc
    dsimp only
    unfold validateChildren
    rw [hE.answer hc, hE.answer hnext]
    split
    · exact ⟨rfl, hc⟩
    · split
      · split
        · exact ⟨rfl, hc⟩
        · split
          · split
            · exact ⟨rfl, hc⟩
            · split
              · exact ⟨rfl, hnext⟩
              · split
                · exact ⟨rfl, hE.next hnext⟩
                · exact ih (hE.next hnext) _ _ _
          · exact ⟨rfl, hc⟩
      · exact ⟨rfl, hc⟩

theorem validateChildTasks_paces (hE : Paces E C) (hc : C c c') (table : TaskTable)
    (parent : TaskDesc) (children : List TaskDesc) (config : SplitConfig) :
    let r := validateChildTasks E table parent children config c
    let r' := validateChildTasks E table parent children config c'
    r.1 = r'.1 ∧ C r.2 r'.2 := by
  have hnext := hE.next hc
  dsimp only
  unfold validateChildTasks
  rw [hE.answer hc, hE.answer hnext]
  split
  · exact ⟨rfl, hc⟩
  · split
    · exact ⟨rfl, hnext⟩
    · split
      · exact ⟨rfl, hE.next hnext⟩
      · exact validateChildren_paces hE (hE.next hnext) _ _ _ _ _ _ _ _

end Paces

/-! ## The parts of a submission -/

section Parts

variable {P : ∀ n, PluginDesc (σ n)} {Good : Env → Prop} {C : Cursor → Cursor → Prop}
  {Q : Sigma σ → Sigma σ → Prop} {Held : Sigma σ → TaskId → Prop} {E : Env} {s s' : Sched σ}
  {c c' : Cursor}

theorem computeSplitConfig_twins (hP : Lockstep P Good C Q Held) (hs : Twins Q s s') (task : TaskDesc) :
    (computeSplitConfig P s task).1 = (computeSplitConfig P s' task).1 ∧
      Twins Q (computeSplitConfig P s task).2 (computeSplitConfig P s' task).2 := by
  obtain ⟨π, π', hQ, hpol, rfl⟩ := hs
  obtain ⟨hrc, hconfig, hstate⟩ := hP.config splitConfigInit hQ
  obtain ⟨n, state⟩ := π
  obtain ⟨n', state'⟩ := π'
  simp only [computeSplitConfig, getPolicySplitConfig, hpol]
  dsimp only at hrc hconfig hstate
  rw [← hrc, ← hconfig]
  have htwins : Twins Q
      { s with policy := some ⟨n, ((P n).getSplitConfig splitConfigInit state).state⟩ }
      { s with policy := some ⟨n', ((P n').getSplitConfig splitConfigInit state').state⟩ } :=
    ⟨_, _, hstate, rfl, rfl⟩
  cases ((P n).getSplitConfig splitConfigInit state).rc with
  | ok => exact ⟨rfl, htwins⟩
  | _ => exact ⟨rfl, htwins⟩

theorem enqueueTaskLocked_twins (hP : Lockstep P Good C Q Held) (hE : Good E) (hs : Twins Q s s')
    (hc : C c c') (task : TaskDesc) :
    StepsAgree C Q (enqueueTaskLocked P E s task c) (enqueueTaskLocked P E s' task c') := by
  obtain ⟨π, π', hQ, hpol, rfl⟩ := hs
  obtain ⟨hrc, htable, hcur⟩ := taskTableInsert_paces (hP.paces hE) hc s.tasks task s.enqueueSeqNext
    .queued
  unfold enqueueTaskLocked taskTableInsert
  dsimp only
  rw [← hrc, ← htable]
  split
  · exact ⟨rfl, ⟨π, π', hQ, hpol, rfl⟩, hcur⟩
  · have hhook := hP.submit task hE hQ hcur
    rw [hpol]
    dsimp only
    rw [← hhook.rc]
    split
    · exact ⟨rfl, ⟨_, _, hhook.state, rfl, rfl⟩, hhook.cursor⟩
    · exact ⟨rfl, ⟨_, _, hhook.state, rfl, rfl⟩, hhook.cursor⟩

theorem removeQueuedTaskLocked_twins (hP : Lockstep P Good C Q Held) (hE : Good E) (hs : Twins Q s s')
    (hc : C c c') (id : TaskId) :
    Twins Q (removeQueuedTaskLocked P E s id c).1 (removeQueuedTaskLocked P E s' id c').1 ∧
      C (removeQueuedTaskLocked P E s id c).2 (removeQueuedTaskLocked P E s' id c').2 := by
  obtain ⟨π, π', hQ, hpol, rfl⟩ := hs
  have hhook := hP.finished id .cancelled hE hQ hc
  unfold removeQueuedTaskLocked
  rw [hpol]
  exact ⟨⟨_, _, hhook.state, rfl, rfl⟩, hhook.cursor⟩

theorem removeChildren_twins (hP : Lockstep P Good C Q Held) (hE : Good E) (done : List TaskDesc)
    (hs : Twins Q s s') (hc : C c c') :
    Twins Q (removeChildren P E s done c).1 (removeChildren P E s' done c').1 ∧
      C (removeChildren P E s done c).2 (removeChildren P E s' done c').2 := by
  induction done generalizing s s' c c' with
  | nil => exact ⟨hs, hc⟩
  | cons child earlier ih =>
    obtain ⟨hs, hc⟩ := removeQueuedTaskLocked_twins hP hE hs hc child.taskId
    exact ih hs hc

theorem enqueueChildren_twins (hP : Lockstep P Good C Q Held) (hE : Good E) (rest done : List TaskDesc)
    (hs : Twins Q s s') (hc : C c c') :
    StepsAgree C Q (enqueueChildren P E s done rest c) (enqueueChildren P E s' done rest c') := by
  induction rest generalizing s s' c c' done with
  | nil => exact ⟨rfl, hs, hc⟩
  | cons child rest ih =>
    have hstep := enqueueTaskLocked_twins hP hE hs hc child
    unfold enqueueChildren
    dsimp only
    rw [← hstep.rc]
    split
    · obtain ⟨hback, hcur⟩ := removeChildren_twins hP hE done hstep.sched hstep.cursor
      exact ⟨rfl, hback, hcur⟩
    · exact ih (child :: done) hstep.sched hstep.cursor

theorem Twins.tasks (hs : Twins Q s s') : s'.tasks = s.tasks := by
  obtain ⟨π, π', -, -, rfl⟩ := hs
  rfl

/-- Twins stay twins when the same happens to their tables. -/
theorem Twins.withTasks (hs : Twins Q s s') (tasks : TaskTable) :
    Twins Q { s with tasks := tasks } { s' with tasks := tasks } := by
  obtain ⟨π, π', hQ, hpol, rfl⟩ := hs
  exact ⟨π, π', hQ, hpol, rfl⟩

theorem submitSplitTaskLocked_twins (hP : Lockstep P Good C Q Held) (hE : Good E) (hs : Twins Q s s')
    (hc : C c c') (parent : TaskDesc) (children : List TaskDesc) :
    StepsAgree C Q (submitSplitTaskLocked P E s parent children c)
      (submitSplitTaskLocked P E s' parent children c') := by
  obtain ⟨π, π', hQ, hpol, rfl⟩ := hs
  obtain ⟨hrc, htable, hcur⟩ := taskTableInsert_paces (hP.paces hE) hc s.tasks parent
    s.enqueueSeqNext .waiting
  unfold submitSplitTaskLocked
  dsimp only
  rw [← hrc, ← htable]
  split
  · exact ⟨rfl, ⟨π, π', hQ, hpol, rfl⟩, hcur⟩
  · split
    · exact ⟨rfl, ⟨π, π', hQ, hpol, rfl⟩, hcur⟩
    · next record _ =>
      have hchildren := enqueueChildren_twins hP hE children []
        (s := { s with
          tasks := (taskTableInsertState E s.tasks parent s.enqueueSeqNext .waiting c).table.update
            parent.taskId { record with childCount := children.length }
          enqueueSeqNext := s.enqueueSeqNext + 1 })
        ⟨π, π', hQ, hpol, rfl⟩ hcur
      rw [← hchildren.rc]
      split
      · refine ⟨rfl, ?_, hchildren.cursor⟩
        rw [hchildren.sched.tasks]
        exact hchildren.sched.withTasks _
      · exact hchildren

theorem Twins.find (hs : Twins Q s s') (id : TaskId) :
    taskTableFind s'.tasks id = taskTableFind s.tasks id := by
  rw [hs.tasks]

theorem Twins.callbacks (hs : Twins Q s s') : s'.callbacks = s.callbacks := by
  obtain ⟨π, π', -, -, rfl⟩ := hs
  rfl

theorem submitFinish_twins (hP : Lockstep P Good C Q Held) (hE : Good E) (hs : Twins Q s s')
    (hc : C c c') (plan : SubmitPlan) (answers : CallbackAnswers) :
    StepsAgree C Q (submitFinish P E s plan answers c) (submitFinish P E s' plan answers c') := by
  cases plan with
  | estimate task =>
    obtain ⟨hconfig, hconf⟩ := computeSplitConfig_twins hP hs task
    unfold submitFinish
    dsimp only
    rw [hs.find, ← hconfig]
    split
    · exact ⟨rfl, hs, hc⟩
    · split
      · exact ⟨rfl, hs, hc⟩
      · split
        · exact ⟨rfl, hconf, hc⟩
        · split
          · exact ⟨rfl, hconf, hc⟩
          · exact enqueueTaskLocked_twins hP hE hconf hc _
  | split task config children hasEstimateCost =>
    obtain ⟨hconfig, hconf⟩ := computeSplitConfig_twins hP hs task
    unfold submitFinish
    dsimp only
    rw [hs.find, ← hconfig, hconf.tasks]
    split
    · exact ⟨rfl, hs, hc⟩
    · split
      · exact ⟨rfl, hs, hc⟩
      · next children _ =>
        obtain ⟨hvalid, hcur⟩ := validateChildTasks_paces (hP.paces hE) hc
          (computeSplitConfig P s task).2.tasks task children config
        rw [← hvalid]
        split
        · exact ⟨rfl, hs, hc⟩
        · split
          · exact ⟨rfl, hconf, hc⟩
          · split
            · exact ⟨rfl, hconf, hc⟩
            · split
              · exact ⟨rfl, hconf, hcur⟩
              · exact submitSplitTaskLocked_twins hP hE hconf hcur _ _

/-- The first critical section of a submission. -/
theorem submitPrepare_twins (hP : Lockstep P Good C Q Held) (hE : Good E) (hs : Twins Q s s')
    (hc : C c c') (task : TaskDesc) :
    let r := submitPrepare P E s task c
    let r' := submitPrepare P E s' task c'
    r.rc = r'.rc ∧ r.plan = r'.plan ∧ Twins Q r.sched r'.sched ∧ C r.cursor r'.cursor := by
  obtain ⟨hconfig, hconf⟩ := computeSplitConfig_twins hP hs task
  dsimp only
  unfold submitPrepare
  dsimp only
  rw [hs.find, ← hconfig, hconf.callbacks, (hP.paces hE).answer hc]
  split
  · exact ⟨rfl, rfl, hs, hc⟩
  · split
    · exact ⟨rfl, rfl, hconf, hc⟩
    · split
      · split
        · exact ⟨rfl, rfl, hconf, hc⟩
        · split
          · exact ⟨rfl, rfl, hconf, hc⟩
          · next estimated _ =>
            have henq := enqueueTaskLocked_twins hP hE hconf hc estimated
            exact ⟨henq.rc, rfl, henq.sched, henq.cursor⟩
      · split
        · exact ⟨rfl, rfl, hconf, hc⟩
        · split
          · exact ⟨rfl, rfl, hconf, (hP.paces hE).next hc⟩
          · exact ⟨rfl, rfl, hconf, (hP.paces hE).next hc⟩

theorem submitTask_twins (hP : Lockstep P Good C Q Held) (hE : Good E) (hs : Twins Q s s')
    (hc : C c c') (task : TaskDesc) (answers : CallbackAnswers) :
    StepsAgree C Q (submitTask P E s task answers c) (submitTask P E s' task answers c') := by
  obtain ⟨hrc, hplan, hsched, hcur⟩ := submitPrepare_twins hP hE hs hc task
  unfold submitTask
  dsimp only
  rw [← hplan]
  split
  · exact ⟨hrc, hsched, hcur⟩
  · exact submitFinish_twins hP hE hsched hcur _ _

end Parts

/-! ## Operations -/

/-- Two operations returned the same, and the schedulers are twins, or equal. -/
structure OpsAgree (Q : Sigma σ → Sigma σ → Prop) (r r' : OpResult σ) : Prop where
  rc : r.rc = r'.rc
  assignment : r.assignment = r'.assignment
  sched : Twins Q r.sched r'.sched ∨ r.sched = r'.sched

section Operations

variable {P : ∀ n, PluginDesc (σ n)} {Good : Env → Prop} {C : Cursor → Cursor → Prop}
  {Q : Sigma σ → Sigma σ → Prop} {Held : Sigma σ → TaskId → Prop} {E : Env} {s s' : Sched σ}
  {c c' : Cursor}

theorem OpsAgree.refl (r : OpResult σ) : OpsAgree Q r r := ⟨rfl, rfl, Or.inr rfl⟩

theorem StepsAgree.done {r r' : StepResult σ} (h : StepsAgree C Q r r') :
    OpsAgree Q r.done r'.done := ⟨h.rc, rfl, Or.inl h.sched⟩

/-- An operation that failed before it reached the policy. -/
theorem Twins.unchanged (hs : Twins Q s s') (rc : Rc) :
    OpsAgree Q (⟨rc, s, none⟩ : OpResult σ) ⟨rc, s', none⟩ := ⟨rfl, rfl, Or.inl hs⟩

theorem schedSelectNext_twins (hP : Lockstep P Good C Q Held) (hE : Good E) (hs : Twins Q s s')
    (hc : C c c') : OpsAgree Q (schedSelectNext P E s c) (schedSelectNext P E s' c') := by
  obtain ⟨π, π', hQ, hpol, rfl⟩ := hs
  obtain ⟨hrc, hid, hstate⟩ := hP.select hE hQ hc
  unfold schedSelectNext
  rw [hpol]
  dsimp only
  rw [← hrc]
  split
  · exact ⟨rfl, rfl, Or.inl ⟨_, _, hstate, rfl, rfl⟩⟩
  · next hok =>
    rw [← hid (not_not.1 hok)]
    split
    · exact ⟨rfl, rfl, Or.inl ⟨_, _, hstate, rfl, rfl⟩⟩
    · split
      · exact ⟨rfl, rfl, Or.inl ⟨_, _, hstate, rfl, rfl⟩⟩
      · exact ⟨rfl, rfl, Or.inl ⟨_, _, hstate, rfl, rfl⟩⟩

theorem taskUpdatePriority_twins (hP : Lockstep P Good C Q Held) (hE : Good E) (hs : Twins Q s s')
    (hheld : Holding Held s) (hc : C c c') (id : TaskId) (priority : Int64) :
    OpsAgree Q (taskUpdatePriority P E s id priority c) (taskUpdatePriority P E s' id priority c') := by
  have hsame := hs
  obtain ⟨π, π', hQ, hpol, rfl⟩ := hs
  unfold taskUpdatePriority
  dsimp only
  rw [hpol]
  dsimp only
  split
  · exact hsame.unchanged _
  · next r hr =>
    split
    · exact hsame.unchanged _
    · next hq =>
      have hhook := hP.priorityChanged id priority hE hQ (hheld π hpol id r hr (not_not.1 hq)) hc
      rw [← hhook.rc]
      split
      · exact ⟨rfl, rfl, Or.inl ⟨_, _, hhook.state, rfl, rfl⟩⟩
      · exact ⟨rfl, rfl, Or.inl ⟨_, _, hhook.state, rfl, rfl⟩⟩

theorem taskStarted_twins (hP : Lockstep P Good C Q Held) (hE : Good E) (hs : Twins Q s s')
    (hc : C c c') (id : TaskId) :
    OpsAgree Q (taskStarted P E s id c) (taskStarted P E s' id c') := by
  have hsame := hs
  obtain ⟨π, π', hQ, hpol, rfl⟩ := hs
  have hhook := hP.started id hE hQ hc
  unfold taskStarted
  dsimp only
  rw [hpol]
  dsimp only
  rw [← hhook.rc]
  simp only [Option.isSome_some, or_true, and_true]
  split
  · exact hsame.unchanged _
  · split
    · exact hsame.unchanged _
    · split
      · exact hsame.unchanged _
      · split
        · exact ⟨rfl, rfl, Or.inl ⟨_, _, hhook.state, rfl, rfl⟩⟩
        · exact ⟨rfl, rfl, Or.inl ⟨_, _, hhook.state, rfl, rfl⟩⟩

theorem finishTask_twins (hP : Lockstep P Good C Q Held) (hE : Good E) (hs : Twins Q s s')
    (hc : C c c') (id : TaskId) (state : TaskState) :
    OpsAgree Q (finishTask P E s id state c) (finishTask P E s' id state c') := by
  have hsame := hs
  obtain ⟨π, π', hQ, hpol, rfl⟩ := hs
  have hhook := hP.finished id state hE hQ hc
  unfold finishTask
  dsimp only
  rw [hpol]
  dsimp only
  rw [← hhook.rc]
  split
  · exact hsame.unchanged _
  · split
    · exact hsame.unchanged _
    · split
      · exact hsame.unchanged _
      · split
        · exact hsame.unchanged _
        · exact ⟨rfl, rfl, Or.inl ⟨_, _, hhook.state, rfl, rfl⟩⟩

variable [DecidableEq ν]

/-- The policy that is set is built from the records, which twins share; so a
change of the policy makes them equal, or leaves them as they were. -/
theorem setPolicy_twins (hs : Twins Q s s') (name : ν) (options : KvArray) :
    OpsAgree Q (setPolicy P E s name options c) (setPolicy P E s' name options c) := by
  have hsame := hs
  obtain ⟨π, π', hQ, hpol, rfl⟩ := hs
  unfold setPolicy
  dsimp only
  split
  · exact hsame.unchanged _
  · split
    · exact hsame.unchanged _
    · split
      · exact hsame.unchanged _
      · split
        · exact hsame.unchanged _
        · exact ⟨rfl, rfl, Or.inr rfl⟩

omit [DecidableEq ν] in
/-- A table is replayed into two policies alike. -/
theorem replayQueued_agree (hP : Lockstep P Good C Q Held) (hE : Good E) {n n' : ν} {state : σ n}
    {state' : σ n'} (hQ : Q ⟨n, state⟩ ⟨n', state'⟩) (hc : C c c') (records : List TaskRecord) :
    HooksAgree C Q (replayQueued P E n state records c) (replayQueued P E n' state' records c') := by
  induction records generalizing state state' c c' with
  | nil => exact ⟨rfl, hQ, hc⟩
  | cons record rest ih =>
    have hhook := hP.submit record.desc hE hQ hc
    unfold replayQueued
    dsimp only at hhook ⊢
    rw [← hhook.rc]
    split
    · exact hhook
    · exact ih hhook.state hhook.cursor

/-- **Two policies set on one scheduler** give the same code, and twins, when both
refuse their options with the same code or both accept them and start out related. -/
theorem setPolicy_agree (hP : Lockstep P Good C Q Held) (hE : Good E) {name name' : ν}
    {options options' : List Kv} (hname : name ∈ s.plugins.items) (hname' : name' ∈ s.plugins.items)
    (hinit : InitsAgree C Q ((P name).init E (some options) .start)
      ((P name').init E (some options') .start)) :
    OpsAgree Q (setPolicy P E s name (some options) .start)
      (setPolicy P E s name' (some options') .start) := by
  unfold setPolicy
  rw [if_neg (not_not.2 hname), if_neg (not_not.2 hname'), if_neg nofun, if_neg nofun]
  dsimp only
  generalize (P name).init E (some options) .start = r at hinit ⊢
  generalize (P name').init E (some options') .start = r' at hinit ⊢
  obtain ⟨outcome, c⟩ := r
  obtain ⟨outcome', c'⟩ := r'
  rcases hinit with ⟨rc, h, h'⟩ | ⟨state, state', h, h', hQ, hc⟩
  · dsimp only at h h'
    subst h h'
    exact OpsAgree.refl _
  · dsimp only at h h' hc
    subst h h'
    have hreplay := replayQueued_agree hP hE hQ hc (taskTableQueued s.tasks)
    dsimp only
    rw [← hreplay.rc]
    split
    · exact OpsAgree.refl _
    · exact ⟨rfl, rfl, Or.inl ⟨_, _, hreplay.state, rfl, rfl⟩⟩

/-- **An operation answers twins alike**, and they stay twins or become equal. -/
theorem step_twins (hP : Lockstep P Good C Q Held) (hE : Good E) (hs : Twins Q s s')
    (hheld : Holding Held s) (op : Op ν) : OpsAgree Q (step P s E op) (step P s' E op) := by
  have hstart := (hP.paces hE).start
  cases op with
  | setCallbacks callbacks =>
    obtain ⟨π, π', hQ, hpol, rfl⟩ := hs
    exact ⟨rfl, rfl, Or.inl ⟨π, π', hQ, hpol, rfl⟩⟩
  | loadPlugin name valid =>
    have hsame := hs
    obtain ⟨π, π', hQ, hpol, rfl⟩ := hs
    show OpsAgree Q (loadPlugin E s name valid .start) (loadPlugin E _ name valid .start)
    unfold loadPlugin
    split
    · exact hsame.unchanged _
    · exact ⟨rfl, rfl, Or.inl ⟨π, π', hQ, hpol, rfl⟩⟩
  | setPolicy name options => exact setPolicy_twins hs name options
  | submitTask task answers => exact (submitTask_twins hP hE hs hstart task answers).done
  | submitBegin task =>
    obtain ⟨hrc, -, hsched, -⟩ := submitPrepare_twins hP hE hs hstart task
    exact ⟨hrc, rfl, Or.inl hsched⟩
  | submitEnd plan answers => exact (submitFinish_twins hP hE hs hstart plan answers).done
  | selectNext => exact schedSelectNext_twins hP hE hs hstart
  | taskUpdatePriority id priority => exact taskUpdatePriority_twins hP hE hs hheld hstart id priority
  | taskStarted id => exact taskStarted_twins hP hE hs hstart id
  | taskCompleted id => exact finishTask_twins hP hE hs hstart id .completed
  | taskFailed id => exact finishTask_twins hP hE hs hstart id .failed
  | taskCancelled id => exact finishTask_twins hP hE hs hstart id .cancelled

/-! ## Runs -/

/-- What an operation returns: its code, and the assignment of a selection. -/
def reply (P : ∀ n, PluginDesc (σ n)) (s : Sched σ) (i : Env × Op ν) : Rc × Option Assignment :=
  ((step P s i.1 i.2).rc, (step P s i.1 i.2).assignment)

/-- Everything a run of operations returns. -/
def replies (P : ∀ n, PluginDesc (σ n)) (s : Sched σ) (is : List (Env × Op ν)) :
    List (Rc × Option Assignment) :=
  Foundations.outputs (nextState P) (reply P) s is

/-- **Twins cannot be told apart**: every run returns the same from both, as long as the
policy of the one holds its queued tasks. -/
theorem replies_twins (hP : Lockstep P Good C Q Held) (Inv : Sched σ → Prop)
    (hheld : ∀ s, Inv s → Holding Held s)
    (hinv : ∀ s i, Good i.1 → Inv s → Inv (nextState P s i)) (hstart : Inv s)
    (hs : Twins Q s s' ∨ s = s') {is : List (Env × Op ν)} (his : ∀ i ∈ is, Good i.1) :
    replies P s is = replies P s' is := by
  refine Foundations.outputs_eq (R := fun s s' => Inv s ∧ (Twins Q s s' ∨ s = s')) ?_ ⟨hstart, hs⟩ his
  rintro s s' i ⟨hs, htwins | rfl⟩ hE
  · have hagree := step_twins hP hE htwins (hheld s hs) i.2
    refine ⟨?_, hinv s i hE hs, hagree.sched⟩
    show ((step P s i.1 i.2).rc, (step P s i.1 i.2).assignment) = _
    rw [hagree.rc, hagree.assignment]
    rfl
  · exact ⟨rfl, hinv s i hE hs, Or.inr rfl⟩

end Operations

end QhwScheduler
