import QhwScheduler.Core.Scheduler
import QhwScheduler.Foundations.Run

/-!
# The lifecycle of tasks

What an operation does to the task table and the QPU, whatever the plugins
answer: nothing, or one of six events.

* `Ledger` — the table and the QPU; `Event`, `Event.apply`, `Event.Allowed` — the
  events, what they do and when they can happen.
* `step_event` — every operation amounts to one allowed event; in particular a
  submission that fails leaves the ledger as it was.
* `Event.ok_apply` — events keep the table invariant.
-/

namespace QhwScheduler

/-- The part of a scheduler that plugins cannot reach. -/
@[ext] structure Ledger where
  tasks : TaskTable
  qpu : Qpu

/-- The ledger of a scheduler. -/
def Sched.ledger {ν : Type} {σ : ν → Type} (s : Sched σ) : Ledger := ⟨s.tasks, s.qpu⟩

/-- A task enters the queue. -/
def Ledger.accept (L : Ledger) (task : TaskDesc) (seq : ℕ) : Ledger where
  tasks := L.tasks.insert { desc := task, state := .queued, enqueueSeq := seq }
  qpu := qpuRuntimeTaskQueued L.qpu

/-- Several tasks enter the queue. -/
def Ledger.acceptAll (L : Ledger) (seq : ℕ) : List TaskDesc → Ledger
  | [] => L
  | task :: rest => (L.accept task seq).acceptAll (seq + 1) rest

/-- The record of a split parent. -/
def parentRecord (parent : TaskDesc) (seq childCount : ℕ) : TaskRecord :=
  { desc := parent, state := .waiting, enqueueSeq := seq, childCount := childCount }

/-- What can happen to a ledger. -/
inductive Event where
  | idle
  | accept (task : TaskDesc) (seq : ℕ)
  | acceptSplit (parent : TaskDesc) (children : List TaskDesc) (seq : ℕ)
  | assign (id : TaskId)
  | reprioritize (id : TaskId) (priority : Int64)
  | start (id : TaskId)
  | finish (id : TaskId) (state : TaskState)

/-- An effect on the record of one task. -/
def Ledger.on (L : Ledger) (id : TaskId) (f : TaskRecord → Ledger) : Ledger :=
  match taskTableFind L.tasks id with
  | none => L
  | some record => f record

theorem on_of_find {L : Ledger} {id : TaskId} {r : TaskRecord} {f : TaskRecord → Ledger}
    (h : taskTableFind L.tasks id = some r) : L.on id f = f r := by
  simp [Ledger.on, h]

/-- The QPU once a task with this record left the queue, if it was in it. -/
def qpuLeave (qpu : Qpu) (record : TaskRecord) : Qpu :=
  if record.state = .queued then qpuRuntimeTaskUnqueued qpu else qpu

section

variable (qpu : Qpu) (r : TaskRecord)

@[simp] theorem qpuLeave_runningTaskId :
    (qpuLeave qpu r).runtime.runningTaskId = qpu.runtime.runningTaskId := by
  unfold qpuLeave
  split <;> simp

@[simp] theorem qpuLeave_completedCount :
    (qpuLeave qpu r).runtime.completedCount = qpu.runtime.completedCount := by
  unfold qpuLeave
  split <;> simp

@[simp] theorem qpuLeave_failedCount :
    (qpuLeave qpu r).runtime.failedCount = qpu.runtime.failedCount := by
  unfold qpuLeave
  split <;> simp

@[simp] theorem qpuLeave_cancelledCount :
    (qpuLeave qpu r).runtime.cancelledCount = qpu.runtime.cancelledCount := by
  unfold qpuLeave
  split <;> simp

end

/-- What an event does. -/
def Event.apply (L : Ledger) : Event → Ledger
  | .idle => L
  | .accept task seq => L.accept task seq
  | .acceptSplit parent children seq =>
    Ledger.acceptAll ⟨L.tasks.insert (parentRecord parent seq children.length), L.qpu⟩ (seq + 1)
      children
  | .assign id => L.on id fun r =>
    ⟨L.tasks.update id { r with state := .assigned }, qpuRuntimeTaskUnqueued L.qpu⟩
  | .reprioritize id priority => L.on id fun r =>
    ⟨L.tasks.update id { r with desc := { r.desc with priority := priority } }, L.qpu⟩
  | .start id => L.on id fun r =>
    ⟨L.tasks.update id { r with state := .running }, qpuLeave (qpuRuntimeTaskStarted L.qpu id).2 r⟩
  | .finish id state => L.on id fun r =>
    ⟨updateParentAfterChildLocked (L.tasks.update id { r with state := state }) r state,
      qpuRuntimeTaskFinished (qpuLeave L.qpu r) id state⟩

/-- When an event can happen. -/
def Event.Allowed (L : Ledger) : Event → Prop
  | .idle => True
  | .accept task _ => taskTableFind L.tasks task.taskId = none ∧ task.taskId ≠ invalidTaskId
  | .acceptSplit parent children _ =>
    taskTableFind L.tasks parent.taskId = none ∧ parent.taskId ≠ invalidTaskId ∧
      ChildrenFresh L.tasks parent children ∧ children ≠ []
  | .assign id => ∃ r, taskTableFind L.tasks id = some r ∧ r.state = .queued
  | .reprioritize id _ => ∃ r, taskTableFind L.tasks id = some r ∧ r.state = .queued
  | .start id => L.qpu.runtime.runningTaskId = invalidTaskId ∧
      ∃ r, taskTableFind L.tasks id = some r ∧ (r.state = .assigned ∨ r.state = .queued)
  | .finish id state => taskStateIsTerminal state ∧
      ∃ r, taskTableFind L.tasks id = some r ∧ taskStateIsTerminal r.state = false ∧
        r.state ≠ .waiting ∧ (state = .completed → r.state = .running)

/-! ## Accepting several tasks -/

section AcceptAll

variable {L : Ledger} {seq : ℕ}

theorem acceptAll_append (xs ys : List TaskDesc) :
    L.acceptAll seq (xs ++ ys) = (L.acceptAll seq xs).acceptAll (seq + xs.length) ys := by
  induction xs generalizing L seq with
  | nil => rfl
  | cons x xs ih =>
    simp only [List.cons_append, Ledger.acceptAll, ih, List.length_cons]
    congr 1
    omega

theorem acceptAll_concat (xs : List TaskDesc) (x : TaskDesc) :
    L.acceptAll seq (xs ++ [x]) = (L.acceptAll seq xs).accept x (seq + xs.length) :=
  acceptAll_append xs [x]

theorem acceptAll_order (children : List TaskDesc) :
    (L.acceptAll seq children).tasks.enqueueOrder =
      L.tasks.enqueueOrder ++ children.map TaskDesc.taskId := by
  induction children generalizing L seq with
  | nil => simp [Ledger.acceptAll]
  | cons x xs ih => simp [Ledger.acceptAll, ih, Ledger.accept]

theorem acceptAll_queuedCount (children : List TaskDesc) :
    (L.acceptAll seq children).qpu.runtime =
      { L.qpu.runtime with queuedCount := L.qpu.runtime.queuedCount + children.length } := by
  induction children generalizing L seq with
  | nil => rfl
  | cons x xs ih =>
    rw [Ledger.acceptAll, ih]
    simp only [Ledger.accept, qpuRuntimeTaskQueued, List.length_cons]
    congr 1
    omega

/-- The records of the accepted tasks. -/
theorem acceptAll_find_of_not_mem {children : List TaskDesc} {x : TaskId}
    (h : x ∉ children.map TaskDesc.taskId) :
    taskTableFind (L.acceptAll seq children).tasks x = taskTableFind L.tasks x := by
  induction children generalizing L seq with
  | nil => rfl
  | cons d ds ih =>
    rw [List.map_cons, List.mem_cons, not_or] at h
    rw [Ledger.acceptAll, ih h.2]
    simp [Ledger.accept, h.1]

theorem acceptAll_find_of_mem (seq : ℕ) {children : List TaskDesc} {d : TaskDesc}
    (hnd : (children.map TaskDesc.taskId).Nodup) (h : d ∈ children) :
    ∃ n, taskTableFind (L.acceptAll seq children).tasks d.taskId =
      some { desc := d, state := .queued, enqueueSeq := n } := by
  induction children generalizing L seq with
  | nil => simp at h
  | cons x xs ih =>
    rw [List.map_cons, List.nodup_cons] at hnd
    rcases List.mem_cons.1 h with rfl | h
    · refine ⟨seq, ?_⟩
      rw [Ledger.acceptAll, acceptAll_find_of_not_mem hnd.1]
      simp [Ledger.accept]
    · exact ih _ hnd.2 h

theorem accept_ok {task : TaskDesc} (hok : L.tasks.Ok)
    (hnew : taskTableFind L.tasks task.taskId = none) (hid : task.taskId ≠ invalidTaskId) :
    (L.accept task seq).tasks.Ok := hok.insert _ hnew hid

theorem acceptAll_ok {children : List TaskDesc} (hok : L.tasks.Ok)
    (hnd : (children.map TaskDesc.taskId).Nodup)
    (hnew : ∀ d ∈ children, taskTableFind L.tasks d.taskId = none)
    (hid : ∀ d ∈ children, d.taskId ≠ invalidTaskId) : (L.acceptAll seq children).tasks.Ok := by
  induction children generalizing L seq with
  | nil => exact hok
  | cons x xs ih =>
    rw [List.map_cons, List.nodup_cons] at hnd
    refine ih (accept_ok hok (hnew x (by simp)) (hid x (by simp))) hnd.2 ?_ ?_
    · intro d hd
      have hne : d.taskId ≠ x.taskId := fun h => hnd.1 (h ▸ List.mem_map_of_mem hd)
      simp [Ledger.accept, hne, hnew d (by simp [hd])]
    · exact fun d hd => hid d (by simp [hd])

end AcceptAll

/-! ## Taking a task back -/

/-- A queued task leaves again. -/
def Ledger.takeBack (L : Ledger) (id : TaskId) : Ledger :=
  ⟨taskTableRemove L.tasks id, qpuRuntimeTaskUnqueued L.qpu⟩

theorem takeBack_accept {L : Ledger} {task : TaskDesc} (seq : ℕ) (hok : L.tasks.Ok)
    (hnew : taskTableFind L.tasks task.taskId = none) :
    (L.accept task seq).takeBack task.taskId = L := by
  refine Ledger.ext ?_ ?_
  · exact hok.insert_remove { desc := task, state := .queued, enqueueSeq := seq } hnew
  · exact qpu_unqueued_queued L.qpu

/-! ## The operations as events -/

section Code

variable {ν : Type} {σ : ν → Type} {P : ∀ n, PluginDesc (σ n)} {E : Env} {s : Sched σ}
  {task : TaskDesc} {c : Cursor}

/-- An insertion either adds the record of a new, valid id or changes nothing. -/
theorem taskTableInsertState_spec (E : Env) (table : TaskTable) (task : TaskDesc) (seq : ℕ)
    (state : TaskState) (c : Cursor) :
    let r := taskTableInsertState E table task seq state c
    (r.rc = .ok ∧ taskTableFind table task.taskId = none ∧ task.taskId ≠ invalidTaskId ∧
      r.table = table.insert { desc := task, state := state, enqueueSeq := seq }) ∨
    (r.rc ≠ .ok ∧ r.table = table) := by
  dsimp only
  unfold taskTableInsertState
  split
  · simp
  · next hid =>
    split
    · simp
    · split
      · simp
      · next hfind =>
        split
        · simp
        · next kvs hkvs =>
          split
          · simp
          · split
            · simp
            · dsimp only
              generalize (if kvs.isEmpty = true then c.alloc else c.alloc.alloc) = c'
              split
              · simp
              · left
                exact ⟨rfl, by simpa using hfind, hid, rfl⟩

/-- A task enters with the next sequence number, or nothing happens. -/
theorem enqueueTaskLocked_spec (P : ∀ n, PluginDesc (σ n)) (E : Env) (task : TaskDesc)
    (c : Cursor) (hok : s.tasks.Ok) :
    let r := enqueueTaskLocked P E s task c
    r.sched.enqueueSeqNext = s.enqueueSeqNext + 1 ∧
    ((r.rc = .ok ∧ taskTableFind s.tasks task.taskId = none ∧ task.taskId ≠ invalidTaskId ∧
      r.sched.ledger = s.ledger.accept task s.enqueueSeqNext) ∨
    (r.rc ≠ .ok ∧ r.sched.ledger = s.ledger)) := by
  dsimp only
  unfold enqueueTaskLocked
  rcases taskTableInsertState_spec E s.tasks task s.enqueueSeqNext .queued c
    with ⟨hrc, hnew, hid, htab⟩ | ⟨hrc, htab⟩
  · have hins : (taskTableInsert E s.tasks task s.enqueueSeqNext c).rc = .ok := hrc
    simp only [hins, ne_eq, not_true_eq_false, if_false]
    split
    · exact ⟨rfl, Or.inl ⟨rfl, hnew, hid, Ledger.ext htab rfl⟩⟩
    · split
      · next hhook =>
        refine ⟨rfl, Or.inr ⟨hhook, ?_⟩⟩
        have hback := takeBack_accept (L := s.ledger) s.enqueueSeqNext hok hnew
        rw [← hback]
        exact Ledger.ext (congrArg (taskTableRemove · task.taskId) htab) rfl
      · exact ⟨rfl, Or.inl ⟨rfl, hnew, hid, Ledger.ext htab rfl⟩⟩
  · have hins : (taskTableInsert E s.tasks task s.enqueueSeqNext c).rc ≠ .ok := hrc
    rw [if_pos hins]
    exact ⟨rfl, Or.inr ⟨hrc, Ledger.ext htab rfl⟩⟩

theorem removeQueuedTaskLocked_ledger (id : TaskId) :
    (removeQueuedTaskLocked P E s id c).1.ledger = s.ledger.takeBack id := by
  unfold removeQueuedTaskLocked
  split <;> rfl

/-- The roll-back loop undoes the slices entered so far. -/
theorem removeChildren_ledger {L : Ledger} {seq : ℕ} {done : List TaskDesc} (hok : L.tasks.Ok)
    (hnd : (done.map TaskDesc.taskId).Nodup)
    (hnew : ∀ d ∈ done, taskTableFind L.tasks d.taskId = none)
    (hid : ∀ d ∈ done, d.taskId ≠ invalidTaskId)
    (hs : s.ledger = L.acceptAll seq done.reverse) :
    (removeChildren P E s done c).1.ledger = L := by
  induction done generalizing s c with
  | nil => exact hs
  | cons d ds ih =>
    rw [List.map_cons, List.nodup_cons] at hnd
    have hds := List.forall_mem_cons.1 hnew
    have hids := List.forall_mem_cons.1 hid
    rw [List.reverse_cons, acceptAll_concat] at hs
    refine ih hnd.2 hds.2 hids.2 ?_
    rw [removeQueuedTaskLocked_ledger, hs]
    refine takeBack_accept _ (acceptAll_ok hok ?_ ?_ ?_) ?_
    · rw [List.map_reverse, List.nodup_reverse]
      exact hnd.2
    · exact fun x hx => hds.2 x (List.mem_reverse.1 hx)
    · exact fun x hx => hids.2 x (List.mem_reverse.1 hx)
    · rw [acceptAll_find_of_not_mem, hds.1]
      simpa [List.map_reverse] using hnd.1

/-- The slices enter all together or not at all. -/
theorem enqueueChildren_spec (L : Ledger) (seq : ℕ) (done rest : List TaskDesc) (hok : L.tasks.Ok)
    (hnd : (done.map TaskDesc.taskId).Nodup)
    (hnew : ∀ d ∈ done, taskTableFind L.tasks d.taskId = none)
    (hid : ∀ d ∈ done, d.taskId ≠ invalidTaskId)
    (hs : s.ledger = L.acceptAll seq done.reverse) (hseq : s.enqueueSeqNext = seq + done.length) :
    let r := enqueueChildren P E s done rest c
    (r.rc = .ok ∧ r.sched.ledger = L.acceptAll seq (done.reverse ++ rest)) ∨
    (r.rc ≠ .ok ∧ r.sched.ledger = L) := by
  have hoks : ∀ done : List TaskDesc, (done.map TaskDesc.taskId).Nodup →
      (∀ d ∈ done, taskTableFind L.tasks d.taskId = none) →
      (∀ d ∈ done, d.taskId ≠ invalidTaskId) → (L.acceptAll seq done.reverse).tasks.Ok := by
    intro done hnd hnew hid
    refine acceptAll_ok hok ?_ ?_ ?_
    · rw [List.map_reverse, List.nodup_reverse]
      exact hnd
    · exact fun x hx => hnew x (List.mem_reverse.1 hx)
    · exact fun x hx => hid x (List.mem_reverse.1 hx)
  induction rest generalizing s done c with
  | nil => exact Or.inl ⟨rfl, by rw [List.append_nil]; exact hs⟩
  | cons d ds ih =>
    have hsok : s.tasks.Ok := by
      have := hoks done hnd hnew hid
      rwa [← hs] at this
    dsimp only
    rw [enqueueChildren]
    rcases enqueueTaskLocked_spec P E d c hsok
      with ⟨hnext, ⟨hrc, hfind, hvalid, hled⟩ | ⟨hrc, hled⟩⟩
    · have hfind' : taskTableFind (L.acceptAll seq done.reverse).tasks d.taskId = none := by
        rw [← hs]; exact hfind
      have hnotin : d.taskId ∉ done.map TaskDesc.taskId := by
        intro hmem
        obtain ⟨x, hx, hxid⟩ := List.mem_map.1 hmem
        obtain ⟨n, hn⟩ := acceptAll_find_of_mem (L := L) seq
          (show (done.reverse.map TaskDesc.taskId).Nodup by
            rw [List.map_reverse, List.nodup_reverse]
            exact hnd) (List.mem_reverse.2 hx)
        rw [hxid, hfind'] at hn
        simp at hn
      have hfresh : taskTableFind L.tasks d.taskId = none := by
        rw [← hfind', acceptAll_find_of_not_mem]
        simpa [List.map_reverse] using hnotin
      simp only [hrc, ne_eq, not_true_eq_false, if_false]
      have := ih (s := (enqueueTaskLocked P E s d c).sched) (d :: done)
        (c := (enqueueTaskLocked P E s d c).cursor) ?_ ?_ ?_ ?_ ?_
      · simpa using this
      · rw [List.map_cons, List.nodup_cons]
        exact ⟨hnotin, hnd⟩
      · exact List.forall_mem_cons.2 ⟨hfresh, hnew⟩
      · exact List.forall_mem_cons.2 ⟨hvalid, hid⟩
      · rw [hled, hs, List.reverse_cons, acceptAll_concat, hseq, List.length_reverse]
      · rw [hnext, hseq, List.length_cons, Nat.add_assoc]
    · rw [if_pos hrc]
      refine Or.inr ⟨hrc, ?_⟩
      exact removeChildren_ledger hok hnd hnew hid (hled.trans hs)

theorem insert_update (table : TaskTable) {r r' : TaskRecord} (h : r'.desc.taskId = r.desc.taskId) :
    (table.insert r).update r.desc.taskId r' = table.insert r' := by
  simp [TaskTable.insert, TaskTable.update, h]

/-- The scheduler between the insertion of a split parent and its first slice. -/
def Sched.withParent (s : Sched σ) (parent : TaskDesc) (childCount : ℕ) : Sched σ :=
  { s with
    tasks := s.tasks.insert (parentRecord parent s.enqueueSeqNext childCount)
    enqueueSeqNext := s.enqueueSeqNext + 1 }

theorem submitSplitTaskLocked_eq {parent : TaskDesc} {children : List TaskDesc}
    (hrc : (taskTableInsertState E s.tasks parent s.enqueueSeqNext .waiting c).rc = .ok)
    (htab : (taskTableInsertState E s.tasks parent s.enqueueSeqNext .waiting c).table =
      s.tasks.insert { desc := parent, state := .waiting, enqueueSeq := s.enqueueSeqNext }) :
    submitSplitTaskLocked P E s parent children c =
      let e := enqueueChildren P E (s.withParent parent children.length) [] children
        (taskTableInsertState E s.tasks parent s.enqueueSeqNext .waiting c).cursor
      if e.rc ≠ .ok then
        ⟨e.rc, { e.sched with tasks := taskTableRemove e.sched.tasks parent.taskId }, e.cursor⟩
      else e := by
  unfold submitSplitTaskLocked
  simp only [hrc, ne_eq, not_true_eq_false, if_false, htab, find_insert, if_true]
  rw [show parent.taskId = (TaskRecord.desc ⟨parent, .waiting, s.enqueueSeqNext, 0, 0, 0, 0⟩).taskId
    from rfl, insert_update]
  · rfl
  · rfl

/-- A split submission enters the parent and all its slices, or changes nothing. -/
theorem submitSplitTaskLocked_spec (P : ∀ n, PluginDesc (σ n)) (E : Env) (parent : TaskDesc)
    (children : List TaskDesc) (c : Cursor) (hok : s.tasks.Ok) :
    let r := submitSplitTaskLocked P E s parent children c
    (r.rc = .ok ∧ taskTableFind s.tasks parent.taskId = none ∧ parent.taskId ≠ invalidTaskId ∧
      r.sched.ledger = Event.apply s.ledger (.acceptSplit parent children s.enqueueSeqNext)) ∨
    (r.rc ≠ .ok ∧ r.sched.ledger = s.ledger) := by
  dsimp only
  rcases taskTableInsertState_spec E s.tasks parent s.enqueueSeqNext .waiting c
    with ⟨hrc, hnew, hid, htab⟩ | ⟨hrc, htab⟩
  · rw [submitSplitTaskLocked_eq hrc htab]
    generalize (taskTableInsertState E s.tasks parent s.enqueueSeqNext .waiting c).cursor = c'
    have hok' := hok.insert (parentRecord parent s.enqueueSeqNext children.length) hnew hid
    have hspec := enqueueChildren_spec (P := P) (E := E) (s := s.withParent parent children.length)
      (c := c') (s.withParent parent children.length).ledger (s.enqueueSeqNext + 1) [] children hok'
      (by simp) (by simp) (by simp) rfl rfl
    generalize enqueueChildren P E (s.withParent parent children.length) [] children c' = e at hspec ⊢
    dsimp only at hspec ⊢
    rcases hspec with ⟨hrc', hled⟩ | ⟨hrc', hled⟩
    · rw [if_neg (not_not.2 hrc')]
      exact Or.inl ⟨hrc', hnew, hid, hled⟩
    · rw [if_pos hrc']
      have hqpu : e.sched.qpu = s.qpu := congrArg Ledger.qpu hled
      refine Or.inr ⟨hrc', Ledger.ext ?_ hqpu⟩
      have hback := hok.insert_remove (parentRecord parent s.enqueueSeqNext children.length) hnew
      exact (congrArg (taskTableRemove · parent.taskId) (congrArg Ledger.tasks hled)).trans hback
  · unfold submitSplitTaskLocked
    simp only [if_pos hrc]
    exact Or.inr ⟨hrc, Ledger.ext htab rfl⟩

theorem computeSplitConfig_sched (s : Sched σ) (task : TaskDesc) :
    (computeSplitConfig P s task).2 = (getPolicySplitConfig P s).2.2 := by
  unfold computeSplitConfig
  rcases getPolicySplitConfig P s with ⟨rc, config, s'⟩
  cases rc <;> rfl

/-- Asking the policy for its slicing configuration changes the policy state
only. -/
theorem computeSplitConfig_frame (s : Sched σ) (task : TaskDesc) :
    ∃ policy, (computeSplitConfig P s task).2 = { s with policy := policy } := by
  rw [computeSplitConfig_sched]
  unfold getPolicySplitConfig
  split
  · exact ⟨s.policy, rfl⟩
  · exact ⟨_, rfl⟩

theorem computeSplitConfig_ledger (s : Sched σ) (task : TaskDesc) :
    (computeSplitConfig P s task).2.ledger = s.ledger := by
  obtain ⟨policy, h⟩ := computeSplitConfig_frame (P := P) s task
  rw [h]
  rfl

/-- A split configuration has at least one slice. -/
theorem computeSplitConfig_sliceCount
    (h : (computeSplitConfig P s task).1.shouldSplit = true) :
    0 < (computeSplitConfig P s task).1.config.sliceCount.toNat := by
  unfold computeSplitConfig at h ⊢
  split
  · next hq => rw [hq] at h; exact splitDecision_sliceCount h
  · next hq => rw [hq] at h; simp at h

/-! ## Every operation is an event -/

/-- The events that enter tasks. -/
def Event.Entry : Event → Prop
  | .accept .. | .acceptSplit .. => True
  | _ => False

/-- What a submission does to the ledger: it enters something, or it fails and
changes nothing. -/
def Submitted (L : Ledger) (rc : Rc) (L' : Ledger) : Prop :=
  (rc = .ok ∧ ∃ e : Event, e.Entry ∧ e.Allowed L ∧ L' = e.apply L) ∨ (rc ≠ .ok ∧ L' = L)

theorem enqueueTaskLocked_submitted (hok : s.tasks.Ok) :
    Submitted s.ledger (enqueueTaskLocked P E s task c).rc
      (enqueueTaskLocked P E s task c).sched.ledger := by
  obtain ⟨-, ⟨hrc, hnew, hid, hled⟩ | h⟩ := enqueueTaskLocked_spec P E task c hok
  · exact Or.inl ⟨hrc, .accept task s.enqueueSeqNext, trivial, ⟨hnew, hid⟩, hled⟩
  · exact Or.inr h

theorem submitSplitTaskLocked_submitted {parent : TaskDesc} {children : List TaskDesc}
    (hok : s.tasks.Ok) (hfresh : ChildrenFresh s.tasks parent children) (hne : children ≠ []) :
    Submitted s.ledger (submitSplitTaskLocked P E s parent children c).rc
      (submitSplitTaskLocked P E s parent children c).sched.ledger := by
  rcases submitSplitTaskLocked_spec P E parent children c hok with ⟨hrc, hnew, hid, hled⟩ | h
  · exact Or.inl ⟨hrc, .acceptSplit parent children s.enqueueSeqNext, trivial,
      ⟨hnew, hid, hfresh, hne⟩, hled⟩
  · exact Or.inr h

theorem estimateTaskCost_error {b : Bool} {answers : CallbackAnswers} {k : ℕ} {rc : Rc}
    (h : estimateTaskCost b answers k task = .error rc) : rc ≠ .ok := by
  unfold estimateTaskCost at h
  split at h
  · split at h
    · next hrc => cases h; exact hrc
    · split at h
      · cases h; simp
      · simp at h
  · simp at h

theorem estimateChildCosts_error {b : Bool} {answers : CallbackAnswers} {k : ℕ}
    {children : List TaskDesc} {rc : Rc} (h : estimateChildCosts b answers k children = .error rc) :
    rc ≠ .ok := by
  induction children generalizing k with
  | nil => simp [estimateChildCosts] at h
  | cons d ds ih =>
    rw [estimateChildCosts] at h
    split at h
    · next hd => cases h; exact estimateTaskCost_error hd
    · split at h
      · next hds => cases h; exact ih hds
      · simp at h

theorem ok_of_ledger {L : Ledger} (h : s.ledger = L) (hok : L.tasks.Ok) : s.tasks.Ok := by
  have htasks : s.tasks = L.tasks := congrArg Ledger.tasks h
  rwa [htasks]

theorem Submitted.frame {L L' : Ledger} {rc : Rc} {s' : Sched σ} (h : Submitted s'.ledger rc L')
    (hs : s'.ledger = L) : Submitted L rc L' := hs ▸ h

theorem submitFinish_submitted {plan : SubmitPlan} {answers : CallbackAnswers} (hok : s.tasks.Ok) :
    Submitted s.ledger (submitFinish P E s plan answers c).rc
      (submitFinish P E s plan answers c).sched.ledger := by
  have hled := computeSplitConfig_ledger (P := P) s
  have hok' := fun task => ok_of_ledger (hled task) hok
  unfold submitFinish
  split
  · next task =>
    split
    · next rc hrc => exact Or.inr ⟨estimateTaskCost_error hrc, rfl⟩
    · split
      · exact Or.inr ⟨by simp, rfl⟩
      · dsimp only
        split
        · next hrc => exact Or.inr ⟨hrc, hled task⟩
        · split
          · exact Or.inr ⟨by simp, hled task⟩
          · exact (enqueueTaskLocked_submitted (hok' task)).frame (hled task)
  · next task config children hasEstimateCost =>
    split
    · next hrc => exact Or.inr ⟨hrc, rfl⟩
    · split
      · next rc hrc => exact Or.inr ⟨estimateChildCosts_error hrc, rfl⟩
      · next children' _ =>
        split
        · exact Or.inr ⟨by simp, rfl⟩
        · dsimp only
          split
          · next hrc => exact Or.inr ⟨hrc, hled task⟩
          · split
            · exact Or.inr ⟨by simp, hled task⟩
            · next hlatest =>
              split
              · next hrc => exact Or.inr ⟨hrc, hled task⟩
              · next hvalid =>
                obtain ⟨hfresh, hlen⟩ := validateChildTasks_fresh (not_not.1 hvalid)
                refine (submitSplitTaskLocked_submitted (hok' task) hfresh ?_).frame (hled task)
                simp only [not_or, Bool.not_eq_true, not_not] at hlatest
                have hpos := computeSplitConfig_sliceCount (P := P) (s := s)
                  (by simpa using hlatest.1)
                rw [hlatest.2.1, ← hlen] at hpos
                exact List.length_pos_iff.1 hpos

/-- The first critical section either submits, fails, or leaves a plan. -/
theorem submitPrepare_submitted (P : ∀ n, PluginDesc (σ n)) (E : Env) (task : TaskDesc)
    (c : Cursor) (hok : s.tasks.Ok) :
    let p := submitPrepare P E s task c
    (p.plan = none ∧ Submitted s.ledger p.rc p.sched.ledger) ∨
      (p.plan.isSome ∧ p.sched.ledger = s.ledger) := by
  have hled := computeSplitConfig_ledger (P := P) s task
  have hok' := ok_of_ledger hled hok
  dsimp only
  unfold submitPrepare
  split
  · exact Or.inl ⟨rfl, Or.inr ⟨by simp, rfl⟩⟩
  · dsimp only
    split
    · next hrc => exact Or.inl ⟨rfl, Or.inr ⟨hrc, hled⟩⟩
    · split
      · split
        · exact Or.inr ⟨rfl, hled⟩
        · split
          · next rc hrc => exact Or.inl ⟨rfl, Or.inr ⟨estimateTaskCost_error hrc, hled⟩⟩
          · exact Or.inl ⟨rfl, (enqueueTaskLocked_submitted hok').frame hled⟩
      · split
        · exact Or.inl ⟨rfl, Or.inr ⟨by simp, hled⟩⟩
        · split
          · exact Or.inl ⟨rfl, Or.inr ⟨by simp, hled⟩⟩
          · exact Or.inr ⟨rfl, hled⟩

theorem submitTask_submitted {answers : CallbackAnswers} (hok : s.tasks.Ok) :
    Submitted s.ledger (submitTask P E s task answers c).rc
      (submitTask P E s task answers c).sched.ledger := by
  unfold submitTask
  rcases submitPrepare_submitted P E task c hok
    with ⟨hplan, h⟩ | ⟨hplan, hled⟩
  · simp only [hplan]
    exact h
  · obtain ⟨plan, hplan⟩ := Option.isSome_iff_exists.1 hplan
    simp only [hplan]
    exact (submitFinish_submitted (ok_of_ledger hled hok)).frame hled

/-! ### What a submission keeps -/

section Keeps

variable {motive : Sched σ → Prop}

/-- What entering a task and taking it back keep, the loop over the slices keeps. -/
theorem enqueueChildren_keeps (rest done : List TaskDesc)
    (henqueue : ∀ s c, ∀ task ∈ rest, motive s → motive (enqueueTaskLocked P E s task c).sched)
    (hremove : ∀ s id c, motive s → motive (removeQueuedTaskLocked P E s id c).1) (h : motive s)
    (c : Cursor) :
    motive (enqueueChildren P E s done rest c).sched := by
  have hback : ∀ (done : List TaskDesc) (s : Sched σ) c, motive s →
      motive (removeChildren P E s done c).1 := by
    intro done
    induction done with
    | nil => exact fun _ _ h => h
    | cons child earlier ih => exact fun s c h => ih _ _ (hremove s child.taskId c h)
  induction rest generalizing s done c with
  | nil => exact h
  | cons child rest ih =>
    have hchild := henqueue s c child List.mem_cons_self h
    rw [enqueueChildren]
    dsimp only
    split
    · exact hback done _ _ hchild
    · exact ih (child :: done) (fun s c task ht => henqueue s c task (List.mem_cons_of_mem child ht))
        hchild _

/-- The three ways in which a submission touches the scheduler keep a property; the
tasks that are entered have been estimated. -/
structure SubmissionKeeps (P : ∀ n, PluginDesc (σ n)) (E : Env) (motive : Sched σ → Prop) :
    Prop where
  config : ∀ s task, motive s → motive (computeSplitConfig P s task).2
  enqueue : ∀ s task c, task.estimatedCost ≠ 0 → motive s →
    motive (enqueueTaskLocked P E s task c).sched
  split : ∀ s parent children c, (∀ d ∈ children, d.estimatedCost ≠ 0) → motive s →
    motive (submitSplitTaskLocked P E s parent children c).sched

/-- No cost that is accepted is zero. -/
theorem estimateTaskCost_ne_zero {b : Bool} {answers : CallbackAnswers} {k : ℕ}
    {task estimated : TaskDesc} (h : estimateTaskCost b answers k task = .ok estimated) :
    estimated.estimatedCost ≠ 0 := by
  unfold estimateTaskCost at h
  split at h
  · split at h
    · simp at h
    · split at h
      · simp at h
      · next hcost =>
        obtain rfl := Except.ok.inj h
        exact hcost
  · obtain rfl := Except.ok.inj h
    exact policyTaskEstimatedCost_ne_zero task

theorem estimateChildCosts_ne_zero {b : Bool} {answers : CallbackAnswers} {k : ℕ}
    {children estimated : List TaskDesc}
    (h : estimateChildCosts b answers k children = .ok estimated) :
    ∀ d ∈ estimated, d.estimatedCost ≠ 0 := by
  induction children generalizing k estimated with
  | nil =>
    obtain rfl := Except.ok.inj h
    simp
  | cons child rest ih =>
    rw [estimateChildCosts] at h
    split at h
    · simp at h
    · next first hfirst =>
      split at h
      · simp at h
      · next others hothers =>
        obtain rfl := Except.ok.inj h
        exact List.forall_mem_cons.2 ⟨estimateTaskCost_ne_zero hfirst, ih hothers⟩

theorem SubmissionKeeps.prepare (hkeeps : SubmissionKeeps P E motive) (h : motive s)
    (task : TaskDesc) (c : Cursor) : motive (submitPrepare P E s task c).sched := by
  have hconf := hkeeps.config s task h
  unfold submitPrepare
  split
  · exact h
  · dsimp only
    split
    · exact hconf
    · split
      · split
        · exact hconf
        · split
          · exact hconf
          · next hest => exact hkeeps.enqueue _ _ _ (estimateTaskCost_ne_zero hest) hconf
      · split
        · exact hconf
        · split
          · exact hconf
          · exact hconf

theorem SubmissionKeeps.finish (hkeeps : SubmissionKeeps P E motive) (h : motive s)
    (plan : SubmitPlan) (answers : CallbackAnswers) (c : Cursor) :
    motive (submitFinish P E s plan answers c).sched := by
  have hconf := fun task => hkeeps.config s task h
  cases plan with
  | estimate task =>
    unfold submitFinish
    dsimp only
    split
    · exact h
    · next hest =>
      split
      · exact h
      · split
        · exact hconf task
        · split
          · exact hconf task
          · exact hkeeps.enqueue _ _ _ (estimateTaskCost_ne_zero hest) (hconf task)
  | split task config children hasEstimateCost =>
    unfold submitFinish
    dsimp only
    split
    · exact h
    · split
      · exact h
      · next hest =>
        split
        · exact h
        · split
          · exact hconf task
          · split
            · exact hconf task
            · split
              · exact hconf task
              · exact hkeeps.split _ _ _ _ (estimateChildCosts_ne_zero hest) (hconf task)

/-- **What its parts keep, a submission keeps.** -/
theorem SubmissionKeeps.submit (hkeeps : SubmissionKeeps P E motive) (h : motive s)
    (task : TaskDesc) (answers : CallbackAnswers) (c : Cursor) :
    motive (submitTask P E s task answers c).sched := by
  have hprepare := hkeeps.prepare h task c
  unfold submitTask
  dsimp only
  split
  · exact hprepare
  · exact hkeeps.finish hprepare _ _ _

end Keeps

/-! ### Selection and lifecycle -/

/-- A ledger moved by one allowed event of a kind. -/
def Amounts (kind : Event → Prop) (L L' : Ledger) : Prop :=
  ∃ e : Event, kind e ∧ e.Allowed L ∧ L' = e.apply L

theorem Amounts.idle {kind : Event → Prop} (h : kind .idle) (L : Ledger) : Amounts kind L L :=
  ⟨.idle, h, trivial, rfl⟩

theorem Amounts.mono {kind kind' : Event → Prop} {L L' : Ledger} (h : Amounts kind L L')
    (himp : ∀ e, kind e → kind' e) : Amounts kind' L L' := by
  obtain ⟨e, he, hallowed, hled⟩ := h
  exact ⟨e, himp e he, hallowed, hled⟩

theorem Submitted.amounts {L L' : Ledger} {rc : Rc} {kind : Event → Prop} (h : Submitted L rc L')
    (hidle : kind .idle) (hentry : ∀ e : Event, e.Entry → kind e) : Amounts kind L L' := by
  rcases h with ⟨-, e, he, hallowed, hled⟩ | ⟨-, hled⟩
  · exact ⟨e, hentry e he, hallowed, hled⟩
  · rw [hled]
    exact Amounts.idle hidle L

theorem schedSelectNext_amounts :
    Amounts (fun e => e = .idle ∨ ∃ id, e = .assign id) s.ledger
      (schedSelectNext P E s c).sched.ledger := by
  unfold schedSelectNext
  split
  · exact Amounts.idle (Or.inl rfl) _
  · dsimp only
    split
    · exact Amounts.idle (Or.inl rfl) _
    · split
      · exact Amounts.idle (Or.inl rfl) _
      · next r hr =>
        split
        · exact Amounts.idle (Or.inl rfl) _
        · next hq =>
          refine ⟨.assign _, Or.inr ⟨_, rfl⟩, ⟨r, hr, not_not.1 hq⟩, ?_⟩
          rw [Event.apply, on_of_find hr]
          exact Ledger.ext (setState_of_find hr) rfl

theorem taskUpdatePriority_amounts {id : TaskId} {priority : Int64} :
    Amounts (fun e => e = .idle ∨ e = .reprioritize id priority) s.ledger
      (taskUpdatePriority P E s id priority c).sched.ledger := by
  unfold taskUpdatePriority
  split
  · exact Amounts.idle (Or.inl rfl) _
  · next r hr =>
    have happly : Event.apply s.ledger (.reprioritize id priority) =
        ⟨s.tasks.update id { r with desc := { r.desc with priority := priority } }, s.qpu⟩ :=
      on_of_find hr
    split
    · exact Amounts.idle (Or.inl rfl) _
    · next hq =>
      have hallowed : Event.Allowed s.ledger (.reprioritize id priority) := ⟨r, hr, not_not.1 hq⟩
      dsimp only
      split
      · exact ⟨_, Or.inr rfl, hallowed, happly.symm⟩
      · split
        · exact Amounts.idle (Or.inl rfl) _
        · exact ⟨_, Or.inr rfl, hallowed, happly.symm⟩

/-- A start whose hook fails is undone: only a task that was assigned can be
there, a queued one is started only while no policy is active. -/
theorem taskStarted_amounts {id : TaskId} :
    Amounts (fun e => e = .idle ∨ e = .start id) s.ledger (taskStarted P E s id c).sched.ledger := by
  unfold taskStarted
  split
  · exact Amounts.idle (Or.inl rfl) _
  · next r hr =>
    split
    · exact Amounts.idle (Or.inl rfl) _
    · next hstate =>
      dsimp only
      split
      · exact Amounts.idle (Or.inl rfl) _
      · next hrc =>
        have hslot : s.qpu.runtime.runningTaskId = invalidTaskId := by
          unfold qpuRuntimeTaskStarted at hrc
          by_contra hne
          simp [hne] at hrc
        have hcases : r.state = .assigned ∨ r.state = .queued := by
          by_cases h : r.state = .assigned
          · exact Or.inl h
          · simp only [h, ne_eq, not_false_eq_true, true_and, not_or, not_not] at hstate
            exact Or.inr hstate.1
        have hallowed : Event.Allowed s.ledger (.start id) := ⟨hslot, r, hr, hcases⟩
        have happly : Event.apply s.ledger (.start id) =
            ⟨taskTableSetState s.tasks id .running,
              if r.state = .queued then qpuRuntimeTaskUnqueued (qpuRuntimeTaskStarted s.qpu id).2
              else (qpuRuntimeTaskStarted s.qpu id).2⟩ := by
          rw [setState_of_find hr]
          exact on_of_find hr
        split
        · exact ⟨_, Or.inr rfl, hallowed, happly.symm⟩
        · next n state hpolicy =>
          split
          · have hassigned : r.state ≠ .queued := by
              intro hq
              simp [hq, hpolicy] at hstate
            refine ⟨.idle, Or.inl rfl, trivial, Ledger.ext ?_ ?_⟩
            · show taskTableSetState (taskTableSetState s.tasks id .running) id r.state = s.tasks
              rw [setState_of_find hr, setState_of_find (by rw [find_update, if_pos rfl]),
                update_update]
              exact update_self hr
            · show qpuRuntimeTaskUnstarted _ id = s.qpu
              rw [if_neg hassigned, if_neg hassigned]
              exact qpu_unstarted_started s.qpu id (not_not.1 hrc)
          · exact ⟨_, Or.inr rfl, hallowed, happly.symm⟩

theorem finishTask_amounts {id : TaskId} {state : TaskState} (hterm : taskStateIsTerminal state) :
    Amounts (fun e => e = .idle ∨ e = .finish id state) s.ledger
      (finishTask P E s id state c).sched.ledger := by
  unfold finishTask
  split
  · exact Amounts.idle (Or.inl rfl) _
  · next r hr =>
    split
    · exact Amounts.idle (Or.inl rfl) _
    · next hnt =>
      split
      · exact Amounts.idle (Or.inl rfl) _
      · next hnw =>
        split
        · exact Amounts.idle (Or.inl rfl) _
        · next hcomp =>
          have hallowed : Event.Allowed s.ledger (.finish id state) := by
            refine ⟨hterm, r, hr, by simpa using hnt, hnw, ?_⟩
            intro hc
            by_contra hrun
            exact hcomp ⟨hc, hrun⟩
          have happly : Event.apply s.ledger (.finish id state) =
              ⟨updateParentAfterChildLocked (taskTableSetState s.tasks id state) r state,
                qpuRuntimeTaskFinished
                  (if r.state = .queued then qpuRuntimeTaskUnqueued s.qpu else s.qpu) id state⟩ := by
            rw [setState_of_find hr]
            exact on_of_find hr
          dsimp only
          split
          · exact ⟨_, Or.inr rfl, hallowed, happly.symm⟩
          · exact ⟨_, Or.inr rfl, hallowed, happly.symm⟩

theorem setPolicy_ledger [DecidableEq ν] {name : ν} {options : KvArray} :
    (setPolicy P E s name options c).sched.ledger = s.ledger := by
  unfold setPolicy
  split
  · rfl
  · split
    · rfl
    · dsimp only
      split
      · rfl
      · split <;> rfl

theorem loadPlugin_ledger [DecidableEq ν] {name : ν} {valid : Bool} :
    (loadPlugin E s name valid c).sched.ledger = s.ledger := by
  unfold loadPlugin
  split <;> rfl

end Code

/-- The task and the terminal state an operation reports, if it reports one. -/
def Op.finishes {ν : Type} : Op ν → Option (TaskId × TaskState)
  | .taskCompleted id => some (id, .completed)
  | .taskFailed id => some (id, .failed)
  | .taskCancelled id => some (id, .cancelled)
  | _ => none

/-- The events an operation can amount to. -/
def Event.By {ν : Type} (op : Op ν) : Event → Prop
  | .idle => True
  | .accept .. | .acceptSplit .. =>
    match op with
    | .submitTask .. | .submitBegin .. | .submitEnd .. => True
    | _ => False
  | .assign _ => op = .selectNext
  | .reprioritize id priority => op = .taskUpdatePriority id priority
  | .start id => op = .taskStarted id
  | .finish id state => op.finishes = some (id, state)

/-- **Every operation is an event**, for any plugins and any environment. -/
theorem step_event {ν : Type} [DecidableEq ν] {σ : ν → Type} (P : ∀ n, PluginDesc (σ n))
    {s : Sched σ} (E : Env) (op : Op ν) (hok : s.tasks.Ok) :
    Amounts (Event.By op) s.ledger (step P s E op).sched.ledger := by
  have hentry : ∀ (e : Event) (op : Op ν), e.Entry →
      (op matches .submitTask .. | .submitBegin .. | .submitEnd ..) → Event.By op e := by
    intro e op he hop
    cases e <;> first | exact he.elim | (cases op <;> trivial)
  have hfinish : ∀ id state, taskStateIsTerminal state → op.finishes = some (id, state) →
      Amounts (Event.By op) s.ledger (finishTask P E s id state .start).sched.ledger := by
    intro id state hterm hop
    refine (finishTask_amounts hterm).mono ?_
    rintro e (rfl | rfl)
    · trivial
    · exact hop
  cases op with
  | setCallbacks callbacks => exact Amounts.idle trivial _
  | loadPlugin name valid =>
    rw [step, loadPlugin_ledger]
    exact Amounts.idle trivial _
  | setPolicy name options =>
    rw [step, setPolicy_ledger]
    exact Amounts.idle trivial _
  | submitTask task answers =>
    exact (submitTask_submitted hok).amounts trivial fun e he => hentry e _ he rfl
  | submitBegin task =>
    rcases submitPrepare_submitted P E task .start hok
      with ⟨-, h⟩ | ⟨-, hled⟩
    · exact h.amounts trivial fun e he => hentry e _ he rfl
    · exact ⟨.idle, trivial, trivial, hled⟩
  | submitEnd plan answers =>
    exact (submitFinish_submitted hok).amounts trivial fun e he => hentry e _ he rfl
  | selectNext =>
    refine schedSelectNext_amounts.mono ?_
    rintro e (rfl | ⟨id, rfl⟩)
    · trivial
    · rfl
  | taskUpdatePriority id priority =>
    refine taskUpdatePriority_amounts.mono ?_
    rintro e (rfl | rfl)
    · trivial
    · rfl
  | taskStarted id =>
    refine taskStarted_amounts.mono ?_
    rintro e (rfl | rfl)
    · trivial
    · rfl
  | taskCompleted id => exact hfinish id _ rfl rfl
  | taskFailed id => exact hfinish id _ rfl rfl
  | taskCancelled id => exact hfinish id _ rfl rfl

/-! ## Events keep the table in order -/

/-- A parent waits until all its children have ended. -/
theorem parentState_cases (p : TaskRecord) :
    p.parentState = .waiting ∨ taskStateIsTerminal p.parentState := by
  unfold TaskRecord.parentState
  split
  · exact Or.inl rfl
  · split
    · exact Or.inr rfl
    · split <;> exact Or.inr rfl

theorem parentState_ne (p : TaskRecord) (state : TaskState) (hwaiting : state ≠ .waiting)
    (hterm : taskStateIsTerminal state = false) : p.parentState ≠ state := by
  rintro rfl
  rcases parentState_cases p with h | h
  · exact hwaiting h
  · simp [hterm] at h

theorem updateParent_ok {table : TaskTable} {child : TaskRecord} {state : TaskState}
    (hok : table.Ok) : (updateParentAfterChildLocked table child state).Ok := by
  unfold updateParentAfterChildLocked
  split
  · exact hok
  · split
    · exact hok
    · next p hp =>
      split
      · exact hok
      · refine hok.update hp ?_
        have hid := hok.desc_id _ p hp
        cases state <;> exact hid

theorem Event.ok_apply {L : Ledger} {e : Event} (hok : L.tasks.Ok) (h : e.Allowed L) :
    (e.apply L).tasks.Ok := by
  cases e with
  | idle => exact hok
  | accept task seq => exact accept_ok hok h.1 h.2
  | acceptSplit parent children seq =>
    obtain ⟨hnew, hid, hfresh, -⟩ := h
    refine acceptAll_ok (hok.insert (parentRecord parent seq children.length) hnew hid)
      hfresh.nodup ?_ hfresh.valid
    intro d hd
    rw [find_insert, if_neg (by exact hfresh.not_parent d hd)]
    exact hfresh.fresh d hd
  | assign id =>
    obtain ⟨r, hr, -⟩ := h
    rw [Event.apply, on_of_find hr]
    exact hok.update hr (hok.desc_id id r hr)
  | reprioritize id priority =>
    obtain ⟨r, hr, -⟩ := h
    rw [Event.apply, on_of_find hr]
    exact hok.update hr (hok.desc_id id r hr)
  | start id =>
    obtain ⟨-, r, hr, -⟩ := h
    rw [Event.apply, on_of_find hr]
    exact hok.update hr (hok.desc_id id r hr)
  | finish id state =>
    obtain ⟨-, r, hr, -⟩ := h
    rw [Event.apply, on_of_find hr]
    exact updateParent_ok (hok.update hr (hok.desc_id id r hr))

/-! ## Runs -/

section Runs

variable {ν : Type} [DecidableEq ν] {σ : ν → Type} (P : ∀ n, PluginDesc (σ n))

/-- One operation as a change of the scheduler. -/
def nextState (s : Sched σ) (i : Env × Op ν) : Sched σ := (step P s i.1 i.2).sched

/-- An invariant of the events, together with the table invariant, holds in
every state of every run. -/
theorem run_event_invariant {motive : Ledger → Prop}
    (hstep : ∀ L e, L.tasks.Ok → motive L → Event.Allowed L e → motive (e.apply L)) {s : Sched σ}
    (hok : s.tasks.Ok) (hs : motive s.ledger) (is : List (Env × Op ν)) :
    (Foundations.run (nextState P) s is).tasks.Ok ∧
      motive (Foundations.run (nextState P) s is).ledger := by
  refine Foundations.run_invariant (motive := fun s : Sched σ => s.tasks.Ok ∧ motive s.ledger) ?_
    ⟨hok, hs⟩ is
  rintro s ⟨E, op⟩ ⟨hok, hinv⟩
  obtain ⟨e, -, hallowed, hled⟩ := step_event P E op hok
  refine ⟨ok_of_ledger hled (Event.ok_apply hok hallowed), ?_⟩
  show motive (step P s E op).sched.ledger
  rw [hled]
  exact hstep s.ledger e hok hinv hallowed

end Runs

end QhwScheduler
