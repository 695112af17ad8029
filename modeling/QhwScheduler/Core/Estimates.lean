import QhwScheduler.Core.EnqueueOrder

/-!
# Estimated costs

A submission replaces the cost of a task by an estimate, which is cached in its record.

* `TaskTable.Priced` — every queued record carries a cost.
* `run_priced` — it does in every reachable state.
-/

namespace QhwScheduler

variable {ν : Type} {σ : ν → Type}

/-- Every queued record carries a cost. -/
def TaskTable.Priced (table : TaskTable) : Prop :=
  ∀ id r, taskTableFind table id = some r → r.state = .queued → r.desc.estimatedCost ≠ 0

namespace TaskTable.Priced

variable {table : TaskTable} {r : TaskRecord}

theorem empty : TaskTable.empty.Priced := by simp [Priced, TaskTable.empty, taskTableFind]

theorem insert (h : table.Priced) (hcost : r.state = .queued → r.desc.estimatedCost ≠ 0) :
    (table.insert r).Priced := by
  intro x r' hr' hq
  rw [find_insert] at hr'
  split at hr'
  · obtain rfl := Option.some.inj hr'
    exact hcost hq
  · exact h x r' hr' hq

theorem update (h : table.Priced) (id : TaskId)
    (hcost : r.state = .queued → r.desc.estimatedCost ≠ 0) : (table.update id r).Priced := by
  intro x r' hr' hq
  rw [find_update] at hr'
  split at hr'
  · obtain rfl := Option.some.inj hr'
    exact hcost hq
  · exact h x r' hr' hq

theorem remove (h : table.Priced) (id : TaskId) : (taskTableRemove table id).Priced := by
  unfold taskTableRemove
  split
  · exact h
  · intro x r' hr' hq
    have hr' : Function.update table.byId id none x = some r' := hr'
    rw [Function.update_apply] at hr'
    split at hr'
    · simp at hr'
    · exact h x r' hr' hq

end TaskTable.Priced

/-- An event that enters nothing changes no cost. -/
theorem Event.priced_apply {L : Ledger} {e : Event} (h : L.tasks.Priced) (hallowed : e.Allowed L)
    (he : ¬ e.Entry) : (e.apply L).tasks.Priced := by
  cases e with
  | idle => exact h
  | accept task seq => exact absurd trivial he
  | acceptSplit parent children seq => exact absurd trivial he
  | assign id =>
    obtain ⟨r, hr, -⟩ := hallowed
    rw [Event.apply, on_of_find hr]
    exact h.update id (by simp)
  | reprioritize id priority =>
    obtain ⟨r, hr, hq⟩ := hallowed
    rw [Event.apply, on_of_find hr]
    exact h.update id fun _ => h id r hr hq
  | start id =>
    obtain ⟨-, r, hr, -⟩ := hallowed
    rw [Event.apply, on_of_find hr]
    exact h.update id (by simp)
  | finish id state =>
    obtain ⟨hterm, r, hr, -⟩ := hallowed
    rw [Event.apply, on_of_find hr]
    have hfinished : (L.tasks.update id { r with state := state }).Priced := by
      refine h.update id fun hq => ?_
      have hq : state = .queued := hq
      simp [hq, taskStateIsTerminal] at hterm
    show (updateParentAfterChildLocked _ r state).Priced
    unfold updateParentAfterChildLocked
    split
    · exact hfinished
    · split
      · exact hfinished
      · split
        · exact hfinished
        · exact hfinished.update _ fun hq => absurd hq (parentState_ne _ _ (by simp) rfl)

/-! ## Submissions -/

/-- The table is in order and its queued records carry a cost. -/
def Sched.Priced (s : Sched σ) : Prop := s.Sequenced ∧ s.tasks.Priced

section Submissions

variable {P : ∀ n, PluginDesc (σ n)} {E : Env} {s : Sched σ}

theorem enqueueTaskLocked_priced (h : s.Priced) {task : TaskDesc} (hcost : task.estimatedCost ≠ 0)
    (c : Cursor) : (enqueueTaskLocked P E s task c).sched.Priced := by
  refine ⟨enqueueTaskLocked_sequenced h.1 task c, ?_⟩
  obtain ⟨-, ⟨-, -, -, hled⟩ | ⟨-, hled⟩⟩ := enqueueTaskLocked_spec P E task c h.1.ok
  · rw [show (enqueueTaskLocked P E s task c).sched.tasks = _ from congrArg Ledger.tasks hled]
    exact h.2.insert fun _ => hcost
  · rw [show (enqueueTaskLocked P E s task c).sched.tasks = _ from congrArg Ledger.tasks hled]
    exact h.2

theorem removeQueuedTaskLocked_priced (h : s.Priced) (id : TaskId) (c : Cursor) :
    (removeQueuedTaskLocked P E s id c).1.Priced := by
  refine ⟨removeQueuedTaskLocked_sequenced h.1 id c, ?_⟩
  rw [show (removeQueuedTaskLocked P E s id c).1.tasks = _ from
    congrArg Ledger.tasks (removeQueuedTaskLocked_ledger id)]
  exact h.2.remove id

theorem submitSplitTaskLocked_priced (h : s.Priced) (parent : TaskDesc) {children : List TaskDesc}
    (hcost : ∀ d ∈ children, d.estimatedCost ≠ 0) (c : Cursor) :
    (submitSplitTaskLocked P E s parent children c).sched.Priced := by
  refine ⟨submitSplitTaskLocked_sequenced h.1 parent children c, ?_⟩
  rcases taskTableInsertState_spec E s.tasks parent s.enqueueSeqNext .waiting c
    with ⟨hrc, hnew, hid, htable⟩ | ⟨hrc, htable⟩
  · rw [submitSplitTaskLocked_eq hrc htable]
    have hparent : (s.withParent parent children.length).Priced :=
      ⟨TaskTable.Sequenced.insert h.1 hnew hid rfl,
        TaskTable.Priced.insert h.2 (by simp [parentRecord])⟩
    have hchildren := enqueueChildren_keeps (P := P) (E := E) (motive := Sched.Priced) children []
      (fun _ c task ht h => enqueueTaskLocked_priced h (hcost task ht) c)
      (fun _ id c h => removeQueuedTaskLocked_priced h id c) hparent
      (taskTableInsertState E s.tasks parent s.enqueueSeqNext .waiting c).cursor
    dsimp only
    split
    · exact hchildren.2.remove parent.taskId
    · exact hchildren.2
  · unfold submitSplitTaskLocked
    simp only [if_pos hrc]
    rw [htable]
    exact h.2

theorem submission_priced : SubmissionKeeps P E Sched.Priced where
  config _ task h := by
    obtain ⟨policy, hframe⟩ := computeSplitConfig_frame (P := P) _ task
    rw [hframe]
    exact h
  enqueue _ _ c hcost h := enqueueTaskLocked_priced h hcost c
  split _ parent _ c hcost h := submitSplitTaskLocked_priced h parent hcost c

end Submissions

/-! ## Runs -/

/-- Every operation keeps the costs. -/
theorem step_priced [DecidableEq ν] {P : ∀ n, PluginDesc (σ n)} {E : Env} {s : Sched σ}
    (h : s.Priced) (op : Op ν) : (step P s E op).sched.Priced := by
  by_cases hop : op.Submits
  · cases op with
    | submitTask task answers => exact submission_priced.submit h task answers _
    | submitBegin task => exact submission_priced.prepare h task _
    | submitEnd plan answers => exact submission_priced.finish h plan answers _
    | _ => exact absurd hop id
  · obtain ⟨e, hby, hallowed, hled⟩ := step_event P E op h.1.ok
    refine ⟨step_sequenced h.1 op, ?_⟩
    rw [show (step P s E op).sched.tasks = _ from congrArg Ledger.tasks hled]
    exact Event.priced_apply h.2 hallowed fun he => hop (Op.entry_submits he hby)

/-- The queued records of every reachable state carry a cost. -/
theorem run_priced [DecidableEq ν] (P : ∀ n, PluginDesc (σ n)) (qpu : Qpu)
    (is : List (Env × Op ν)) : (Foundations.run (nextState P) (schedCreate qpu) is).Priced := by
  have hcreate : (schedCreate qpu : Sched σ).Sequenced := TaskTable.Sequenced.empty
  exact Foundations.run_invariant (motive := Sched.Priced) (fun _ i h => step_priced h i.2)
    ⟨hcreate, TaskTable.Priced.empty⟩ is

end QhwScheduler
