import QhwScheduler.Core.Agreement
import QhwScheduler.Core.Commit

/-!
# The order of submission

The table lists its records in the order in which they were submitted, and numbers
them in that order.

* `TaskTable.Sequenced` — the numbers grow along the list, up to the next number.
* `run_sequenced` — they do in every reachable state, with gaps where a submission
  failed or was taken back.
* `submittedIds` — what a call enters, the slices of a split in the order of the
  array; `run_order` — the list is what the calls of a run entered, one after the other.
-/

namespace QhwScheduler

variable {ν : Type} {σ : ν → Type}

/-! ## Sequence numbers -/

/-- The table is in order, its records are numbered in the order of the list, and
the next number is larger than all of them. -/
structure TaskTable.Sequenced (table : TaskTable) (next : ℕ) : Prop where
  ok : table.Ok
  below : ∀ id r, taskTableFind table id = some r → r.enqueueSeq < next
  increasing : (table.enqueueOrder.filterMap table.byId).Pairwise fun r r' =>
    r.enqueueSeq < r'.enqueueSeq

namespace TaskTable.Sequenced

variable {table : TaskTable} {r : TaskRecord} {id : TaskId} {next next' : ℕ}

theorem empty : TaskTable.empty.Sequenced next :=
  ⟨TaskTable.ok_empty, by simp [TaskTable.empty, taskTableFind], List.Pairwise.nil⟩

theorem mono (h : table.Sequenced next) (hle : next ≤ next') : table.Sequenced next' :=
  ⟨h.ok, fun id r hr => lt_of_lt_of_le (h.below id r hr) hle, h.increasing⟩

/-- A new record takes the next number. -/
theorem insert (h : table.Sequenced next) (hnew : taskTableFind table r.desc.taskId = none)
    (hid : r.desc.taskId ≠ invalidTaskId) (hseq : r.enqueueSeq = next) :
    (table.insert r).Sequenced (next + 1) := by
  have hfind := @find_insert table r
  refine ⟨h.ok.insert r hnew hid, fun x r' hr' => ?_, ?_⟩
  · rw [hfind] at hr'
    split at hr'
    · obtain rfl := Option.some.inj hr'
      omega
    · have := h.below x r' hr'
      omega
  · have hold : table.enqueueOrder.filterMap (table.insert r).byId =
        table.enqueueOrder.filterMap table.byId := by
      refine List.filterMap_congr fun x hx => ?_
      have hne : x ≠ r.desc.taskId := by
        rintro rfl
        simp [h.ok.mem_order, hnew] at hx
      exact (hfind (x := x)).trans (if_neg hne)
    have hself : (table.insert r).byId r.desc.taskId = some r := (hfind).trans (if_pos rfl)
    rw [order_insert, List.filterMap_append, hold, List.filterMap_cons, hself, List.filterMap_nil,
      List.pairwise_append]
    refine ⟨h.increasing, List.pairwise_singleton _ _, fun r₁ hr₁ r₂ hr₂ => ?_⟩
    obtain ⟨x, -, hx⟩ := List.mem_filterMap.1 hr₁
    obtain rfl := List.mem_singleton.1 hr₂
    rw [hseq]
    exact h.below x r₁ hx

/-- A change that keeps the number keeps the numbering. -/
theorem update (h : table.Sequenced next) {old : TaskRecord}
    (hold : taskTableFind table id = some old) (hid : r.desc.taskId = id)
    (hseq : r.enqueueSeq = old.enqueueSeq) : (table.update id r).Sequenced next := by
  have hfind := @find_update table r id
  refine ⟨h.ok.update hold hid, fun x r' hr' => ?_, ?_⟩
  · rw [hfind] at hr'
    split at hr'
    · obtain rfl := Option.some.inj hr'
      rw [hseq]
      exact h.below id old hold
    · exact h.below x r' hr'
  · have hincreasing := h.increasing
    rw [List.pairwise_filterMap] at hincreasing ⊢
    -- every record of the new table has the number of one that was there
    have hnumber : ∀ x r', (table.update id r).byId x = some r' →
        ∃ r₀, table.byId x = some r₀ ∧ r₀.enqueueSeq = r'.enqueueSeq := by
      intro x r' hr'
      have hr' := (hfind (x := x)).symm.trans hr'
      split at hr'
      · next hx =>
        rw [hx]
        exact ⟨old, hold, (Option.some.inj hr' ▸ hseq).symm⟩
      · exact ⟨r', hr', rfl⟩
    refine hincreasing.imp fun hlt r₁ hr₁ r₂ hr₂ => ?_
    obtain ⟨o₁, ho₁, h₁⟩ := hnumber _ r₁ hr₁
    obtain ⟨o₂, ho₂, h₂⟩ := hnumber _ r₂ hr₂
    rw [← h₁, ← h₂]
    exact hlt o₁ ho₁ o₂ ho₂

/-- A record that leaves leaves a gap. -/
theorem remove (h : table.Sequenced next) (id : TaskId) :
    (taskTableRemove table id).Sequenced next := by
  have hok := h.ok.remove id
  unfold taskTableRemove at hok ⊢
  split
  · exact h
  · next old hold =>
    rw [hold] at hok
    have hrest : ∀ x r', Function.update table.byId id none x = some r' →
        table.byId x = some r' := by
      intro x r' hr'
      rw [Function.update_apply] at hr'
      split at hr'
      · simp at hr'
      · exact hr'
    refine ⟨hok, fun x r' hr' => h.below x r' (hrest x r' hr'), ?_⟩
    have hincreasing := h.increasing
    rw [List.pairwise_filterMap] at hincreasing ⊢
    refine (hincreasing.sublist (List.erase_sublist ..)).imp fun hlt r₁ hr₁ r₂ hr₂ => ?_
    exact hlt r₁ (hrest _ r₁ hr₁) r₂ (hrest _ r₂ hr₂)

/-- The first queued task has the smallest number of the queued tasks. -/
theorem queued_le (h : table.Sequenced next) {rest : List TaskDesc}
    (hwaiting : waiting table = r.desc :: rest) (hr : taskTableFind table r.desc.taskId = some r)
    {r' : TaskRecord} (hr' : taskTableFind table id = some r') (hq' : r'.state = .queued) :
    r.enqueueSeq ≤ r'.enqueueSeq := by
  have hincreasing : (taskTableQueued table).Pairwise fun r r' => r.enqueueSeq < r'.enqueueSeq :=
    h.increasing.sublist List.filter_sublist
  have hmem : ∀ x, x ∈ taskTableQueued table → taskTableFind table x.desc.taskId = some x := by
    intro x hx
    obtain ⟨y, -, hy⟩ := List.mem_filterMap.1 (List.mem_of_mem_filter hx)
    rw [h.ok.desc_id y x hy]
    exact hy
  have hr'' : r' ∈ taskTableQueued table := by
    refine List.mem_filter.2 ⟨List.mem_filterMap.2 ⟨id, ?_, hr'⟩, by simpa using hq'⟩
    exact (h.ok.mem_order id).2 (by simp [hr'])
  unfold waiting at hwaiting
  cases hqueued : taskTableQueued table with
  | nil =>
    rw [hqueued] at hr''
    simp at hr''
  | cons first others =>
    have hfirst := hmem first (hqueued ▸ List.mem_cons_self)
    rw [hqueued, List.map_cons, List.cons.injEq] at hwaiting
    rw [hwaiting.1, hr, Option.some.injEq] at hfirst
    rw [hqueued] at hr'' hincreasing
    rcases List.mem_cons.1 hr'' with heq | hlater
    · rw [heq, ← hfirst]
    · rw [hfirst]
      exact le_of_lt ((List.pairwise_cons.1 hincreasing).1 r' hlater)

end TaskTable.Sequenced

theorem updateParent_sequenced {table : TaskTable} {next : ℕ} {child : TaskRecord}
    {state : TaskState} (h : table.Sequenced next) :
    (updateParentAfterChildLocked table child state).Sequenced next := by
  unfold updateParentAfterChildLocked
  split
  · exact h
  · split
    · exact h
    · next p hp =>
      split
      · exact h
      · refine h.update hp ?_ ?_
        · have hid := h.ok.desc_id _ p hp
          cases state <;> exact hid
        · cases state <;> rfl

/-- An event that enters nothing keeps the numbering. -/
theorem Event.sequenced_apply {L : Ledger} {next : ℕ} {e : Event} (h : L.tasks.Sequenced next)
    (hallowed : e.Allowed L) (he : ¬ e.Entry) : (e.apply L).tasks.Sequenced next := by
  cases e with
  | idle => exact h
  | accept task seq => exact absurd trivial he
  | acceptSplit parent children seq => exact absurd trivial he
  | assign id =>
    obtain ⟨r, hr, -⟩ := hallowed
    rw [Event.apply, on_of_find hr]
    exact h.update hr (h.ok.desc_id id r hr) rfl
  | reprioritize id priority =>
    obtain ⟨r, hr, -⟩ := hallowed
    rw [Event.apply, on_of_find hr]
    exact h.update hr (h.ok.desc_id id r hr) rfl
  | start id =>
    obtain ⟨-, r, hr, -⟩ := hallowed
    rw [Event.apply, on_of_find hr]
    exact h.update hr (h.ok.desc_id id r hr) rfl
  | finish id state =>
    obtain ⟨-, r, hr, -⟩ := hallowed
    rw [Event.apply, on_of_find hr]
    exact updateParent_sequenced (h.update hr (h.ok.desc_id id r hr) rfl)

/-! ## Submissions -/

/-- The table of the scheduler is numbered up to its next number. -/
def Sched.Sequenced (s : Sched σ) : Prop := s.tasks.Sequenced s.enqueueSeqNext

theorem sequenced_of_ledger {s : Sched σ} {L : Ledger} {next : ℕ} (hled : s.ledger = L)
    (hnext : s.enqueueSeqNext = next) (h : L.tasks.Sequenced next) : s.Sequenced := by
  subst hled hnext
  exact h

section Submissions

variable {P : ∀ n, PluginDesc (σ n)} {E : Env} {s : Sched σ} {c : Cursor}

theorem enqueueTaskLocked_sequenced (h : s.Sequenced) (task : TaskDesc) (c : Cursor) :
    (enqueueTaskLocked P E s task c).sched.Sequenced := by
  obtain ⟨hnext, ⟨-, hnew, hid, hled⟩ | ⟨-, hled⟩⟩ := enqueueTaskLocked_spec P E task c h.ok
  · refine sequenced_of_ledger hled hnext ?_
    exact h.insert hnew hid rfl
  · refine sequenced_of_ledger hled hnext ?_
    exact h.mono (Nat.le_succ _)

theorem removeQueuedTaskLocked_sequenced (h : s.Sequenced) (id : TaskId) (c : Cursor) :
    (removeQueuedTaskLocked P E s id c).1.Sequenced := by
  have hnext : (removeQueuedTaskLocked P E s id c).1.enqueueSeqNext = s.enqueueSeqNext := by
    unfold removeQueuedTaskLocked
    split <;> rfl
  exact sequenced_of_ledger (removeQueuedTaskLocked_ledger id) hnext (h.remove id)

theorem submitSplitTaskLocked_sequenced (h : s.Sequenced) (parent : TaskDesc)
    (children : List TaskDesc) (c : Cursor) :
    (submitSplitTaskLocked P E s parent children c).sched.Sequenced := by
  rcases taskTableInsertState_spec E s.tasks parent s.enqueueSeqNext .waiting c
    with ⟨hrc, hnew, hid, htable⟩ | ⟨hrc, htable⟩
  · rw [submitSplitTaskLocked_eq hrc htable]
    have hparent : (s.withParent parent children.length).Sequenced :=
      TaskTable.Sequenced.insert h hnew hid rfl
    have hchildren := enqueueChildren_keeps (P := P) (E := E) (motive := Sched.Sequenced) children []
      (fun _ c task _ h => enqueueTaskLocked_sequenced h task c)
      (fun _ id c h => removeQueuedTaskLocked_sequenced h id c) hparent
      (taskTableInsertState E s.tasks parent s.enqueueSeqNext .waiting c).cursor
    dsimp only
    split
    · exact TaskTable.Sequenced.remove hchildren parent.taskId
    · exact hchildren
  · unfold submitSplitTaskLocked
    simp only [if_pos hrc]
    show (taskTableInsertState E s.tasks parent s.enqueueSeqNext .waiting c).table.Sequenced
      (s.enqueueSeqNext + 1)
    rw [htable]
    exact h.mono (Nat.le_succ _)

theorem computeSplitConfig_sequenced (h : s.Sequenced) (task : TaskDesc) :
    (computeSplitConfig P s task).2.Sequenced := by
  obtain ⟨policy, hframe⟩ := computeSplitConfig_frame (P := P) s task
  rw [hframe]
  exact h

/-- Every part of a submission keeps the numbering. -/
theorem submission_sequenced : SubmissionKeeps P E Sched.Sequenced where
  config _ task h := computeSplitConfig_sequenced h task
  enqueue _ task c _ h := enqueueTaskLocked_sequenced h task c
  split _ parent children c _ h := submitSplitTaskLocked_sequenced h parent children c

end Submissions

/-! ## What a submission enters -/

section Order

variable (P : ∀ n, PluginDesc (σ n))

/-- The ids a call enters, the slices of a split in the order of the array. -/
def submittedIds (s : Sched σ) (i : Env × Op ν) : List TaskId :=
  match i.2 with
  | .submitTask task answers =>
    if (submitTask P i.1 s task answers .start).rc = .ok then
      match (submitPrepare P i.1 s task .start).plan with
      | none => [task.taskId]
      | some plan => plan.ids answers
    else []
  | .submitBegin task =>
    let p := submitPrepare P i.1 s task .start
    if p.plan = none ∧ p.rc = .ok then [task.taskId] else []
  | .submitEnd plan answers =>
    if (submitFinish P i.1 s plan answers .start).rc = .ok then plan.ids answers else []
  | _ => []

variable {P} {E : Env} {s : Sched σ} {c : Cursor}

theorem enqueueTaskLocked_order {task : TaskDesc} (hok : s.tasks.Ok)
    (hrc : (enqueueTaskLocked P E s task c).rc = .ok) :
    (enqueueTaskLocked P E s task c).sched.tasks.enqueueOrder =
      s.tasks.enqueueOrder ++ [task.taskId] := by
  obtain ⟨-, ⟨-, -, -, hled⟩ | ⟨hne, -⟩⟩ := enqueueTaskLocked_spec P E task c hok
  · exact congrArg (fun L : Ledger => L.tasks.enqueueOrder) hled
  · exact absurd hrc hne

theorem submitSplitTaskLocked_order {parent : TaskDesc} {children : List TaskDesc}
    (hok : s.tasks.Ok) (hrc : (submitSplitTaskLocked P E s parent children c).rc = .ok) :
    (submitSplitTaskLocked P E s parent children c).sched.tasks.enqueueOrder =
      s.tasks.enqueueOrder ++ parent.taskId :: taskIds children := by
  rcases submitSplitTaskLocked_spec P E parent children c hok with ⟨-, -, -, hled⟩ | ⟨hne, -⟩
  · have horder := congrArg (fun L : Ledger => L.tasks.enqueueOrder) hled
    rw [Event.apply, acceptAll_order, order_insert, List.append_assoc] at horder
    exact horder
  · exact absurd hrc hne

/-- The second section enters the ids of its plan, when it succeeds. -/
theorem submitFinish_order {plan : SubmitPlan} {answers : CallbackAnswers} (hok : s.tasks.Ok)
    (hrc : (submitFinish P E s plan answers c).rc = .ok) :
    (submitFinish P E s plan answers c).sched.tasks.enqueueOrder =
      s.tasks.enqueueOrder ++ plan.ids answers := by
  have hled := computeSplitConfig_ledger (P := P) s
  unfold submitFinish at hrc ⊢
  cases plan with
  | estimate task =>
    have hled := hled task
    dsimp only at hrc ⊢
    split at hrc
    · next rc hest => exact absurd hrc (estimateTaskCost_error hest)
    · next estimated hest =>
      obtain ⟨cost, rfl⟩ := estimateTaskCost_ok hest
      split at hrc
      · simp at hrc
      · next hnew =>
        rw [if_neg hnew]
        generalize computeSplitConfig P s task = answer at hrc hled ⊢
        obtain ⟨d, s'⟩ := answer
        dsimp only at hrc hled ⊢
        split at hrc
        · next hne => exact absurd hrc hne
        · next hdec =>
          rw [if_neg hdec]
          split at hrc
          · simp at hrc
          · next hwhole =>
            rw [if_neg hwhole, enqueueTaskLocked_order (ok_of_ledger hled hok) hrc,
              show s'.tasks = s.tasks from congrArg Ledger.tasks hled]
            rfl
  | split task planned children hasEstimateCost =>
    have hled := hled task
    dsimp only at hrc ⊢
    split at hrc
    · next hne => exact absurd hrc hne
    · next hcall =>
      rw [if_neg hcall]
      split at hrc
      · next rc hest => exact absurd hrc (estimateChildCosts_error hest)
      · next estimated hest =>
        split at hrc
        · simp at hrc
        · next hnew =>
          rw [if_neg hnew]
          generalize computeSplitConfig P s task = answer at hrc hled ⊢
          obtain ⟨d, s'⟩ := answer
          dsimp only at hrc hled ⊢
          split at hrc
          · next hne => exact absurd hrc hne
          · next hdec =>
            rw [if_neg hdec]
            split at hrc
            · simp at hrc
            · next hsame =>
              rw [if_neg hsame]
              split at hrc
              · next hne => exact absurd hrc hne
              · next hchecked =>
                rw [if_neg hchecked, submitSplitTaskLocked_order (ok_of_ledger hled hok) hrc,
                  show s'.tasks = s.tasks from congrArg Ledger.tasks hled,
                  estimateChildCosts_ids hest]
                rfl

/-- The first section enters its task when it succeeds without leaving a plan. -/
theorem submitPrepare_order {task : TaskDesc} (hok : s.tasks.Ok)
    (hplan : (submitPrepare P E s task c).plan = none)
    (hrc : (submitPrepare P E s task c).rc = .ok) :
    (submitPrepare P E s task c).sched.tasks.enqueueOrder =
      s.tasks.enqueueOrder ++ [task.taskId] := by
  obtain ⟨entered, hids, hcommit⟩ := submitPrepare_committed hok hplan hrc
  rw [← hids]
  exact hcommit.order

/-- **Every operation appends what it enters to the list**, and nothing else. -/
theorem step_order [DecidableEq ν] (hok : s.tasks.Ok) (op : Op ν) :
    (step P s E op).sched.tasks.enqueueOrder =
      s.tasks.enqueueOrder ++ submittedIds P s (E, op) := by
  have hfailed : ∀ {rc : Rc} {L : Ledger}, Submitted s.ledger rc L → rc ≠ .ok →
      L.tasks.enqueueOrder = s.tasks.enqueueOrder ++ [] := by
    rintro rc L (⟨hok, -⟩ | ⟨-, rfl⟩) hrc
    · exact absurd hok hrc
    · exact (List.append_nil _).symm
  have hframe : ∀ {L : Ledger}, L = s.ledger →
      L.tasks.enqueueOrder = s.tasks.enqueueOrder ++ [] := by
    rintro _ rfl
    exact (List.append_nil _).symm
  by_cases hop : op.Submits
  · cases op with
    | submitTask task answers =>
      have hsubmitted := @submitTask_submitted _ _ P E s task .start answers hok
      have hprepare := submitPrepare_submitted P E task .start hok
      have hplan := @submitPrepare_order _ _ P E s .start task hok
      show (submitTask P E s task answers .start).sched.tasks.enqueueOrder = _
      simp only [submittedIds]
      by_cases hrc : (submitTask P E s task answers .start).rc = .ok
      · rw [if_pos hrc]
        unfold submitTask at hrc ⊢
        generalize submitPrepare P E s task .start = p at hrc hprepare hplan ⊢
        obtain ⟨rc, s', c', plan⟩ := p
        cases plan with
        | none => exact hplan rfl hrc
        | some plan =>
          have hled : s'.ledger = s.ledger := by
            rcases hprepare with ⟨hnone, -⟩ | ⟨-, hled⟩
            · simp at hnone
            · exact hled
          dsimp only at hrc ⊢
          rw [submitFinish_order (ok_of_ledger hled hok) hrc,
            show s'.tasks = s.tasks from congrArg Ledger.tasks hled]
      · rw [if_neg hrc]
        exact hfailed hsubmitted hrc
    | submitBegin task =>
      show (submitPrepare P E s task .start).sched.tasks.enqueueOrder = _
      simp only [submittedIds]
      by_cases hrc : (submitPrepare P E s task .start).plan = none ∧
          (submitPrepare P E s task .start).rc = .ok
      · rw [if_pos hrc]
        exact submitPrepare_order hok hrc.1 hrc.2
      · rw [if_neg hrc]
        rcases submitPrepare_submitted P E task .start hok with ⟨hplan, h⟩ | ⟨-, hled⟩
        · exact hfailed h fun hok => hrc ⟨hplan, hok⟩
        · exact hframe hled
    | submitEnd plan answers =>
      show (submitFinish P E s plan answers .start).sched.tasks.enqueueOrder = _
      simp only [submittedIds]
      by_cases hrc : (submitFinish P E s plan answers .start).rc = .ok
      · rw [if_pos hrc]
        exact submitFinish_order hok hrc
      · rw [if_neg hrc]
        exact hfailed (submitFinish_submitted hok) hrc
    | _ => exact absurd hop id
  · obtain ⟨e, hby, hallowed, hled⟩ := step_event P E op hok
    have hnone : submittedIds P s (E, op) = [] := by
      cases op <;> first | rfl | exact absurd trivial hop
    rw [hnone, List.append_nil]
    exact (congrArg (fun L : Ledger => L.tasks.enqueueOrder) hled).trans
      (Event.order_apply fun he => hop (Op.entry_submits he hby))

/-- The list of every reachable state is what the calls entered, one after the
other. -/
theorem run_order [DecidableEq ν] (P : ∀ n, PluginDesc (σ n)) (hok : s.tasks.Ok)
    (is : List (Env × Op ν)) :
    (Foundations.run (nextState P) s is).tasks.enqueueOrder = s.tasks.enqueueOrder ++
      (Foundations.outputs (nextState P) (submittedIds P) s is).flatten := by
  induction is generalizing s with
  | nil => simp [Foundations.outputs]
  | cons i is ih =>
    obtain ⟨e, -, hallowed, hled⟩ := step_event P i.1 i.2 hok
    have hstep : (nextState P s i).tasks.enqueueOrder =
        s.tasks.enqueueOrder ++ submittedIds P s i := step_order hok i.2
    have hok' : (nextState P s i).tasks.Ok := ok_of_ledger hled (Event.ok_apply hok hallowed)
    rw [Foundations.run_cons, ih hok', hstep, List.append_assoc, Foundations.outputs,
      List.flatten_cons]

end Order

/-! ## Runs -/

section Runs

variable {P : ∀ n, PluginDesc (σ n)} {E : Env} {s : Sched σ} {c : Cursor}

/-- Only submissions take numbers. -/
theorem step_enqueueSeqNext [DecidableEq ν] {op : Op ν} (hop : ¬ op.Submits) :
    (step P s E op).sched.enqueueSeqNext = s.enqueueSeqNext := by
  have hfinish : ∀ id state, (finishTask P E s id state .start).sched.enqueueSeqNext =
      s.enqueueSeqNext := by
    intro id state
    unfold finishTask
    repeat' first | rfl | split
  cases op with
  | setCallbacks callbacks => rfl
  | loadPlugin name valid =>
    simp only [step, loadPlugin]
    split <;> rfl
  | setPolicy name options =>
    simp only [step, setPolicy]
    repeat' first | rfl | split
  | submitTask task answers => exact absurd trivial hop
  | submitBegin task => exact absurd trivial hop
  | submitEnd plan answers => exact absurd trivial hop
  | selectNext =>
    simp only [step, schedSelectNext]
    repeat' first | rfl | split
  | taskUpdatePriority id priority =>
    simp only [step, taskUpdatePriority]
    repeat' first | rfl | split
  | taskStarted id =>
    simp only [step, taskStarted]
    repeat' first | rfl | split
  | taskCompleted id => exact hfinish id _
  | taskFailed id => exact hfinish id _
  | taskCancelled id => exact hfinish id _

/-- **Every operation keeps the numbering.** -/
theorem step_sequenced [DecidableEq ν] (h : s.Sequenced) (op : Op ν) :
    (step P s E op).sched.Sequenced := by
  by_cases hop : op.Submits
  · cases op with
    | submitTask task answers => exact submission_sequenced.submit h task answers _
    | submitBegin task => exact submission_sequenced.prepare h task _
    | submitEnd plan answers => exact submission_sequenced.finish h plan answers _
    | _ => exact absurd hop id
  · obtain ⟨e, hby, hallowed, hled⟩ := step_event P E op h.ok
    exact sequenced_of_ledger hled (step_enqueueSeqNext hop)
      (Event.sequenced_apply h hallowed fun he => hop (Op.entry_submits he hby))

/-- The records of every reachable state are numbered in the order of the list. -/
theorem run_sequenced [DecidableEq ν] (P : ∀ n, PluginDesc (σ n)) (qpu : Qpu)
    (is : List (Env × Op ν)) :
    (Foundations.run (nextState P) (schedCreate qpu) is).Sequenced := by
  have hcreate : (schedCreate qpu : Sched σ).Sequenced := TaskTable.Sequenced.empty
  exact Foundations.run_invariant (motive := Sched.Sequenced) (fun _ i h => step_sequenced h i.2)
    hcreate is

end Runs

end QhwScheduler
