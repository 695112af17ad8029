import QhwScheduler.Core.Lifecycle
import QhwScheduler.Policy.Contract

/-!
# The table and the policy agree

The scheduler keeps a record of each task, the active policy a structure of its own
that holds the queued ones.

* `waiting` — the queued tasks of a table in the order in which they were enqueued,
  and how each change of the table moves them.
* `Agreed` — the active policy keeps its invariant for exactly these tasks.
* `step_agreed`, `run_agreed` — every operation restores this, on every path.
* `schedSelectNext_served` — a selection succeeds when a task is queued.
-/

namespace QhwScheduler

/-! ## The queued tasks of a table -/

/-- The queued tasks, in the order in which they were enqueued. -/
def waiting (table : TaskTable) : List TaskDesc := (taskTableQueued table).map TaskRecord.desc

/-- The descriptor of a queued task. -/
def queuedDesc (table : TaskTable) (id : TaskId) : Option TaskDesc :=
  (taskTableFind table id).bind fun r => if r.state = .queued then some r.desc else none

theorem waiting_eq (table : TaskTable) :
    waiting table = table.enqueueOrder.filterMap (queuedDesc table) := by
  unfold waiting taskTableQueued
  induction table.enqueueOrder with
  | nil => rfl
  | cons x order ih =>
    rw [List.filterMap_cons, List.filterMap_cons]
    cases hx : table.byId x with
    | none =>
      rw [queuedDesc, show taskTableFind table x = none from hx]
      exact ih
    | some r =>
      rw [queuedDesc, show taskTableFind table x = some r from hx, Option.bind_some]
      by_cases hq : r.state = .queued
      · simp only [hq, decide_true, List.filter_cons_of_pos, List.map_cons, if_true, ih]
      · simp only [hq, decide_false, Bool.false_eq_true, not_false_eq_true,
          List.filter_cons_of_neg, if_false, ih]

section Waiting

variable {table : TaskTable} {r r' : TaskRecord} {id x : TaskId} {d : TaskDesc}

theorem queuedDesc_some : queuedDesc table id = some d ↔
    ∃ r, taskTableFind table id = some r ∧ r.state = .queued ∧ r.desc = d := by
  unfold queuedDesc
  rw [Option.bind_eq_some_iff]
  refine exists_congr fun r => and_congr_right fun _ => ?_
  split <;> simp_all

theorem TaskTable.Ok.queuedDesc_taskId (hok : table.Ok) (h : queuedDesc table id = some d) :
    d.taskId = id := by
  obtain ⟨r, hr, -, rfl⟩ := queuedDesc_some.1 h
  exact hok.desc_id id r hr

/-- A task waits when its record says so. -/
theorem TaskTable.Ok.mem_waiting (hok : table.Ok) : d ∈ waiting table ↔
    ∃ r, taskTableFind table d.taskId = some r ∧ r.state = .queued ∧ r.desc = d := by
  rw [waiting_eq, List.mem_filterMap, ← queuedDesc_some]
  constructor
  · rintro ⟨x, -, hx⟩
    rw [hok.queuedDesc_taskId hx]
    exact hx
  · intro h
    obtain ⟨r, hr, -⟩ := queuedDesc_some.1 h
    exact ⟨d.taskId, (hok.mem_order _).2 (by simp [hr]), h⟩

theorem TaskTable.Ok.mem_taskIds_waiting (hok : table.Ok) : id ∈ taskIds (waiting table) ↔
    ∃ r, taskTableFind table id = some r ∧ r.state = .queued := by
  rw [mem_taskIds]
  constructor
  · rintro ⟨d, hd, rfl⟩
    obtain ⟨r, hr, hq, -⟩ := hok.mem_waiting.1 hd
    exact ⟨r, hr, hq⟩
  · rintro ⟨r, hr, hq⟩
    have hid := hok.desc_id id r hr
    exact ⟨r.desc, hok.mem_waiting.2 ⟨r, by rw [hid, hr], hq, rfl⟩, hid⟩

/-- The queued tasks of a table with the same order, told by what became of each
descriptor. -/
theorem waiting_congr {table' : TaskTable} (horder : table'.enqueueOrder = table.enqueueOrder)
    (h : ∀ x ∈ table.enqueueOrder, queuedDesc table' x = queuedDesc table x) :
    waiting table' = waiting table := by
  rw [waiting_eq, waiting_eq, horder]
  exact List.filterMap_congr h

theorem queuedDesc_update : queuedDesc (table.update id r) x =
    if x = id then (if r.state = .queued then some r.desc else none) else queuedDesc table x := by
  unfold queuedDesc
  rw [find_update]
  split <;> rfl

/-- A new record waits last, if it is queued. -/
theorem TaskTable.Ok.waiting_insert (hok : table.Ok)
    (hnew : taskTableFind table r.desc.taskId = none) :
    waiting (table.insert r) = waiting table ++ if r.state = .queued then [r.desc] else [] := by
  have hnot : r.desc.taskId ∉ table.enqueueOrder := by simp [hok.mem_order, hnew]
  have hold : table.enqueueOrder.filterMap (queuedDesc (table.insert r)) =
      table.enqueueOrder.filterMap (queuedDesc table) := by
    refine List.filterMap_congr fun x hx => ?_
    have hne : x ≠ r.desc.taskId := fun h => hnot (h ▸ hx)
    rw [queuedDesc, queuedDesc, find_insert, if_neg hne]
  have hself : queuedDesc (table.insert r) r.desc.taskId =
      if r.state = .queued then some r.desc else none := by
    rw [queuedDesc, find_insert, if_pos rfl, Option.bind_some]
  rw [waiting_eq, waiting_eq, order_insert, List.filterMap_append, hold]
  congr 1
  by_cases hq : r.state = .queued
  · rw [List.filterMap_cons, hself, if_pos hq, if_pos hq]
    rfl
  · rw [List.filterMap_cons, hself, if_neg hq, if_neg hq]
    rfl

/-- A task whose record is queued no longer leaves. -/
theorem TaskTable.Ok.waiting_leave (hok : table.Ok) (id : TaskId) (hstate : r.state ≠ .queued) :
    waiting (table.update id r) = withoutTask id (waiting table) := by
  rw [waiting_eq, waiting_eq, withoutTask, List.filter_filterMap, order_update]
  refine List.filterMap_congr fun x _ => ?_
  rw [queuedDesc_update]
  by_cases hx : x = id
  · rw [if_pos hx, if_neg hstate]
    cases hd : queuedDesc table x with
    | none => rfl
    | some d => simp [Option.filter, hok.queuedDesc_taskId hd, hx]
  · rw [if_neg hx]
    cases hd : queuedDesc table x with
    | none => rfl
    | some d => simp [Option.filter, hok.queuedDesc_taskId hd, hx]

/-- A queued task gets another priority. -/
theorem TaskTable.Ok.waiting_reprioritize (hok : table.Ok) (hr : taskTableFind table id = some r)
    (hstate : r.state = .queued) (priority : Int64) :
    waiting (table.update id { r with desc := { r.desc with priority := priority } }) =
      reprioritize id priority (waiting table) := by
  rw [waiting_eq, waiting_eq, reprioritize, List.map_filterMap, order_update]
  refine List.filterMap_congr fun x _ => ?_
  rw [queuedDesc_update]
  by_cases hx : x = id
  · have hd : queuedDesc table x = some r.desc := queuedDesc_some.2 ⟨r, hx ▸ hr, hstate, rfl⟩
    rw [if_pos hx, if_pos hstate, hd, Option.map_some, if_pos (hok.desc_id id r hr)]
    rfl
  · rw [if_neg hx]
    cases hd : queuedDesc table x with
    | none => rfl
    | some d => simp [hok.queuedDesc_taskId hd, hx]

/-- A record is taken out of the table. -/
theorem TaskTable.Ok.waiting_remove (hok : table.Ok) (id : TaskId) :
    waiting (taskTableRemove table id) = withoutTask id (waiting table) := by
  unfold taskTableRemove
  split
  · next hnone =>
    have hnot : id ∉ taskIds (waiting table) := by
      rw [hok.mem_taskIds_waiting]
      rintro ⟨r, hr, -⟩
      rw [show taskTableFind table id = none from hnone] at hr
      simp at hr
    rw [withoutTask_of_not_mem hnot]
  · rw [waiting_eq, waiting_eq, withoutTask, List.filter_filterMap]
    dsimp only
    rw [hok.nodup.erase_eq_filter, List.filterMap_filter]
    refine List.filterMap_congr fun x _ => ?_
    by_cases hx : x = id
    · cases hd : queuedDesc table x with
      | none => simp [hx]
      | some d => simp [Option.filter, hok.queuedDesc_taskId hd, hx]
    · have hsame : ∀ order count, queuedDesc ⟨Function.update table.byId id none, order, count⟩ x =
          queuedDesc table x := by
        intro order count
        simp only [queuedDesc, taskTableFind, Function.update_of_ne hx]
      rw [hsame]
      cases hd : queuedDesc table x with
      | none => simp
      | some d => simp [Option.filter, hok.queuedDesc_taskId hd, hx]

/-- An id that is not queued takes nothing away. -/
theorem TaskTable.Ok.withoutTask_waiting (hok : table.Ok) (hr : taskTableFind table id = some r)
    (hstate : r.state ≠ .queued) : withoutTask id (waiting table) = waiting table := by
  refine withoutTask_of_not_mem ?_
  rw [hok.mem_taskIds_waiting]
  rintro ⟨r', hr', hq⟩
  rw [hr] at hr'
  exact hstate (Option.some.inj hr' ▸ hq)

/-- A parent record is not queued, before and after its children were counted. -/
theorem waiting_updateParent (child : TaskRecord) (state : TaskState) :
    waiting (updateParentAfterChildLocked table child state) = waiting table := by
  unfold updateParentAfterChildLocked
  split
  · rfl
  · split
    · rfl
    · next p hp =>
      split
      · rfl
      · next hwaiting =>
        refine waiting_congr rfl fun x _ => ?_
        rw [queuedDesc_update]
        split
        · next hx =>
          have hstate : (p.countChild state).parentState ≠ .queued := parentState_ne _ _ nofun rfl
          rw [if_neg hstate, hx, queuedDesc, hp, Option.bind_some, if_neg]
          rw [not_not.1 hwaiting]
          simp
        · rfl

theorem TaskTable.Ok.remove (hok : table.Ok) (id : TaskId) : (taskTableRemove table id).Ok := by
  unfold taskTableRemove
  split
  · exact hok
  · next r hr =>
    have hfind : ∀ x, taskTableFind ⟨Function.update table.byId id none,
        table.enqueueOrder.erase id, if table.count > 0 then table.count - 1 else table.count⟩ x =
        if x = id then none else taskTableFind table x := by
      intro x
      simp [taskTableFind, Function.update_apply]
    have hin : id ∈ table.enqueueOrder :=
      (hok.mem_order id).2 (by rw [show taskTableFind table id = some r from hr]; rfl)
    refine ⟨hok.nodup.erase id, ?_, ?_, ?_, ?_⟩
    · intro x
      rw [hfind, hok.nodup.mem_erase_iff, hok.mem_order]
      split
      · next hx => simp [hx]
      · next hx => simp [hx]
    · intro x r' hr'
      rw [hfind] at hr'
      split at hr'
      · simp at hr'
      · exact hok.desc_id x r' hr'
    · intro x r' hr'
      rw [hfind] at hr'
      split at hr'
      · simp at hr'
      · exact hok.valid x r' hr'
    · have hpos := List.length_pos_of_mem hin
      have hcount := hok.count_eq
      rw [List.length_erase_of_mem hin]
      show (if table.count > 0 then table.count - 1 else table.count) = _
      rw [if_pos (by omega)]
      omega

end Waiting

/-! ## Agreement -/

variable {ν : Type} {σ : ν → Type}

/-- A policy keeps its invariant for these tasks; without a policy there is none to
keep. -/
def Holds (R : ∀ n, UInt64 → σ n → List TaskDesc → Prop) (t : UInt64) (policy : Option (Sigma σ))
    (l : List TaskDesc) : Prop :=
  match policy with
  | none => True
  | some ⟨n, state⟩ => R n t state l

/-- The table is in order, and the active policy keeps its invariant for the queued
tasks, in the order in which they were enqueued. -/
structure Agreed (R : ∀ n, UInt64 → σ n → List TaskDesc → Prop) (t : UInt64) (s : Sched σ) :
    Prop where
  ok : s.tasks.Ok
  holds : Holds R t s.policy (waiting s.tasks)

section Parts

variable {P : ∀ n, PluginDesc (σ n)} {Good : UInt64 → Env → UInt64 → Prop}
  {R : ∀ n, UInt64 → σ n → List TaskDesc → Prop} {E : Env} {s : Sched σ} {τ t : UInt64} {c : Cursor}

theorem Agreed.mono (hP : ∀ n, PolicyInv (P n) Good (R n)) (hE : Good τ E t) (h : Agreed R τ s) :
    Agreed R t s := by
  refine ⟨h.ok, ?_⟩
  have hholds := h.holds
  unfold Holds at hholds ⊢
  split
  · trivial
  · next n state hpolicy =>
    rw [hpolicy] at hholds
    exact (hP n).mono hE hholds

/-- The table and the policy are all that counts. -/
theorem Agreed.congr {s' : Sched σ} (h : Agreed R t s) (htasks : s'.tasks = s.tasks)
    (hpolicy : s'.policy = s.policy) : Agreed R t s' :=
  ⟨htasks ▸ h.ok, by rw [htasks, hpolicy]; exact h.holds⟩

theorem computeSplitConfig_agreed (hP : ∀ n, PolicyInv (P n) Good (R n)) (h : Agreed R t s)
    (task : TaskDesc) : Agreed R t (computeSplitConfig P s task).2 := by
  obtain ⟨hok, hholds⟩ := h
  rw [computeSplitConfig_sched]
  unfold getPolicySplitConfig
  split
  · exact ⟨hok, hholds⟩
  · next n state hpolicy =>
    rw [hpolicy] at hholds
    exact ⟨hok, ((hP n).config hholds).2⟩

/-- A task enters the table and the policy, or neither. -/
theorem enqueueTaskLocked_agreed (hP : ∀ n, PolicyInv (P n) Good (R n)) (hE : Good τ E t)
    (h : Agreed R t s) (task : TaskDesc) (c : Cursor) :
    Agreed R t (enqueueTaskLocked P E s task c).sched := by
  obtain ⟨hok, hholds⟩ := h
  unfold enqueueTaskLocked
  rcases taskTableInsertState_spec E s.tasks task s.enqueueSeqNext .queued c
    with ⟨hrc, hnew, hid, htable⟩ | ⟨hrc, htable⟩
  · have hins : (taskTableInsert E s.tasks task s.enqueueSeqNext c).rc = .ok := hrc
    have htab : (taskTableInsert E s.tasks task s.enqueueSeqNext c).table =
        s.tasks.insert { desc := task, state := .queued, enqueueSeq := s.enqueueSeqNext } := htable
    have hok' := hok.insert { desc := task, state := .queued, enqueueSeq := s.enqueueSeqNext } hnew hid
    have hwaiting := hok.waiting_insert
      (r := { desc := task, state := .queued, enqueueSeq := s.enqueueSeqNext }) hnew
    simp only [hins, ne_eq, not_true_eq_false, if_false, htab]
    cases hpolicy : s.policy with
    | none => exact ⟨hok', by simp [Holds]⟩
    | some policy =>
      obtain ⟨n, state⟩ := policy
      rw [hpolicy] at hholds
      generalize (taskTableInsert E s.tasks task s.enqueueSeqNext c).cursor = c'
      have hhook : Submits (R n t) (waiting s.tasks) task ((P n).onTaskSubmit E state task c') :=
        (hP n).submit hE hholds
      dsimp only
      rcases hhook with ⟨hrc', -, hstate⟩ | ⟨hrc', hstate⟩
      · rw [if_neg (not_not.2 hrc')]
        exact ⟨hok', by rw [hwaiting]; exact hstate⟩
      · rw [if_pos hrc']
        have hback := hok.insert_remove
          { desc := task, state := .queued, enqueueSeq := s.enqueueSeqNext } hnew
        dsimp only at hback
        rw [hback]
        exact ⟨hok, hstate⟩
  · have hins : (taskTableInsert E s.tasks task s.enqueueSeqNext c).rc ≠ .ok := hrc
    have htab : (taskTableInsert E s.tasks task s.enqueueSeqNext c).table = s.tasks := htable
    rw [if_pos hins]
    exact Agreed.congr ⟨hok, hholds⟩ htab rfl

theorem removeQueuedTaskLocked_agreed (hP : ∀ n, PolicyInv (P n) Good (R n)) (hE : Good τ E t)
    (h : Agreed R t s) (id : TaskId) (c : Cursor) :
    Agreed R t (removeQueuedTaskLocked P E s id c).1 := by
  obtain ⟨hok, hholds⟩ := h
  unfold removeQueuedTaskLocked
  cases hpolicy : s.policy with
  | none =>
    dsimp only
    exact ⟨hok.remove id, by simp [Holds, hpolicy]⟩
  | some policy =>
    obtain ⟨n, state⟩ := policy
    rw [hpolicy] at hholds
    obtain ⟨-, hstate⟩ : Finishes (R n t) (waiting s.tasks) id
      ((P n).onTaskFinished E state id .cancelled c) := (hP n).finished hE hholds
    exact ⟨hok.remove id, by rw [show waiting _ = _ from hok.waiting_remove id]; exact hstate⟩

theorem enqueueChildren_agreed (hP : ∀ n, PolicyInv (P n) Good (R n)) (hE : Good τ E t)
    (rest done : List TaskDesc) (h : Agreed R t s) (c : Cursor) :
    Agreed R t (enqueueChildren P E s done rest c).sched :=
  enqueueChildren_keeps (motive := Agreed R t) rest done
    (fun _ c task _ h => enqueueTaskLocked_agreed hP hE h task c)
    (fun _ id c h => removeQueuedTaskLocked_agreed hP hE h id c) h c

/-- The slices of a split enter all together or not at all; the parent does not wait
for selection. -/
theorem submitSplitTaskLocked_agreed (hP : ∀ n, PolicyInv (P n) Good (R n)) (hE : Good τ E t)
    (h : Agreed R t s) (parent : TaskDesc) (children : List TaskDesc) (c : Cursor) :
    Agreed R t (submitSplitTaskLocked P E s parent children c).sched := by
  obtain ⟨hok, hholds⟩ := h
  rcases taskTableInsertState_spec E s.tasks parent s.enqueueSeqNext .waiting c
    with ⟨hrc, hnew, hid, htable⟩ | ⟨hrc, htable⟩
  · rw [submitSplitTaskLocked_eq hrc htable]
    generalize (taskTableInsertState E s.tasks parent s.enqueueSeqNext .waiting c).cursor = c'
    have hok' := hok.insert (parentRecord parent s.enqueueSeqNext children.length) hnew hid
    have hwaiting : waiting (s.withParent parent children.length).tasks = waiting s.tasks :=
      (hok.waiting_insert hnew).trans (List.append_nil _)
    have hparent : Agreed R t (s.withParent parent children.length) :=
      ⟨hok', by rw [hwaiting]; exact hholds⟩
    have hagreed := enqueueChildren_agreed hP hE children [] hparent c'
    have hspec := enqueueChildren_spec (P := P) (E := E) (s := s.withParent parent children.length)
      (c := c') (s.withParent parent children.length).ledger (s.enqueueSeqNext + 1) [] children hok'
      (by simp) (by simp) (by simp) rfl rfl
    generalize enqueueChildren P E (s.withParent parent children.length) [] children c' = e
      at hagreed hspec ⊢
    dsimp only at hspec ⊢
    split
    · next hfail =>
      obtain ⟨-, hled⟩ := hspec.resolve_left fun h => hfail h.1
      have htasks : e.sched.tasks =
          s.tasks.insert (parentRecord parent s.enqueueSeqNext children.length) :=
        congrArg Ledger.tasks hled
      have hback := hok.insert_remove (parentRecord parent s.enqueueSeqNext children.length) hnew
      have hrestored : taskTableRemove e.sched.tasks parent.taskId = s.tasks := by
        rw [htasks]
        exact hback
      have hholds' := hagreed.holds
      rw [show waiting e.sched.tasks = waiting s.tasks by rw [htasks]; exact hwaiting] at hholds'
      exact ⟨by rw [hrestored]; exact hok, by rw [hrestored]; exact hholds'⟩
    · exact hagreed
  · unfold submitSplitTaskLocked
    simp only [if_pos hrc]
    exact Agreed.congr ⟨hok, hholds⟩ htable rfl

/-- Every part of a submission restores the agreement. -/
theorem submission_agreed (hP : ∀ n, PolicyInv (P n) Good (R n)) (hE : Good τ E t) :
    SubmissionKeeps P E (Agreed R t) where
  config _ task h := computeSplitConfig_agreed hP h task
  enqueue _ task c _ h := enqueueTaskLocked_agreed hP hE h task c
  split _ parent children c _ h := submitSplitTaskLocked_agreed hP hE h parent children c

end Parts

/-! ## Operations -/

section Operations

variable {P : ∀ n, PluginDesc (σ n)} {Good : UInt64 → Env → UInt64 → Prop}
  {R : ∀ n, UInt64 → σ n → List TaskDesc → Prop} {E : Env} {s : Sched σ} {τ t : UInt64} {c : Cursor}

/-- **A selection is served** when a task is queued, and finds none otherwise: the
policy names a queued task, which is handed out and leaves the policy. -/
theorem schedSelectNext_served (hP : ∀ n, PolicyInv (P n) Good (R n)) (hE : Good τ E t)
    (h : Agreed R τ s) {n : ν} {state : σ n} (hpolicy : s.policy = some ⟨n, state⟩) (c : Cursor) :
    let r := schedSelectNext P E s c
    Agreed R t r.sched ∧
    ((r.rc = .errNotFound ∧ waiting s.tasks = [] ∧ r.assignment = none) ∨
      ∃ record, taskTableFind s.tasks ((P n).selectNext E state c).taskId = some record ∧
        record.state = .queued ∧ r.rc = .ok ∧ r.assignment = some (fillAssignmentFromRecord record)) := by
  obtain ⟨hok, hholds⟩ := h
  rw [hpolicy] at hholds
  have hhook := (hP n).select (c := c) hE hholds
  dsimp only
  unfold schedSelectNext
  rw [hpolicy]
  dsimp only
  rcases hhook with ⟨hrc, hnil, hstate⟩ | ⟨d, hd, hrc, hid, hstate⟩
  · rw [if_pos (by rw [hrc]; simp)]
    exact ⟨⟨hok, hstate⟩, Or.inl ⟨hrc, hnil, rfl⟩⟩
  · rw [if_neg (not_not.2 hrc), hid]
    obtain ⟨record, hr, hq, -⟩ := hok.mem_waiting.1 hd
    rw [hr]
    dsimp only
    rw [if_neg (not_not.2 hq), setState_of_find hr]
    refine ⟨⟨hok.update hr (hok.desc_id _ record hr), ?_⟩, Or.inr ⟨record, rfl, hq, rfl, rfl⟩⟩
    rw [hok.waiting_leave d.taskId (by simp)]
    exact hstate

theorem schedSelectNext_agreed (hP : ∀ n, PolicyInv (P n) Good (R n)) (hE : Good τ E t)
    (h : Agreed R τ s) (c : Cursor) : Agreed R t (schedSelectNext P E s c).sched := by
  cases hpolicy : s.policy with
  | none =>
    unfold schedSelectNext
    rw [hpolicy]
    exact h.mono hP hE
  | some policy =>
    obtain ⟨n, state⟩ := policy
    exact (schedSelectNext_served hP hE h hpolicy c).1

theorem taskUpdatePriority_agreed (hP : ∀ n, PolicyInv (P n) Good (R n)) (hE : Good τ E t)
    (h : Agreed R τ s) (id : TaskId) (priority : Int64) (c : Cursor) :
    Agreed R t (taskUpdatePriority P E s id priority c).sched := by
  have hsame := h.mono hP hE
  obtain ⟨hok, hholds⟩ := h
  unfold taskUpdatePriority
  split
  · exact hsame
  · next r hr =>
    split
    · exact hsame
    · next hq =>
      have hok' : (s.tasks.update id { r with desc := { r.desc with priority := priority } }).Ok :=
        hok.update hr (hok.desc_id id r hr)
      have hwaiting := hok.waiting_reprioritize hr (not_not.1 hq) priority
      cases hpolicy : s.policy with
      | none =>
        dsimp only
        exact ⟨hok', trivial⟩
      | some policy =>
        obtain ⟨n, state⟩ := policy
        rw [hpolicy] at hholds
        have hhook : Reprioritizes (R n t) (waiting s.tasks) id priority
          ((P n).onTaskPriorityChanged E state id priority c) := (hP n).priorityChanged hE hholds
        dsimp only
        rcases hhook with ⟨hrc, hstate⟩ | ⟨hrc, hstate⟩
        · rw [if_neg (not_not.2 hrc)]
          exact ⟨hok', by rw [hwaiting]; exact hstate⟩
        · rw [if_pos hrc]
          exact ⟨hok, hstate⟩

/-- With a policy only an assigned task is started, which does not wait any more. -/
theorem taskStarted_agreed (hP : ∀ n, PolicyInv (P n) Good (R n)) (hE : Good τ E t)
    (h : Agreed R t s) (id : TaskId) (c : Cursor) : Agreed R t (taskStarted P E s id c).sched := by
  have hsame := h
  obtain ⟨hok, hholds⟩ := h
  unfold taskStarted
  split
  · exact hsame
  · next r hr =>
    split
    · exact hsame
    · next hstate =>
      dsimp only
      split
      · exact hsame
      · have hok' : (s.tasks.update id { r with state := .running }).Ok :=
          hok.update hr (hok.desc_id id r hr)
        rw [setState_of_find hr]
        cases hpolicy : s.policy with
        | none => exact ⟨hok', trivial⟩
        | some policy =>
          obtain ⟨n, state⟩ := policy
          rw [hpolicy] at hholds hstate
          have hnot : r.state ≠ .queued := by
            intro hq
            simp [hq] at hstate
          have hwaiting : waiting (s.tasks.update id { r with state := .running }) =
              waiting s.tasks := by
            rw [hok.waiting_leave id (by simp), hok.withoutTask_waiting hr hnot]
          have hhook : R n t ((P n).onTaskStarted E state id c).state (waiting s.tasks) :=
            ((hP n).started hE hholds).2
          dsimp only
          split
          · rw [setState_of_find (by rw [find_update, if_pos rfl]), update_update, update_self hr]
            exact ⟨hok, hhook⟩
          · exact ⟨hok', by rw [hwaiting]; exact hhook⟩

theorem finishTask_agreed (hP : ∀ n, PolicyInv (P n) Good (R n)) (hE : Good τ E t)
    (h : Agreed R t s) (id : TaskId) {state : TaskState} (hterm : taskStateIsTerminal state)
    (c : Cursor) : Agreed R t (finishTask P E s id state c).sched := by
  have hsame := h
  obtain ⟨hok, hholds⟩ := h
  unfold finishTask
  split
  · exact hsame
  · next r hr =>
    split
    · exact hsame
    · split
      · exact hsame
      · split
        · exact hsame
        · have hstate : state ≠ .queued := by
            rintro rfl
            simp [taskStateIsTerminal] at hterm
          have hok' : (s.tasks.update id { r with state := state }).Ok :=
            hok.update hr (hok.desc_id id r hr)
          have hok'' : (updateParentAfterChildLocked (s.tasks.update id { r with state := state }) r
            state).Ok := updateParent_ok hok'
          rw [setState_of_find hr]
          cases hpolicy : s.policy with
          | none => exact ⟨hok'', trivial⟩
          | some policy =>
            obtain ⟨n, policyState⟩ := policy
            rw [hpolicy] at hholds
            obtain ⟨-, hhook⟩ : Finishes (R n t) (waiting s.tasks) id
              ((P n).onTaskFinished E policyState id state c) := (hP n).finished hE hholds
            refine ⟨hok'', ?_⟩
            dsimp only
            rw [waiting_updateParent, hok.waiting_leave id hstate]
            exact hhook

/-- A replay hands the queued records to the new policy in turn. -/
theorem replayQueued_agreed (hP : ∀ n, PolicyInv (P n) Good (R n)) (hE : Good τ E t) {n : ν}
    (records : List TaskRecord) {state : σ n} {l : List TaskDesc} (hR : R n t state l)
    (hrc : (replayQueued P E n state records c).rc = .ok) :
    R n t (replayQueued P E n state records c).state (l ++ records.map TaskRecord.desc) := by
  induction records generalizing state l c with
  | nil =>
    rw [List.map_nil, List.append_nil]
    exact hR
  | cons record rest ih =>
    have hhook : Submits (R n t) l record.desc ((P n).onTaskSubmit E state record.desc c) :=
      (hP n).submit hE hR
    unfold replayQueued at hrc ⊢
    dsimp only at hrc ⊢
    split at hrc
    · next hfail => exact absurd hrc hfail
    · next hok =>
      rw [if_neg hok, List.map_cons, List.append_cons]
      obtain ⟨-, -, hstate⟩ := hhook.resolve_right fun h => h.1 (not_not.1 hok)
      exact ih hstate hrc

variable [DecidableEq ν]

theorem setPolicy_agreed (hP : ∀ n, PolicyInv (P n) Good (R n)) (hE : Good τ E t)
    (h : Agreed R t s) (name : ν) (options : KvArray) (c : Cursor) :
    Agreed R t (setPolicy P E s name options c).sched := by
  unfold setPolicy
  split
  · exact h
  · split
    · exact h
    · dsimp only
      split
      · exact h
      · next state hinit =>
        split
        · exact h
        · next hrc =>
          have hempty := (hP name).init hE hinit
          exact ⟨h.ok, replayQueued_agreed hP hE (taskTableQueued s.tasks) hempty (not_not.1 hrc)⟩

/-- **Every operation restores the agreement**, on every path and wherever the
allocator fails. -/
theorem step_agreed (hP : ∀ n, PolicyInv (P n) Good (R n)) (hE : Good τ E t) (h : Agreed R τ s)
    (op : Op ν) : Agreed R t (step P s E op).sched := by
  have hnow := h.mono hP hE
  cases op with
  | setCallbacks callbacks => exact hnow.congr rfl rfl
  | loadPlugin name valid =>
    show Agreed R t (loadPlugin E s name valid .start).sched
    unfold loadPlugin
    split
    · exact hnow
    · exact hnow.congr rfl rfl
  | setPolicy name options => exact setPolicy_agreed hP hE hnow name options _
  | submitTask task answers => exact (submission_agreed hP hE).submit hnow task answers _
  | submitBegin task => exact (submission_agreed hP hE).prepare hnow task _
  | submitEnd plan answers => exact (submission_agreed hP hE).finish hnow plan answers _
  | selectNext => exact schedSelectNext_agreed hP hE h _
  | taskUpdatePriority id priority => exact taskUpdatePriority_agreed hP hE h id priority _
  | taskStarted id => exact taskStarted_agreed hP hE hnow id _
  | taskCompleted id => exact finishTask_agreed hP hE hnow id rfl _
  | taskFailed id => exact finishTask_agreed hP hE hnow id rfl _
  | taskCancelled id => exact finishTask_agreed hP hE hnow id rfl _

omit [DecidableEq ν] in
theorem create_agreed (R : ∀ n, UInt64 → σ n → List TaskDesc → Prop) (t : UInt64) (qpu : Qpu) :
    Agreed R t (schedCreate qpu : Sched σ) := ⟨TaskTable.ok_empty, trivial⟩

/-- **The agreement holds after every run** of good calls. -/
theorem run_agreed (hP : ∀ n, PolicyInv (P n) Good (R n)) (h : Agreed R τ s)
    {is : List (Env × Op ν)} (his : GoodRun Good τ is t) :
    Agreed R t (Foundations.run (nextState P) s is) := by
  induction is generalizing s τ with
  | nil =>
    rw [show t = τ from his.symm]
    exact h
  | cons i is ih =>
    obtain ⟨u, hE, hrest⟩ := his
    exact ih (step_agreed hP hE h i.2) hrest

end Operations

end QhwScheduler
