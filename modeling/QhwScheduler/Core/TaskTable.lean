import Mathlib.Data.Set.Card
import QhwScheduler.Types

/-!
# The task table

`qhw_task.c`: the records of the accepted tasks, by id and in the order in which
they were enqueued.

* `taskTableInsertState`, `taskTableRemove`, `taskTableFind`,
  `taskTableSetState`, `taskTableQueued` — the operations.
* `TaskTable.Ok` — the two indexes list the same records, each under its own id.
* `insert_remove` — an insertion that is taken back leaves the table as it was.
* `number` — how many records have a property; `number_insert`, `number_update`
  — how insertion and a state change move it.
-/

namespace QhwScheduler

/-- `struct qhw_task_record`. -/
structure TaskRecord where
  desc : TaskDesc
  state : TaskState
  enqueueSeq : ℕ
  childCount : ℕ := 0
  completedChildCount : ℕ := 0
  failedChildCount : ℕ := 0
  cancelledChildCount : ℕ := 0
  deriving DecidableEq, Inhabited

/-- `struct qhw_task_table`. -/
structure TaskTable where
  byId : TaskId → Option TaskRecord
  enqueueOrder : List TaskId
  count : ℕ

/-- `qhw_task_table_init`. -/
def TaskTable.empty : TaskTable := ⟨fun _ => none, [], 0⟩

/-- `qhw_task_table_find`. -/
def taskTableFind (table : TaskTable) (id : TaskId) : Option TaskRecord := table.byId id

/-- Result code, table and cursor of an insertion. -/
structure InsertResult where
  rc : Rc
  table : TaskTable
  cursor : Cursor

/-- The table with one more record, at the end of the order. -/
def TaskTable.insert (table : TaskTable) (record : TaskRecord) : TaskTable where
  byId := Function.update table.byId record.desc.taskId (some record)
  enqueueOrder := table.enqueueOrder ++ [record.desc.taskId]
  count := table.count + 1

/-- The table with the record of this id replaced. -/
def TaskTable.update (table : TaskTable) (id : TaskId) (record : TaskRecord) : TaskTable :=
  { table with byId := Function.update table.byId id (some record) }

/-- `sizeof(qhw_sched_kv_t)`. -/
def sizeofKv : ℕ := 24

/-- `qhw_task_table_insert_state`: the record, a copy of its metadata and the
hash entry are asked for in this order. -/
def taskTableInsertState (E : Env) (table : TaskTable) (task : TaskDesc) (enqueueSeq : ℕ)
    (state : TaskState) (c : Cursor) : InsertResult :=
  if task.taskId = invalidTaskId then ⟨.errInvalidArg, table, c⟩
  else if !E.alloc c.allocs then ⟨.errNoMemory, table, c.alloc⟩
  else if (taskTableFind table task.taskId).isSome then ⟨.errExists, table, c.alloc⟩
  else
    match task.metadata with
    | none => ⟨.errInvalidArg, table, c.alloc⟩
    | some kvs =>
      if kvs.length > u64Max.toNat / sizeofKv then ⟨.errInvalidArg, table, c.alloc⟩
      else if !kvs.isEmpty && !E.alloc c.alloc.allocs then ⟨.errNoMemory, table, c.alloc.alloc⟩
      else
        let c := if kvs.isEmpty then c.alloc else c.alloc.alloc
        if !E.alloc c.allocs then ⟨.errNoMemory, table, c.alloc⟩
        else ⟨.ok, table.insert { desc := task, state := state, enqueueSeq := enqueueSeq }, c.alloc⟩

/-- `qhw_task_table_insert`. -/
def taskTableInsert (E : Env) (table : TaskTable) (task : TaskDesc) (enqueueSeq : ℕ)
    (c : Cursor) : InsertResult :=
  taskTableInsertState E table task enqueueSeq .queued c

/-- `qhw_task_table_remove`. -/
def taskTableRemove (table : TaskTable) (id : TaskId) : TaskTable :=
  match table.byId id with
  | none => table
  | some _ =>
    { byId := Function.update table.byId id none
      enqueueOrder := table.enqueueOrder.erase id
      count := if table.count > 0 then table.count - 1 else table.count }

/-- `qhw_task_table_set_state`, for an id that has a record. -/
def taskTableSetState (table : TaskTable) (id : TaskId) (state : TaskState) : TaskTable :=
  match table.byId id with
  | none => table
  | some record => table.update id { record with state := state }

/-- The records `qhw_task_table_for_each_queued` walks over, in order. -/
def taskTableQueued (table : TaskTable) : List TaskRecord :=
  (table.enqueueOrder.filterMap table.byId).filter fun record => record.state = .queued

/-! ## Reading a table after a change -/

section Find

variable {table : TaskTable} {record : TaskRecord} {id x : TaskId}

@[simp] theorem find_insert : taskTableFind (table.insert record) x =
    if x = record.desc.taskId then some record else taskTableFind table x := by
  simp [taskTableFind, TaskTable.insert, Function.update_apply]

@[simp] theorem find_update : taskTableFind (table.update id record) x =
    if x = id then some record else taskTableFind table x := by
  simp [taskTableFind, TaskTable.update, Function.update_apply]

@[simp] theorem order_insert :
    (table.insert record).enqueueOrder = table.enqueueOrder ++ [record.desc.taskId] := rfl

@[simp] theorem order_update : (table.update id record).enqueueOrder = table.enqueueOrder := rfl

theorem setState_of_find {state : TaskState} (h : taskTableFind table id = some record) :
    taskTableSetState table id state = table.update id { record with state := state } := by
  have h' : table.byId id = some record := h
  simp [taskTableSetState, h']

theorem update_update {r r' : TaskRecord} :
    (table.update id r).update id r' = table.update id r' := by
  simp [TaskTable.update]

theorem update_self (h : taskTableFind table id = some record) : table.update id record = table := by
  have h' : table.byId id = some record := h
  simp [TaskTable.update, ← h']

end Find

/-! ## The table invariant -/

/-- The order lists exactly the ids that have a record, once each, and a record
is filed under its own id, which is a valid one. -/
structure TaskTable.Ok (table : TaskTable) : Prop where
  nodup : table.enqueueOrder.Nodup
  mem_order : ∀ id, id ∈ table.enqueueOrder ↔ (taskTableFind table id).isSome
  desc_id : ∀ id r, taskTableFind table id = some r → r.desc.taskId = id
  valid : ∀ id r, taskTableFind table id = some r → id ≠ invalidTaskId
  count_eq : table.count = table.enqueueOrder.length

namespace TaskTable

variable {table : TaskTable} {record : TaskRecord} {id : TaskId}

theorem ok_empty : Ok empty :=
  ⟨by simp [empty], by simp [empty, taskTableFind], by simp [empty, taskTableFind],
    by simp [empty, taskTableFind], rfl⟩

theorem Ok.insert (hok : table.Ok) (record : TaskRecord)
    (hnew : taskTableFind table record.desc.taskId = none)
    (hid : record.desc.taskId ≠ invalidTaskId) : (table.insert record).Ok := by
  have hnot : record.desc.taskId ∉ table.enqueueOrder := by simp [hok.mem_order, hnew]
  refine ⟨?_, ?_, ?_, ?_, ?_⟩
  · rw [order_insert, List.nodup_append]
    refine ⟨hok.nodup, by simp, ?_⟩
    intro a ha b hb
    rw [List.mem_singleton.1 hb]
    exact fun hab => hnot (hab ▸ ha)
  · intro x
    rw [order_insert, List.mem_append, List.mem_singleton, find_insert, hok.mem_order]
    split <;> simp_all
  · intro x r hr
    rw [find_insert] at hr
    split at hr
    · next hx => rw [hx, Option.some.inj hr]
    · exact hok.desc_id x r hr
  · intro x r hr
    rw [find_insert] at hr
    split at hr
    · next hx => rw [hx]; exact hid
    · exact hok.valid x r hr
  · simp [TaskTable.insert, hok.count_eq]

theorem Ok.update (hok : table.Ok) {old : TaskRecord} (hold : taskTableFind table id = some old)
    (hid : record.desc.taskId = id) : (table.update id record).Ok := by
  refine ⟨hok.nodup, ?_, ?_, ?_, hok.count_eq⟩
  · intro x
    rw [order_update, find_update, hok.mem_order]
    split
    · next hx => simp [hx, hold]
    · rfl
  · intro x r hr
    rw [find_update] at hr
    split at hr
    · next hx => rw [hx, ← Option.some.inj hr, hid]
    · exact hok.desc_id x r hr
  · intro x r hr
    rw [find_update] at hr
    split at hr
    · next hx => rw [hx]; exact hok.valid id old hold
    · exact hok.valid x r hr

/-- An insertion that is taken back leaves the table as it was. -/
theorem Ok.insert_remove (hok : table.Ok) (record : TaskRecord)
    (hnew : taskTableFind table record.desc.taskId = none) :
    taskTableRemove (table.insert record) record.desc.taskId = table := by
  have hnew' : table.byId record.desc.taskId = none := hnew
  have hnot : record.desc.taskId ∉ table.enqueueOrder := by simp [hok.mem_order, hnew]
  have hby : (table.insert record).byId record.desc.taskId = some record := by
    simp [TaskTable.insert]
  simp only [taskTableRemove, hby]
  cases table with
  | mk byId order count =>
    simp only [TaskTable.insert] at hnot hnew' ⊢
    congr 1
    · rw [Function.update_idem, ← hnew', Function.update_eq_self]
    · rw [List.erase_append_right _ hnot]
      simp

end TaskTable

/-! ## Counting records -/

/-- How many records have the property. -/
noncomputable def TaskTable.number (table : TaskTable) (p : TaskRecord → Prop) : ℕ :=
  Set.ncard {id | ∃ r, taskTableFind table id = some r ∧ p r}

namespace TaskTable

variable {table : TaskTable} {record : TaskRecord} {id : TaskId} {p : TaskRecord → Prop}

theorem number_empty (p : TaskRecord → Prop) : empty.number p = 0 := by
  simp [number, empty, taskTableFind]

theorem Ok.finite (hok : table.Ok) (p : TaskRecord → Prop) :
    {id | ∃ r, taskTableFind table id = some r ∧ p r}.Finite := by
  refine Set.Finite.subset (List.finite_toSet table.enqueueOrder) ?_
  rintro id ⟨r, hr, -⟩
  exact (hok.mem_order id).2 (by simp [hr])

/-- A new record adds itself. -/
theorem Ok.number_insert [DecidablePred p] (hok : table.Ok)
    (hnew : taskTableFind table record.desc.taskId = none) :
    (table.insert record).number p = table.number p + if p record then 1 else 0 := by
  have hset : {id | ∃ r, taskTableFind (table.insert record) id = some r ∧ p r} =
      if p record then Insert.insert record.desc.taskId {id | ∃ r, taskTableFind table id = some r ∧ p r}
      else {id | ∃ r, taskTableFind table id = some r ∧ p r} := by
    ext x
    by_cases hx : x = record.desc.taskId
    · subst hx
      split <;> simp_all
    · split <;> simp_all
  unfold number
  rw [hset]
  split
  · rw [Set.ncard_insert_of_notMem (by simp [hnew]) (hok.finite p)]
  · rfl

/-- A change of one record moves the number by what that record counts for. -/
theorem Ok.number_update (p : TaskRecord → Prop) [DecidablePred p] (hok : table.Ok)
    (record : TaskRecord) {old : TaskRecord}
    (hold : taskTableFind table id = some old) :
    (table.update id record).number p + (if p old then 1 else 0) =
      table.number p + if p record then 1 else 0 := by
  have hrest : ∀ t : TaskTable, ∀ r, taskTableFind t id = some r →
      {x | ∃ r, taskTableFind t x = some r ∧ p r} =
        if p r then Insert.insert id {x | x ≠ id ∧ ∃ r, taskTableFind t x = some r ∧ p r}
        else {x | x ≠ id ∧ ∃ r, taskTableFind t x = some r ∧ p r} := by
    intro t r hr
    ext x
    by_cases hx : x = id
    · subst hx
      split <;> simp_all
    · split <;> simp_all
  have hsame : {x | x ≠ id ∧ ∃ r, taskTableFind (table.update id record) x = some r ∧ p r} =
      {x | x ≠ id ∧ ∃ r, taskTableFind table x = some r ∧ p r} := by
    ext x
    by_cases hx : x = id <;> simp [hx]
  have hfin : {x | x ≠ id ∧ ∃ r, taskTableFind table x = some r ∧ p r}.Finite :=
    (hok.finite p).subset fun x hx => hx.2
  have hnot : id ∉ {x | x ≠ id ∧ ∃ r, taskTableFind table x = some r ∧ p r} := by simp
  unfold number
  rw [hrest table old hold, hrest (table.update id record) record (by simp), hsame]
  split <;> split <;> simp [Set.ncard_insert_of_notMem hnot hfin]

theorem number_pos (hok : table.Ok) (h : taskTableFind table id = some record) (hp : p record) :
    0 < table.number p :=
  (Set.ncard_pos (hok.finite p)).2 ⟨id, record, h, hp⟩

end TaskTable

end QhwScheduler
