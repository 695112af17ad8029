import QhwScheduler.Policy.Waiting

/-!
# Group maps

`qhw_group_map.c`: the group a task belongs to, and three hash tables over the
groups, one for each kind.

* `groupKeyFromTask` — by reservation, else by job, else the task alone.
* `GroupMap` and its operations; `groupMapSet` writes a group in place.
* `entries`, `ofGroup` — the groups of waiting tasks.
-/

namespace QhwScheduler

/-- `enum qhw_group_kind`. -/
inductive GroupKind where
  | reservation
  | job
  | task
  deriving DecidableEq, Repr

/-- `struct qhw_group_key`. -/
structure GroupKey where
  kind : GroupKind
  id : UInt64
  deriving DecidableEq

/-- `qhw_group_key_from_task`. -/
def groupKeyFromTask (task : TaskDesc) : GroupKey :=
  if task.reservationId ≠ 0 then ⟨.reservation, task.reservationId⟩
  else if task.jobId ≠ 0 then ⟨.job, task.jobId⟩
  else ⟨.task, task.taskId⟩

/-- `struct qhw_group_map`, over groups of type `α`. -/
structure GroupMap (α : Type) where
  reservationGroups : UInt64 → Option α
  jobGroups : UInt64 → Option α
  taskGroups : UInt64 → Option α

section

variable {α : Type}

/-- A map without groups. -/
def GroupMap.empty : GroupMap α := ⟨fun _ => none, fun _ => none, fun _ => none⟩

/-- `qhw_group_map_init`, one request for each table; `none` is
`QHW_SCHED_ERR_NO_MEMORY`. -/
def groupMapInit (E : Env) (c : Cursor) : Option (GroupMap α) × Cursor :=
  if !E.alloc c.allocs then (none, c.alloc)
  else if !E.alloc c.alloc.allocs then (none, c.alloc.alloc)
  else if !E.alloc c.alloc.alloc.allocs then (none, c.alloc.alloc.alloc)
  else (some GroupMap.empty, c.alloc.alloc.alloc)

/-- `group_map_table`. -/
def groupMapTable (map : GroupMap α) : GroupKind → UInt64 → Option α
  | .reservation => map.reservationGroups
  | .job => map.jobGroups
  | .task => map.taskGroups

/-- The map with another entry under a key. -/
def groupMapWrite (map : GroupMap α) (key : GroupKey) (entry : Option α) : GroupMap α :=
  match key.kind with
  | .reservation =>
    { map with reservationGroups := Function.update map.reservationGroups key.id entry }
  | .job => { map with jobGroups := Function.update map.jobGroups key.id entry }
  | .task => { map with taskGroups := Function.update map.taskGroups key.id entry }

/-- `qhw_group_map_find`. -/
def groupMapFind (map : GroupMap α) (key : GroupKey) : Option α := groupMapTable map key.kind key.id

/-- `qhw_group_map_insert`, of a group that exists. -/
def groupMapInsert (E : Env) (map : GroupMap α) (key : GroupKey) (value : α) (c : Cursor) :
    Rc × GroupMap α × Cursor :=
  if (groupMapFind map key).isSome then (.errExists, map, c)
  else if !E.alloc c.allocs then (.errNoMemory, map, c.alloc)
  else (.ok, groupMapWrite map key (some value), c.alloc)

/-- `qhw_group_map_remove`. -/
def groupMapRemove (map : GroupMap α) (key : GroupKey) : GroupMap α := groupMapWrite map key none

/-- The map after a group was written in place. -/
def groupMapSet (map : GroupMap α) (key : GroupKey) (value : α) : GroupMap α :=
  groupMapWrite map key (some value)

variable {map : GroupMap α} {key x : GroupKey} {entry : Option α} {value : α}

@[simp] theorem find_empty : groupMapFind (GroupMap.empty : GroupMap α) key = none := by
  cases key with
  | mk kind id => cases kind <;> rfl

@[simp] theorem find_write :
    groupMapFind (groupMapWrite map key entry) x = if x = key then entry else groupMapFind map x := by
  obtain ⟨kind, id⟩ := key
  obtain ⟨kind', id'⟩ := x
  cases kind <;> cases kind' <;>
    simp [groupMapFind, groupMapTable, groupMapWrite, Function.update_apply]

@[simp] theorem find_set :
    groupMapFind (groupMapSet map key value) x = if x = key then some value else groupMapFind map x :=
  find_write

@[simp] theorem find_remove :
    groupMapFind (groupMapRemove map key) x = if x = key then none else groupMapFind map x :=
  find_write

theorem groupMapInit_eq_empty {E : Env} {c c' : Cursor} {map : GroupMap α}
    (h : groupMapInit E c = (some map, c')) : map = GroupMap.empty := by
  unfold groupMapInit at h
  split at h
  · simp at h
  · split at h
    · simp at h
    · split at h
      · simp at h
      · simp only [Prod.mk.injEq, Option.some.injEq] at h
        exact h.1.symm

end

/-! ## The groups of waiting tasks -/

/-- The waiting tasks with their groups. -/
def entries (l : List TaskDesc) : List (TaskId × GroupKey) :=
  l.map fun d => (d.taskId, groupKeyFromTask d)

/-- The tasks of a group in a list. -/
def ofGroup (key : GroupKey) (l : List TaskDesc) : List TaskDesc :=
  l.filter fun d => groupKeyFromTask d = key

section

variable {l : List TaskDesc} {d : TaskDesc} {id : TaskId} {key : GroupKey} {priority : Int64}

theorem mem_entries {x : TaskId} :
    (x, key) ∈ entries l ↔ ∃ d ∈ l, d.taskId = x ∧ groupKeyFromTask d = key := by
  simp only [entries, List.mem_map, Prod.mk.injEq]

theorem entries_append (l : List TaskDesc) (d : TaskDesc) :
    entries (l ++ [d]) = entries l ++ [(d.taskId, groupKeyFromTask d)] := List.map_append

/-- A priority does not decide about the group. -/
theorem entries_reprioritize (id : TaskId) (priority : Int64) (l : List TaskDesc) :
    entries (reprioritize id priority l) = entries l := by
  rw [entries, entries, reprioritize, List.map_map]
  refine List.map_congr_left fun d _ => ?_
  simp only [Function.comp_apply]
  split <;> rfl

theorem mem_entries_withoutTask {x : TaskId} :
    (x, key) ∈ entries (withoutTask id l) ↔ (x, key) ∈ entries l ∧ x ≠ id := by
  simp only [mem_entries, mem_withoutTask]
  constructor
  · rintro ⟨d, ⟨hd, hne⟩, rfl, hk⟩
    exact ⟨⟨d, hd, rfl, hk⟩, hne⟩
  · rintro ⟨⟨d, hd, rfl, hk⟩, hne⟩
    exact ⟨d, ⟨hd, hne⟩, rfl, hk⟩

@[simp] theorem ofGroup_nil : ofGroup key [] = [] := rfl

@[simp] theorem mem_ofGroup : d ∈ ofGroup key l ↔ d ∈ l ∧ groupKeyFromTask d = key := by
  simp [ofGroup]

theorem ofGroup_sublist : (ofGroup key l).Sublist l := List.filter_sublist

theorem ofGroup_append (l l' : List TaskDesc) :
    ofGroup key (l ++ l') = ofGroup key l ++ ofGroup key l' := List.filter_append _ _

theorem ofGroup_withoutTask : ofGroup key (withoutTask id l) = withoutTask id (ofGroup key l) := by
  simp only [ofGroup, withoutTask, List.filter_filter, Bool.and_comm]

theorem mem_taskIds_ofGroup : id ∈ taskIds (ofGroup key l) ↔ (id, key) ∈ entries l := by
  simp only [mem_taskIds, mem_ofGroup, mem_entries]
  constructor
  · rintro ⟨d, ⟨hd, hk⟩, hid⟩
    exact ⟨d, hd, hid, hk⟩
  · rintro ⟨d, hd, hid, hk⟩
    exact ⟨d, ⟨hd, hk⟩, hid⟩

/-- A group without the task stays as it is when the task leaves. -/
theorem ofGroup_withoutTask_of_ne (h : (id, key) ∉ entries l) :
    ofGroup key (withoutTask id l) = ofGroup key l := by
  rw [ofGroup_withoutTask, withoutTask_of_not_mem fun hin => h (mem_taskIds_ofGroup.1 hin)]

theorem ofGroup_reprioritize :
    ofGroup key (reprioritize id priority l) = reprioritize id priority (ofGroup key l) := by
  rw [ofGroup, ofGroup, reprioritize, reprioritize, List.filter_map]
  congr 1
  refine List.filter_congr fun d _ => ?_
  simp only [Function.comp_apply]
  split <;> rfl

end

end QhwScheduler
