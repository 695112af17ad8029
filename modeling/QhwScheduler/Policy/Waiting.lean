import QhwScheduler.Types

/-!
# Waiting tasks

The tasks that wait for selection, as a list in the order in which they came.

* `taskIds`, `withoutTask`, `reprioritize` — the ids, and the two changes of the
  list other than an arrival.
-/

namespace QhwScheduler

/-- The ids of the tasks, in order. -/
def taskIds (l : List TaskDesc) : List TaskId := l.map TaskDesc.taskId

/-- The list once this task has left. -/
def withoutTask (id : TaskId) (l : List TaskDesc) : List TaskDesc := l.filter (·.taskId ≠ id)

/-- The task with another priority. -/
def TaskDesc.withPriority (d : TaskDesc) (priority : Int64) : TaskDesc :=
  { d with priority := priority }

/-- The list once the priority of this task has changed. -/
def reprioritize (id : TaskId) (priority : Int64) (l : List TaskDesc) : List TaskDesc :=
  l.map fun d => if d.taskId = id then d.withPriority priority else d

section

variable {l : List TaskDesc} {d e : TaskDesc} {id : TaskId} {priority : Int64}

@[simp] theorem withPriority_taskId : (d.withPriority priority).taskId = d.taskId := rfl

@[simp] theorem taskIds_nil : taskIds [] = [] := rfl

@[simp] theorem taskIds_append (l l' : List TaskDesc) : taskIds (l ++ l') = taskIds l ++ taskIds l' :=
  List.map_append

@[simp] theorem taskIds_cons : taskIds (d :: l) = d.taskId :: taskIds l := rfl

theorem mem_taskIds : id ∈ taskIds l ↔ ∃ d ∈ l, d.taskId = id := List.mem_map

theorem mem_taskIds_of_mem (h : d ∈ l) : d.taskId ∈ taskIds l := List.mem_map_of_mem h

/-- With distinct ids a task is known by its id. -/
theorem eq_of_taskId_eq (hnd : (taskIds l).Nodup) (hd : d ∈ l) (he : e ∈ l)
    (h : d.taskId = e.taskId) : d = e := List.inj_on_of_nodup_map hnd hd he h

/-- With distinct ids a task is found by its id. -/
theorem find_taskId (hnd : (taskIds l).Nodup) (hd : d ∈ l) :
    l.find? (·.taskId = d.taskId) = some d := by
  obtain ⟨e, he⟩ : ∃ e, l.find? (·.taskId = d.taskId) = some e := by
    rw [← Option.isSome_iff_exists, List.find?_isSome]
    exact ⟨d, hd, by simp⟩
  have hid : e.taskId = d.taskId := by simpa using List.find?_some he
  rw [he, eq_of_taskId_eq hnd (List.mem_of_find?_eq_some he) hd hid]

@[simp] theorem withoutTask_nil : withoutTask id [] = [] := rfl

@[simp] theorem mem_withoutTask : d ∈ withoutTask id l ↔ d ∈ l ∧ d.taskId ≠ id := by
  simp [withoutTask]

theorem withoutTask_sublist : (withoutTask id l).Sublist l := List.filter_sublist

theorem taskIds_withoutTask_sublist : (taskIds (withoutTask id l)).Sublist (taskIds l) :=
  withoutTask_sublist.map _

theorem mem_taskIds_withoutTask {x : TaskId} :
    x ∈ taskIds (withoutTask id l) ↔ x ∈ taskIds l ∧ x ≠ id := by
  simp only [mem_taskIds, mem_withoutTask]
  constructor
  · rintro ⟨d, ⟨hd, hne⟩, rfl⟩
    exact ⟨⟨d, hd, rfl⟩, hne⟩
  · rintro ⟨⟨d, hd, rfl⟩, hne⟩
    exact ⟨d, ⟨hd, hne⟩, rfl⟩

theorem withoutTask_of_not_mem (h : id ∉ taskIds l) : withoutTask id l = l := by
  rw [withoutTask, List.filter_eq_self]
  intro d hd
  have hne : d.taskId ≠ id := fun e => h (e ▸ mem_taskIds_of_mem hd)
  simpa using hne

/-- Taking the first task away by its id is dropping it. -/
theorem withoutTask_cons_self (hnd : (taskIds (d :: l)).Nodup) :
    withoutTask d.taskId (d :: l) = l := by
  rw [taskIds_cons, List.nodup_cons] at hnd
  rw [withoutTask, List.filter_cons_of_neg (by simp)]
  exact withoutTask_of_not_mem hnd.1

theorem withoutTask_append_self (h : d.taskId ∉ taskIds l) :
    withoutTask d.taskId (l ++ [d]) = l := by
  rw [withoutTask, List.filter_append, List.filter_cons_of_neg (by simp), List.filter_nil,
    List.append_nil]
  exact withoutTask_of_not_mem h

@[simp] theorem taskIds_reprioritize : taskIds (reprioritize id priority l) = taskIds l := by
  simp only [taskIds, reprioritize, List.map_map]
  refine List.map_congr_left fun d _ => ?_
  show (if d.taskId = id then d.withPriority priority else d).taskId = d.taskId
  split <;> rfl

theorem mem_reprioritize : e ∈ reprioritize id priority l ↔
    ∃ d ∈ l, e = if d.taskId = id then d.withPriority priority else d := by
  simp only [reprioritize, List.mem_map, eq_comm]

end

end QhwScheduler
