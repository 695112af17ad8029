import QhwScheduler.Core.Split
import QhwScheduler.Foundations.Rotation
import QhwScheduler.Policy.Contract
import QhwScheduler.Policy.GroupMap

/-!
# The round_robin plugin

`round_robin.c`: one list of tasks for each group, and a list of the groups that
have tasks.  The front group gives its first task and goes to the back.

* `rrPlugin` — the hooks.
* `RrOk` — the state stands for a rotation; `rrOnTaskSubmit_spec`,
  `rrSelectNext_spec`, `rrOnTaskFinished_spec` — the hooks are its turns.
* `rr_policyInv` — the lists hold exactly the waiting tasks.
-/

namespace QhwScheduler

open Foundations

/-! ## The code -/

/-- `struct rr_group`: the tasks in its list, and their number. -/
structure RrGroup where
  ready : List TaskId
  readyCount : ℕ

/-- `struct rr_task`. -/
structure RrTask where
  desc : TaskDesc
  group : GroupKey

/-- `struct rr_state`. -/
structure RrState where
  groups : GroupMap RrGroup
  tasks : TaskId → Option RrTask
  activeGroups : List GroupKey
  splitConfig : SplitConfig

section

variable (E : Env)

/-- `rr_group_free`. -/
def rrGroupFree (s : RrState) (key : GroupKey) : RrState :=
  { s with groups := groupMapRemove s.groups key }

/-- `rr_group_create`; `none` is the null pointer. -/
def rrGroupCreate (s : RrState) (key : GroupKey) (c : Cursor) :
    Option RrGroup × RrState × Cursor :=
  if !E.alloc c.allocs then (none, s, c.alloc)
  else
    match groupMapInsert E s.groups key (⟨[], 0⟩ : RrGroup) c.alloc with
    | (.ok, groups, c) => (some ⟨[], 0⟩, { s with groups := groups }, c)
    | (_, _, c) => (none, s, c)

/-- `rr_group_get`. -/
def rrGroupGet (s : RrState) (key : GroupKey) (c : Cursor) : Option RrGroup × RrState × Cursor :=
  match groupMapFind s.groups key with
  | some group => (some group, s, c)
  | none => rrGroupCreate E s key c

/-- `rr_remove_ready_task`. -/
def rrRemoveReadyTask (s : RrState) (id : TaskId) : Rc × RrState :=
  match s.tasks id with
  | none => (.errNotFound, s)
  | some task =>
    match groupMapFind s.groups task.group with
    | none => (.errState, s)
    | some group =>
      if group.readyCount = 0 then (.errState, s)
      else
        let group' : RrGroup := ⟨group.ready.erase id, group.readyCount - 1⟩
        let s := { s with
          groups := groupMapSet s.groups task.group group'
          tasks := Function.update s.tasks id none }
        if group'.readyCount = 0 then
          (.ok, rrGroupFree { s with activeGroups := s.activeGroups.erase task.group } task.group)
        else (.ok, s)

/-- `rr_init`. -/
def rrInit (options : KvArray) (c : Cursor) : InitResult RrState :=
  if !E.alloc c.allocs then ⟨.error .errNoMemory, c.alloc⟩
  else
    match groupMapInit E c.alloc with
    | (none, c) => ⟨.error .errNoMemory, c⟩
    | (some groups, c) =>
      if !E.alloc c.allocs then ⟨.error .errNoMemory, c.alloc⟩
      else
        match splitConfigParseOptions splitConfigInit options with
        | none => ⟨.error .errInvalidArg, c.alloc⟩
        | some splitConfig => ⟨.ok ⟨groups, fun _ => none, [], splitConfig⟩, c.alloc⟩

/-- `rr_on_task_submit`. -/
def rrOnTaskSubmit (s : RrState) (task : TaskDesc) (c : Cursor) : HookResult RrState :=
  if (s.tasks task.taskId).isSome then ⟨.errExists, s, c⟩
  else
    let key := groupKeyFromTask task
    match rrGroupGet E s key c with
    | (none, s, c) => ⟨.errNoMemory, s, c⟩
    | (some group, s, c) =>
      let back := if group.readyCount = 0 then rrGroupFree s key else s
      if !E.alloc c.allocs then ⟨.errNoMemory, back, c.alloc⟩
      else if !E.alloc c.alloc.allocs then ⟨.errNoMemory, back, c.alloc.alloc⟩
      else
        ⟨.ok,
          { s with
            tasks := Function.update s.tasks task.taskId (some ⟨task, key⟩)
            activeGroups := if group.readyCount = 0 then s.activeGroups ++ [key] else s.activeGroups
            groups := groupMapSet s.groups key
              ⟨group.ready ++ [task.taskId], group.readyCount + 1⟩ },
          c.alloc.alloc⟩

/-- `rr_select_next`. -/
def rrSelectNext (s : RrState) (c : Cursor) : SelectResult RrState :=
  match s.activeGroups with
  | [] => ⟨.errNotFound, invalidTaskId, s, c⟩
  | key :: rest =>
    let s := { s with activeGroups := rest }
    match groupMapFind s.groups key with
    | none => ⟨.errState, invalidTaskId, s, c⟩
    | some group =>
      match group.ready with
      | [] => ⟨.errState, invalidTaskId, rrGroupFree s key, c⟩
      | x :: ready =>
        if group.readyCount = 0 then ⟨.errState, invalidTaskId, rrGroupFree s key, c⟩
        else
          match s.tasks x with
          | none => ⟨.errState, invalidTaskId, s, c⟩
          | some task =>
            let id := task.desc.taskId
            let group' : RrGroup := ⟨ready, group.readyCount - 1⟩
            let s := { s with
              groups := groupMapSet s.groups key group'
              tasks := Function.update s.tasks id none }
            if group'.readyCount > 0 then
              ⟨.ok, id, { s with activeGroups := s.activeGroups ++ [key] }, c⟩
            else ⟨.ok, id, rrGroupFree s key, c⟩

/-- `rr_on_task_finished`. -/
def rrOnTaskFinished (s : RrState) (id : TaskId) (c : Cursor) : HookResult RrState :=
  let (rc, s) := rrRemoveReadyTask s id
  ⟨if rc = .errNotFound then .ok else rc, s, c⟩

end

/-- `rr_desc`. -/
def rrPlugin : PluginDesc RrState where
  init := fun E options c => rrInit E options c
  onTaskSubmit := fun E s task c => rrOnTaskSubmit E s task c
  selectNext := fun _ s c => rrSelectNext s c
  getSplitConfig := fun _ s => ⟨.ok, s.splitConfig, s⟩
  onTaskPriorityChanged := fun _ s _ _ c => ⟨.ok, s, c⟩
  onTaskStarted := fun _ s _ c => ⟨.ok, s, c⟩
  onTaskFinished := fun _ s id _ c => rrOnTaskFinished s id c

/-! ## The state as a rotation -/

/-- The list of active groups is the ring, the groups list their members, and the
table knows every task with its group. -/
structure RrOk (s : RrState) (r : Rotation TaskId GroupKey) : Prop where
  rotation : r.Ok
  active : s.activeGroups = r.ring
  groups : ∀ g, groupMapFind s.groups g =
    if g ∈ r.groups then some ⟨r.members g, (r.members g).length⟩ else none
  tasks : ∀ x g, (∃ t, s.tasks x = some t ∧ t.group = g) ↔ (x, g) ∈ r.waiting
  named : ∀ x t, s.tasks x = some t → t.desc.taskId = x

section

variable {E : Env} {s : RrState} {r : Rotation TaskId GroupKey} {id : TaskId} {task : TaskDesc}
  {c : Cursor}

theorem RrOk.tasks_isSome_iff (hs : RrOk s r) (x : TaskId) : (s.tasks x).isSome ↔ x ∈ r.names := by
  rw [Option.isSome_iff_exists, Rotation.mem_names]
  constructor
  · rintro ⟨t, ht⟩
    exact ⟨t.group, (hs.tasks x t.group).1 ⟨t, ht, rfl⟩⟩
  · rintro ⟨g, hg⟩
    obtain ⟨t, ht, -⟩ := (hs.tasks x g).2 hg
    exact ⟨t, ht⟩

/-- The table of groups after one group got these members. -/
theorem groups_set {map : GroupMap RrGroup} (r' : Rotation TaskId GroupKey) (key : GroupKey)
    (hmap : ∀ g, g ≠ key → groupMapFind map g =
      if g ∈ r.groups then some ⟨r.members g, (r.members g).length⟩ else none)
    (hother : ∀ g, g ≠ key → r'.members g = r.members g) (hkey : r'.members key ≠ []) (g : GroupKey) :
    groupMapFind (groupMapSet map key ⟨r'.members key, (r'.members key).length⟩) g =
      if g ∈ r'.groups then some ⟨r'.members g, (r'.members g).length⟩ else none := by
  rw [find_set]
  split
  · next hg =>
    rw [hg, if_pos]
    rw [← not_not (a := key ∈ r'.groups), ← Rotation.members_eq_nil]
    exact hkey
  · next hg =>
    rw [hmap g hg, hother g hg]
    have hiff : g ∈ r.groups ↔ g ∈ r'.groups := by
      rw [← not_iff_not, ← Rotation.members_eq_nil, ← Rotation.members_eq_nil, hother g hg]
    by_cases hin : g ∈ r.groups
    · rw [if_pos hin, if_pos (hiff.1 hin)]
    · rw [if_neg hin, if_neg (fun h => hin (hiff.2 h))]

/-- The table of groups after one group lost its last member. -/
theorem groups_remove {map : GroupMap RrGroup} (r' : Rotation TaskId GroupKey) (key : GroupKey)
    (hmap : ∀ g, g ≠ key → groupMapFind map g =
      if g ∈ r.groups then some ⟨r.members g, (r.members g).length⟩ else none)
    (hother : ∀ g, g ≠ key → r'.members g = r.members g) (hkey : r'.members key = []) (g : GroupKey) :
    groupMapFind (groupMapRemove map key) g =
      if g ∈ r'.groups then some ⟨r'.members g, (r'.members g).length⟩ else none := by
  rw [find_remove]
  split
  · next hg =>
    rw [hg, if_neg]
    exact Rotation.members_eq_nil.1 hkey
  · next hg =>
    rw [hmap g hg, hother g hg]
    have hiff : g ∈ r.groups ↔ g ∈ r'.groups := by
      rw [← not_iff_not, ← Rotation.members_eq_nil, ← Rotation.members_eq_nil, hother g hg]
    by_cases hin : g ∈ r.groups
    · rw [if_pos hin, if_pos (hiff.1 hin)]
    · rw [if_neg hin, if_neg (fun h => hin (hiff.2 h))]

/-! ## Submission -/

/-- Getting a group changes nothing but adds the group without tasks, and the
group can be dropped again. -/
theorem rrGroupGet_spec (hs : RrOk s r) (key : GroupKey) (c : Cursor) :
    let g := rrGroupGet E s key c
    g.2.1.tasks = s.tasks ∧ g.2.1.activeGroups = s.activeGroups ∧
    ((g.1 = none ∧ g.2.1.groups = s.groups ∧ ¬ ∀ n, E.alloc n = true) ∨
      (g.1 = some ⟨r.members key, (r.members key).length⟩ ∧
        (∀ k, k ≠ key → groupMapFind g.2.1.groups k = groupMapFind s.groups k) ∧
        (key ∈ r.groups → g.2.1.groups = s.groups))) := by
  dsimp only
  unfold rrGroupGet
  have hkey := hs.groups key
  by_cases hin : key ∈ r.groups
  · rw [if_pos hin] at hkey
    rw [hkey]
    exact ⟨rfl, rfl, Or.inr ⟨rfl, fun _ _ => rfl, fun _ => rfl⟩⟩
  · rw [if_neg hin] at hkey
    have hnil := Rotation.members_eq_nil.2 hin
    rw [hkey, hnil]
    dsimp only
    unfold rrGroupCreate
    split
    · next ha => exact ⟨rfl, rfl, Or.inl ⟨rfl, rfl, fun h => by simp [h] at ha⟩⟩
    · unfold groupMapInsert
      rw [hkey]
      simp only [Option.isSome_none, Bool.false_eq_true, if_false]
      by_cases ha : E.alloc c.alloc.allocs = true
      · simp only [ha, Bool.not_true, Bool.false_eq_true, if_false]
        refine ⟨trivial, trivial, Or.inr ⟨rfl, fun k hk => ?_, fun h => absurd h hin⟩⟩
        rw [find_write, if_neg hk]
      · simp only [ha, Bool.not_false, if_true]
        exact ⟨trivial, trivial, Or.inl ⟨trivial, trivial, fun h => ha (h _)⟩⟩

/-- A state with the same tables stands for the same rotation. -/
theorem RrOk.congr {s' : RrState} (hs : RrOk s r) (htasks : s'.tasks = s.tasks)
    (hactive : s'.activeGroups = s.activeGroups)
    (hgroups : ∀ g, groupMapFind s'.groups g = groupMapFind s.groups g) : RrOk s' r :=
  ⟨hs.rotation, hactive.trans hs.active, fun g => (hgroups g).trans (hs.groups g),
    fun x g => by rw [htasks]; exact hs.tasks x g, fun x t ht => hs.named x t (htasks ▸ ht)⟩

/-- **A submission** is an arrival, or changes nothing. -/
theorem rrOnTaskSubmit_spec (hs : RrOk s r) (task : TaskDesc) (c : Cursor) :
    let h := rrOnTaskSubmit E s task c
    (h.rc = .ok ∧ task.taskId ∉ r.names ∧
        RrOk h.state (r.arrive task.taskId (groupKeyFromTask task))) ∨
      (h.rc ≠ .ok ∧ RrOk h.state r ∧
        ((∀ n, E.alloc n = true) → h.rc = .errExists ∧ task.taskId ∈ r.names)) := by
  dsimp only
  unfold rrOnTaskSubmit
  split
  · next hdup =>
    exact Or.inr ⟨by simp, hs, fun _ => ⟨rfl, (hs.tasks_isSome_iff _).1 hdup⟩⟩
  · next hdup =>
    have hnew : task.taskId ∉ r.names := fun h => hdup ((hs.tasks_isSome_iff _).2 h)
    dsimp only
    obtain ⟨htasks, hactive, hget⟩ := rrGroupGet_spec (E := E) hs (groupKeyFromTask task) c
    generalize groupKeyFromTask task = key at htasks hactive hget ⊢
    generalize rrGroupGet E s key c = got at htasks hactive hget ⊢
    obtain ⟨group, s', c'⟩ := got
    dsimp only at htasks hactive hget ⊢
    rcases hget with ⟨rfl, hgroups, halloc⟩ | ⟨rfl, hother, hsame⟩
    · exact Or.inr ⟨by simp, hs.congr htasks hactive fun g => by rw [hgroups],
        fun h => absurd h halloc⟩
    · -- a group that was made for this task is dropped again when memory is missing
      have hback : RrOk (if (r.members key).length = 0 then rrGroupFree s' key else s') r := by
        by_cases hnil : r.members key = []
        · rw [if_pos (by rw [hnil]; rfl)]
          refine hs.congr htasks hactive fun g => ?_
          rw [rrGroupFree, find_remove]
          split
          · next hg => rw [hg, hs.groups, if_neg (Rotation.members_eq_nil.1 hnil)]
          · next hg => exact hother g hg
        · rw [if_neg (by simpa using hnil)]
          have hin : key ∈ r.groups := by
            by_contra hout
            exact hnil (Rotation.members_eq_nil.2 hout)
          exact hs.congr htasks hactive fun g => by rw [hsame hin]
      dsimp only
      split
      · next ha => exact Or.inr ⟨by simp, hback, fun h => by simp [h] at ha⟩
      · split
        · next ha => exact Or.inr ⟨by simp, hback, fun h => by simp [h] at ha⟩
        · refine Or.inl ⟨rfl, hnew, hs.rotation.arrive hnew key, ?_, ?_, ?_, ?_⟩
          · show (if (r.members key).length = 0 then s'.activeGroups ++ [key] else s'.activeGroups) =
              if key ∈ r.ring then r.ring else r.ring ++ [key]
            rw [hactive, hs.active]
            by_cases hin : key ∈ r.groups
            · have hne : r.members key ≠ [] := fun h => Rotation.members_eq_nil.1 h hin
              rw [if_neg (by simpa using hne), if_pos ((hs.rotation.mem_ring key).2 hin)]
            · rw [if_pos (by rw [Rotation.members_eq_nil.2 hin]; rfl),
                if_neg fun h => hin ((hs.rotation.mem_ring key).1 h)]
          · intro g
            have hm : ∀ k, (r.arrive task.taskId key).members k =
                r.members k ++ if key = k then [task.taskId] else [] :=
              fun k => Rotation.members_arrive
            have hkey : (r.arrive task.taskId key).members key = r.members key ++ [task.taskId] := by
              rw [hm, if_pos rfl]
            have hset := groups_set (r.arrive task.taskId key) key
              (fun k hk => (hother k hk).trans (hs.groups k))
              (fun k hk => by rw [hm, if_neg (Ne.symm hk), List.append_nil]) (by rw [hkey]; simp) g
            rw [← hset, hkey]
            simp
          · intro x g
            show (∃ t, Function.update s'.tasks task.taskId (some ⟨task, key⟩) x = some t ∧
              t.group = g) ↔ (x, g) ∈ r.waiting ++ [(task.taskId, key)]
            rw [List.mem_append, List.mem_singleton, htasks]
            by_cases hx : x = task.taskId
            · have hout : (x, g) ∉ r.waiting := fun h => hnew (hx ▸ Rotation.mem_names.2 ⟨g, h⟩)
              subst hx
              simp [hout, eq_comm]
            · rw [Function.update_of_ne hx, hs.tasks]
              simp [hx]
          · intro x t ht
            change Function.update s'.tasks task.taskId (some ⟨task, key⟩) x = some t at ht
            by_cases hx : x = task.taskId
            · subst hx
              rw [Function.update_self] at ht
              rw [← Option.some.inj ht]
            · rw [Function.update_of_ne hx, htasks] at ht
              exact hs.named x t ht

/-! ## Departures -/

/-- The table of tasks after one left. -/
theorem tasks_leave (hs : RrOk s r) (id x : TaskId) (g : GroupKey) :
    (∃ t, Function.update s.tasks id none x = some t ∧ t.group = g) ↔ (x, g) ∈ r.without id := by
  rw [Rotation.without, List.mem_filter]
  by_cases hx : x = id
  · subst hx
    simp
  · rw [Function.update_of_ne hx, hs.tasks]
    simp [hx]

theorem named_leave (hs : RrOk s r) (id x : TaskId) (t : RrTask)
    (ht : Function.update s.tasks id none x = some t) : t.desc.taskId = x := by
  by_cases hx : x = id
  · subst hx
    simp at ht
  · rw [Function.update_of_ne hx] at ht
    exact hs.named x t ht

/-- A task is removed from the list of its group. -/
theorem rrRemoveReadyTask_spec (hs : RrOk s r) {task : RrTask} (hfind : s.tasks id = some task) :
    (rrRemoveReadyTask s id).1 = .ok ∧ RrOk (rrRemoveReadyTask s id).2 (r.leave id) := by
  unfold rrRemoveReadyTask
  have hin : (id, task.group) ∈ r.waiting := (hs.tasks id task.group).1 ⟨task, hfind, rfl⟩
  have hgroup : task.group ∈ r.groups := Rotation.mem_groups.2 ⟨id, hin⟩
  have hmem : id ∈ r.members task.group := Rotation.mem_members.2 hin
  have hgf := hs.groups task.group
  rw [if_pos hgroup] at hgf
  rw [hfind]
  dsimp only
  generalize task.group = key at hin hgroup hmem hgf ⊢
  have hlen : (r.members key).length ≠ 0 := by
    intro h0
    simp [List.length_eq_zero_iff.1 h0] at hmem
  have herase : (r.members key).erase id = (r.leave id).members key := by
    rw [Rotation.members_leave, (hs.rotation.members_nodup key).erase_eq_filter]
    exact List.filter_congr fun x _ => by by_cases hx : x = id <;> simp [hx]
  have hcount : (r.members key).length - 1 = ((r.leave id).members key).length := by
    rw [← herase, List.length_erase_of_mem hmem]
  have hother : ∀ g, g ≠ key → (r.leave id).members g = r.members g := by
    intro g hg
    rw [Rotation.members_leave, List.filter_eq_self]
    intro x hx
    have hne : x ≠ id := by
      rintro rfl
      exact hg (hs.rotation.group_eq (Rotation.mem_members.1 hx) hin)
    simpa using hne
  have hring := Rotation.leave_ring hs.rotation hin
  rw [hgf]
  dsimp only
  rw [if_neg hlen, herase, hcount]
  by_cases hnil : (r.leave id).members key = []
  · rw [if_pos (by rw [hnil]; rfl)]
    rw [if_neg (Rotation.members_eq_nil.1 hnil)] at hring
    refine ⟨rfl, hs.rotation.leave id, ?_, fun g => ?_, tasks_leave hs id, named_leave hs id⟩
    · rw [hring, ← hs.active]
      rfl
    · refine groups_remove (r.leave id) key (fun k hk => ?_) hother hnil g
      rw [find_set, if_neg hk, hs.groups]
  · have hin' : key ∈ (r.leave id).groups := by
      by_contra hout
      exact hnil (Rotation.members_eq_nil.2 hout)
    rw [if_neg (by simpa using hnil)]
    rw [if_pos hin'] at hring
    refine ⟨rfl, hs.rotation.leave id, ?_, fun g => ?_, tasks_leave hs id, named_leave hs id⟩
    · rw [hring, ← hs.active]
    · exact groups_set (r.leave id) key (fun k _ => hs.groups k) hother hnil g

/-- **A task that finishes leaves the rotation**, if it is there. -/
theorem rrOnTaskFinished_spec (hs : RrOk s r) (id : TaskId) (c : Cursor) :
    (rrOnTaskFinished s id c).rc = .ok ∧ RrOk (rrOnTaskFinished s id c).state (r.leave id) := by
  unfold rrOnTaskFinished
  cases hfind : s.tasks id with
  | none =>
    have hout : id ∉ r.names := fun h => by
      have := (hs.tasks_isSome_iff id).2 h
      simp [hfind] at this
    rw [Rotation.leave_of_not_mem hs.rotation hout]
    simpa [rrRemoveReadyTask, hfind] using hs
  | some task =>
    obtain ⟨hrc, hok⟩ := rrRemoveReadyTask_spec hs hfind
    dsimp only
    rw [hrc]
    exact ⟨by simp, hok⟩

/-- **A selection takes the next entry of the rotation.** -/
theorem rrSelectNext_spec (hs : RrOk s r) (c : Cursor) :
    let h := rrSelectNext s c
    (h.rc = .errNotFound ∧ r.next = none ∧ RrOk h.state r) ∨
      ∃ e, r.next = some e ∧ h.rc = .ok ∧ h.taskId = e.1 ∧ RrOk h.state (r.serve e) := by
  dsimp only
  unfold rrSelectNext
  cases hnext : r.next with
  | none =>
    have hring : r.ring = [] := by
      by_contra hne
      have := hs.rotation.next_isSome hne
      simp [hnext] at this
    rw [hs.active, hring]
    exact Or.inl ⟨rfl, rfl, hs⟩
  | some e =>
    obtain ⟨hmem, hring⟩ := Rotation.next_mem hnext
    have hgroup : e.2 ∈ r.groups := Rotation.mem_groups.2 ⟨e.1, hmem⟩
    have hgf := hs.groups e.2
    have hmembers := Rotation.members_next hs.rotation hnext
    obtain ⟨task, htask, -⟩ := (hs.tasks e.1 e.2).2 hmem
    have hlen : (r.members e.2).length - 1 = ((r.serve e).members e.2).length := by
      rw [hmembers]
      rfl
    have hother : ∀ g, g ≠ e.2 → (r.serve e).members g = r.members g := by
      intro g hg
      show ((r.without e.1).filter _).map _ = _
      rw [Rotation.members_without, List.filter_eq_self]
      intro x hx
      have hne : x ≠ e.1 := by
        rintro rfl
        exact hg (hs.rotation.group_eq (Rotation.mem_members.1 hx) hmem)
      simpa using hne
    rw [if_pos hgroup] at hgf
    have hserve : (r.serve e).ring =
        r.ring.tail ++ if e.2 ∈ (r.serve e).groups then [e.2] else [] := rfl
    rw [hs.active, hring]
    dsimp only
    rw [hgf, hmembers]
    dsimp only
    rw [if_neg (by simp), htask]
    dsimp only
    rw [List.length_cons, Nat.add_sub_cancel, hs.named e.1 task htask]
    refine Or.inr ⟨e, rfl, ?_⟩
    by_cases hnil : (r.serve e).members e.2 = []
    · rw [if_neg (by rw [hnil]; simp)]
      rw [if_neg (Rotation.members_eq_nil.1 hnil), List.append_nil] at hserve
      refine ⟨rfl, rfl, hs.rotation.serve hnext, hserve.symm, fun g => ?_, tasks_leave hs e.1,
        named_leave hs e.1⟩
      refine groups_remove (r.serve e) e.2 (fun k hk => ?_) hother hnil g
      rw [find_set, if_neg hk, hs.groups]
    · have hin' : e.2 ∈ (r.serve e).groups := by
        by_contra hout
        exact hnil (Rotation.members_eq_nil.2 hout)
      rw [if_pos (List.length_pos_iff.2 hnil)]
      rw [if_pos hin'] at hserve
      refine ⟨rfl, rfl, hs.rotation.serve hnext, hserve.symm, fun g => ?_, tasks_leave hs e.1,
        named_leave hs e.1⟩
      exact groups_set (r.serve e) e.2 (fun k _ => hs.groups k) hother hnil g

end

/-! ## The contract -/

/-- The state stands for a rotation of the waiting tasks. -/
def RrInv (s : RrState) (l : List TaskDesc) : Prop :=
  ∃ r, RrOk s r ∧ r.waiting = entries l

section

variable {l : List TaskDesc} {r : Rotation TaskId GroupKey} {id : TaskId}

theorem names_entries (hr : r.waiting = entries l) : r.names = taskIds l := by
  rw [Rotation.names, hr, entries, List.map_map]
  rfl

theorem entries_withoutTask (hr : r.waiting = entries l) (id : TaskId) :
    r.without id = entries (withoutTask id l) := by
  rw [Rotation.without, hr, entries, entries, withoutTask, List.filter_map]
  rfl

theorem rrInit_ok {E : Env} {options : KvArray} {c : Cursor} {s : RrState}
    (h : (rrInit E options c).outcome = .ok s) : RrOk s ⟨[], []⟩ := by
  unfold rrInit at h
  split at h
  · simp at h
  · split at h
    · simp at h
    · next hinit =>
      split at h
      · simp at h
      · split at h
        · simp at h
        · simp only [Except.ok.injEq] at h
          rw [← h, groupMapInit_eq_empty hinit]
          refine ⟨Rotation.ok_empty, rfl, fun g => ?_, by simp, by simp⟩
          simp [Rotation.groups]

end

/-- The round_robin plugin keeps its lists, whatever the allocator does. -/
theorem rr_policyInv (Good : UInt64 → Env → UInt64 → Prop) :
    PolicyInv rrPlugin Good fun _ => RrInv where
  mono _ h := h
  nodup := by
    rintro t s l ⟨r, hs, hr⟩
    rw [← names_entries hr]
    exact hs.rotation.names
  init _ h := ⟨_, rrInit_ok h, rfl⟩
  submit := by
    rintro τ t E s l task c _ ⟨r, hs, hr⟩
    rcases rrOnTaskSubmit_spec (E := E) hs task c with ⟨hrc, hnew, h⟩ | ⟨hrc, h, -⟩
    · exact Or.inl ⟨hrc, names_entries hr ▸ hnew, _, h, by rw [entries_append, ← hr]; rfl⟩
    · exact Or.inr ⟨hrc, r, h, hr⟩
  select := by
    rintro τ t E s l c _ ⟨r, hs, hr⟩
    rcases rrSelectNext_spec hs c with ⟨hrc, hnext, h⟩ | ⟨e, hnext, hrc, hid, h⟩
    · have hnil := hs.rotation.next_eq_none_iff.1 hnext
      rw [hr, entries, List.map_eq_nil_iff] at hnil
      exact Or.inl ⟨hrc, hnil, r, h, hr⟩
    · have hmem := (Rotation.next_mem hnext).1
      rw [hr] at hmem
      obtain ⟨d, hd, hde⟩ := List.mem_map.1 hmem
      have hid' : e.1 = d.taskId := by rw [← hde]
      refine Or.inr ⟨d, hd, hrc, hid.trans hid', _, h, ?_⟩
      rw [← entries_withoutTask hr, ← hid']
      rfl
  config h := ⟨rfl, h⟩
  priorityChanged := by
    rintro τ t E s l id priority c _ ⟨r, hs, hr⟩
    exact Or.inl ⟨rfl, r, hs, by rw [entries_reprioritize, hr]⟩
  started _ h := ⟨rfl, h⟩
  finished := by
    rintro τ t E s l id state c _ ⟨r, hs, hr⟩
    obtain ⟨hrc, h⟩ := rrOnTaskFinished_spec hs id c
    exact ⟨hrc, _, h, (entries_withoutTask hr id).symm ▸ rfl⟩

end QhwScheduler
