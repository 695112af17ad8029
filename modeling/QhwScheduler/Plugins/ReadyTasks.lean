import QhwScheduler.Core.Partition
import QhwScheduler.Foundations.BinaryHeap
import QhwScheduler.Plugins.Builtin

/-!
# The ready tasks of the built-in policies

* `readyIds` — the ids in the structure that a policy selects from.
* `readyIds_spec` — they are those of the waiting tasks, each once.
* `core_policy_agree` — over every run they are those of the queued records; so a
  selection is served exactly when a task is queued, and no task is served twice.
-/

namespace QhwScheduler

open Foundations DeadlineQueue

/-! ## Traversals -/

/-- The ids in a ready queue. -/
def ReadyQueue.ids (queue : ReadyQueue) : List TaskId :=
  match queue.kind with
  | .heap => queue.heap.items
  | .fifo => queue.fifo

/-- The ids in the ready queues of the groups in the heap of the groups. -/
def OrderedGroups.ids (g : OrderedGroups) : List TaskId :=
  g.groupHeap.items.flatMap fun key =>
    match groupMapFind g.groups key with
    | none => []
    | some group => group.ready.ids

/-- The ids in the lists of the active groups. -/
def RrState.ids (s : RrState) : List TaskId :=
  s.activeGroups.flatMap fun key =>
    match groupMapFind s.groups key with
    | none => []
    | some group => group.ready

/-- The ids in the ready structure of a policy. -/
def readyIds : Sigma BuiltinState → List TaskId
  | ⟨.fifo, s⟩ => FifoState.ready s |>.ids
  | ⟨.priority, s⟩ => PriorityState.queue s |>.ready.ids
  | ⟨.ordered, s⟩ =>
    match OrderedState.ready s with
    | .flat queue => queue.ready.ids
    | .grouped queue => queue.ready.ids
  | ⟨.roundRobin, s⟩ => RrState.ids s

/-! ## What they list -/

/-- Lists of members of distinct groups have no entry twice. -/
theorem nodup_flatMap_of_key {α κ : Type*} {keys : List κ} {bucket : κ → List α} (key : α → κ → Prop)
    (hfun : ∀ x k k', key x k → key x k' → k = k') (hkeys : keys.Nodup)
    (hnodup : ∀ k ∈ keys, (bucket k).Nodup) (hbucket : ∀ k ∈ keys, ∀ x ∈ bucket k, key x k) :
    (keys.flatMap bucket).Nodup := by
  rw [List.nodup_flatMap]
  refine ⟨hnodup, hkeys.imp_of_mem fun hk hk' hne => ?_⟩
  intro x hx hx'
  exact hne (hfun x _ _ (hbucket _ hk x hx) (hbucket _ hk' x hx'))

section Ids

variable {l : List TaskDesc} {cmp : ReadyCompare} {estimateCost : Bool} {mem : Memory}
  {ready : ReadyQueue} {order : OrderConfig} {g : OrderedGroups} {ring : List GroupKey} {id : TaskId}

theorem FlatReady.ids (h : FlatReady cmp estimateCost l mem ready) :
    ready.ids.Nodup ∧ ∀ id, id ∈ ready.ids ↔ id ∈ taskIds l := by
  have hids : ready.ids = ready.heap.items := by
    rw [ReadyQueue.ids, h.heap.kind]
  rw [hids]
  exact ⟨h.heap.holds.sound.nodup, h.heap.holds.mem⟩

theorem GroupsOk.ids (h : GroupsOk order estimateCost l ring none mem g) :
    g.ids.Nodup ∧ ∀ id, id ∈ g.ids ↔ id ∈ taskIds l := by
  have ht := h.tables
  have hring : ∀ k, k ∈ g.groupHeap.items ↔ k ∈ ring := by
    intro k
    rw [h.heap.mem]
    simp
  have hbucket : ∀ k, k ∈ g.groupHeap.items → ∃ group, groupMapFind g.groups k = some group ∧
      group.ready.ids.Nodup ∧ ∀ id, id ∈ group.ready.ids ↔ (id, k) ∈ entries l := by
    intro k hk
    obtain ⟨group, hfind⟩ := Option.isSome_iff_exists.1 ((ht.live k).2 ((hring k).1 hk))
    obtain ⟨hnd, hmem⟩ := (ht.ready k group hfind).ids
    exact ⟨group, hfind, hnd, fun id => (hmem id).trans mem_taskIds_ofGroup⟩
  constructor
  · refine nodup_flatMap_of_key (fun id k => (id, k) ∈ entries l)
      (fun id k k' hk hk' => ht.key_eq hk' hk) h.heap.sound.nodup ?_ ?_
    · intro k hk
      obtain ⟨group, hfind, hnd, -⟩ := hbucket k hk
      rw [hfind]
      exact hnd
    · intro k hk id hid
      obtain ⟨group, hfind, -, hmem⟩ := hbucket k hk
      rw [hfind] at hid
      exact (hmem id).1 hid
  · intro id
    rw [OrderedGroups.ids, List.mem_flatMap]
    constructor
    · rintro ⟨k, hk, hid⟩
      obtain ⟨group, hfind, -, hmem⟩ := hbucket k hk
      rw [hfind] at hid
      obtain ⟨d, hd, rfl, -⟩ := mem_entries.1 ((hmem id).1 hid)
      exact mem_taskIds_of_mem hd
    · intro hid
      obtain ⟨d, hd, rfl⟩ := mem_taskIds.1 hid
      have hentry : (d.taskId, groupKeyFromTask d) ∈ entries l := mem_entries.2 ⟨d, hd, rfl, rfl⟩
      have hk : groupKeyFromTask d ∈ g.groupHeap.items := by
        rw [hring, ht.mem_ring]
        exact List.ne_nil_of_mem (mem_ofGroup.2 ⟨hd, rfl⟩)
      obtain ⟨group, hfind, -, hmem⟩ := hbucket _ hk
      refine ⟨_, hk, ?_⟩
      rw [hfind]
      exact (hmem _).2 hentry

theorem RrInv.ids {s : RrState} (h : RrInv s l) :
    s.ids.Nodup ∧ ∀ id, id ∈ s.ids ↔ id ∈ taskIds l := by
  obtain ⟨r, hs, hr⟩ := h
  have hnd := hs.rotation.names
  have hbucket : ∀ k, k ∈ s.activeGroups → groupMapFind s.groups k =
      some ⟨r.members k, (r.members k).length⟩ := by
    intro k hk
    rw [hs.active] at hk
    rw [hs.groups, if_pos ((hs.rotation.mem_ring k).1 hk)]
  constructor
  · refine nodup_flatMap_of_key (fun id k => (id, k) ∈ r.waiting) ?_
      (hs.active ▸ hs.rotation.nodup) ?_ ?_
    · intro id k k' hk hk'
      have := List.inj_on_of_nodup_map hnd hk hk' rfl
      exact (Prod.mk.inj this).2
    · intro k hk
      rw [hbucket k hk]
      exact hnd.sublist (List.filter_sublist.map Prod.fst)
    · intro k hk id hid
      rw [hbucket k hk] at hid
      exact Rotation.mem_members.1 hid
  · intro id
    rw [← names_entries hr, Rotation.mem_names, RrState.ids, List.mem_flatMap]
    constructor
    · rintro ⟨k, hk, hid⟩
      rw [hbucket k hk] at hid
      exact ⟨k, Rotation.mem_members.1 hid⟩
    · rintro ⟨k, hid⟩
      have hk : k ∈ s.activeGroups := by
        rw [hs.active, hs.rotation.mem_ring]
        exact Rotation.mem_groups.2 ⟨id, hid⟩
      refine ⟨k, hk, ?_⟩
      rw [hbucket k hk]
      exact Rotation.mem_members.2 hid

end Ids

/-- **A policy lists the waiting tasks**, each once. -/
theorem readyIds_spec {G : Prop} {t : UInt64} {π : Sigma BuiltinState} {l : List TaskDesc}
    (h : BuiltinInv G π.1 t π.2 l) :
    (readyIds π).Nodup ∧ ∀ id, id ∈ readyIds π ↔ id ∈ taskIds l := by
  obtain ⟨n, s⟩ := π
  cases n with
  | fifo =>
    obtain ⟨hnd, hready, -⟩ : FifoInv s l := h
    have hids : s.ready.ids = taskIds l := by
      rw [ReadyQueue.ids, hready.kind]
      exact hready.fifo
    show s.ready.ids.Nodup ∧ ∀ id, id ∈ s.ready.ids ↔ _
    rw [hids]
    exact ⟨hnd, fun _ => Iff.rfl⟩
  | priority =>
    obtain ⟨hflat, -⟩ : PriorityInv G t s l := h
    exact hflat.ready.ids
  | ordered =>
    obtain ⟨hready, -⟩ : OrderedInv G t s l := h
    obtain ⟨order, splitConfig, ready⟩ := s
    cases hready with
    | flat keys ok => exact ok.ready.ids
    | grouped ring keys ok => exact ok.groups.ids
  | roundRobin => exact RrInv.ids h

/-! ## Core and policy -/

/-- The record of this task is queued. -/
def IsQueued (table : TaskTable) (id : TaskId) : Prop :=
  ∃ r, taskTableFind table id = some r ∧ r.state = .queued

/-- **Core and policy agree.**  After every run of operations, with the allocator
failing anywhere: the ready structure of the active policy lists the queued records,
each once; a selection hands a queued task out when there is one, and finds none
otherwise; and over the whole run no task was handed out twice. -/
theorem core_policy_agree {H : HeapOps} (hH : H.Lawful) (metadata : KvArray)
    (is : List (Env × Op Builtin)) (E : Env) :
    let s := builtinRun H metadata is
    let r := step (builtinPlugins H) s E .selectNext
    (∀ π, s.policy = some π →
      (readyIds π).Nodup ∧ (∀ id, id ∈ readyIds π ↔ IsQueued s.tasks id) ∧
      ((r.rc = .ok ∧ ∃ a, r.assignment = some a ∧ IsQueued s.tasks a.taskId) ∨
        (r.rc = .errNotFound ∧ r.assignment = none ∧ ∀ id, ¬ IsQueued s.tasks id))) ∧
    ((assignments (builtinPlugins H) (schedCreate (qpuCreate metadata)) is).map
      Assignment.taskId).Nodup := by
  intro s r
  have hagreed : Agreed (BuiltinInv False) 0 s := builtinRun_agreed hH metadata is
  refine ⟨?_, assignments_nodup ⟨TaskTable.ok_empty, fun id state h => ?_⟩⟩
  · rintro ⟨n, state⟩ hpolicy
    have hholds := hagreed.holds
    rw [hpolicy] at hholds
    obtain ⟨hnd, hmem⟩ := @readyIds_spec False 0 ⟨n, state⟩ _ hholds
    refine ⟨hnd, fun id => (hmem id).trans hagreed.ok.mem_taskIds_waiting, ?_⟩
    obtain ⟨-, hserved⟩ := schedSelectNext_served (builtin_policyInv hH False) (E := E) (t := 0)
      False.elim hagreed hpolicy .start
    rcases hserved with ⟨hrc, hnil, hnone⟩ | ⟨record, hr, hq, hrc, ha⟩
    · refine Or.inr ⟨hrc, hnone, fun id hid => ?_⟩
      have := hagreed.ok.mem_taskIds_waiting.2 hid
      rw [hnil] at this
      simp at this
    · refine Or.inl ⟨hrc, _, ha, record, ?_, hq⟩
      show taskTableFind s.tasks record.desc.taskId = some record
      rw [hagreed.ok.desc_id _ record hr]
      exact hr
  · simp [stateOf, taskTableFind, schedCreate, TaskTable.empty] at h

/-- Two tasks of a job and one without, by groups and age; the second is handed out
after the first and the third. -/
def groupedRun : List (Env × Op Builtin) :=
  orderedRun [5, 4] [{ taskId := 7, jobId := 1 }, { taskId := 8, jobId := 1 }, { taskId := 9 }] ++
    [(.still 0, .selectNext), (.still 0, .selectNext)]

/-- Task 8 is left, and there is memory for nothing. -/
theorem core_policy_agree_groupedRun :
    let H := binaryHeap
    let s := builtinRun H (some []) groupedRun
    let E : Env := { Env.still 0 with alloc := fun _ => false }
    let r := step (builtinPlugins H) s E .selectNext
    (∃ π, s.policy = some π ∧ readyIds π = [8] ∧
      ((r.rc = .ok ∧ ∃ a, r.assignment = some a ∧ IsQueued s.tasks a.taskId) ∨
        (r.rc = .errNotFound ∧ r.assignment = none ∧ ∀ id, ¬ IsQueued s.tasks id))) ∧
    ((assignments (builtinPlugins H) (schedCreate (qpuCreate (some []))) groupedRun).map
      Assignment.taskId).Nodup := by
  intro H s E r
  obtain ⟨hagree, hnodup⟩ := core_policy_agree binaryHeap_lawful (some []) groupedRun E
  obtain ⟨π, hπ⟩ := Option.isSome_iff_exists.1 (show s.policy.isSome by decide +kernel)
  have hids : ∀ π ∈ s.policy, readyIds π = [8] := by decide +kernel
  exact ⟨⟨π, hπ, hids π hπ, (hagree π hπ).2.2⟩, hnodup⟩

end QhwScheduler
