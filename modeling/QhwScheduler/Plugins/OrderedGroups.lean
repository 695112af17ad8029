import QhwScheduler.Policy.FlatPolicy
import QhwScheduler.Policy.GroupMap

/-!
# The groups of the ordered plugin

`ordered.c` with a round-robin key: a ready queue for each group, and a heap of
the groups that compares their heads together with the tickets of the groups.

* `OrderedGroups` and the functions on it, up to `orderedSubmitRoundRobin` and
  `orderedSelectRoundRobin`.
* `GroupTables`, `GroupsOk` — the invariant; `orderedTouch_spec`, `GroupsOk.push` — what
  keeps it.
-/

namespace QhwScheduler

open Foundations DeadlineQueue
open Std (TransCmp)

/-! ## The code -/

/-- `struct ordered_group`.  Its position field belongs to the heap of the groups. -/
structure OrderedGroup where
  ready : ReadyQueue
  ticket : ℕ

/-- The members of `struct ordered_state` that are used with a round-robin key.
A pointer to a group is the key of the group. -/
structure OrderedGroups where
  groups : GroupMap OrderedGroup
  groupTasks : TaskId → Option GroupKey
  groupHeap : Heap GroupKey
  readyFlags : Bool
  nextGroupTicket : ℕ

/-- The head of the ready queue of a group, with the ticket of the group. -/
def groupHead (mem : Memory) (groups : GroupMap OrderedGroup) (key : GroupKey) : Option Ticketed :=
  match groupMapFind groups key with
  | none => none
  | some group => (readyQueuePeek group.ready).map fun id => ⟨mem id, group.ticket⟩

section Code

variable (H : HeapOps) (E : Env) (order : OrderConfig)

/-- `ordered_group_compare`.  A group without a head is never compared; here it
comes first. -/
def orderedGroupCompare (mem : Memory) (groups : GroupMap OrderedGroup) (left right : GroupKey) :
    Ordering :=
  optionCompare (fun a b => orderCompareGroups order a.task b.task a.ticket b.ticket)
    (groupHead mem groups left) (groupHead mem groups right)

/-- `ordered_group_reheapify`. -/
def orderedGroupReheapify (mem : Memory) (g : OrderedGroups) (key : GroupKey) :
    Rc × OrderedGroups :=
  match g.groupHeap.index key with
  | none => (.ok, g)
  | some _ =>
    let r := g.groupHeap.reheapify H (orderedGroupCompare order mem g.groups) key
    (if r.1 then .ok else .errState, { g with groupHeap := r.2 })

/-- `ordered_group_create`; `none` is the null pointer. -/
def orderedGroupCreate (g : OrderedGroups) (key : GroupKey) (c : Cursor) :
    Option OrderedGroup × OrderedGroups × Cursor :=
  if !E.alloc c.allocs then (none, g, c.alloc)
  else
    let ticket := g.nextGroupTicket
    let g := { g with
      groupHeap := g.groupHeap.setIndex key none
      nextGroupTicket := g.nextGroupTicket + 1 }
    match readyQueueInit E .heap g.readyFlags c.alloc with
    | (none, c) => (none, g, c)
    | (some ready, c) =>
      match groupMapInsert E g.groups key (⟨ready, ticket⟩ : OrderedGroup) c with
      | (.ok, groups, c) => (some ⟨ready, ticket⟩, { g with groups := groups }, c)
      | (_, _, c) => (none, g, c)

/-- `ordered_group_get`. -/
def orderedGroupGet (g : OrderedGroups) (key : GroupKey) (c : Cursor) :
    Option OrderedGroup × OrderedGroups × Cursor :=
  match groupMapFind g.groups key with
  | some group => (some group, g, c)
  | none => orderedGroupCreate E g key c

/-- `ordered_group_destroy`. -/
def orderedGroupDestroy (mem : Memory) (g : OrderedGroups) (key : GroupKey) : OrderedGroups :=
  let heap :=
    match g.groupHeap.index key with
    | none => g.groupHeap
    | some _ =>
      (g.groupHeap.remove H (orderedGroupCompare order mem g.groups) key).2.setIndex key none
  { g with groupHeap := heap, groups := groupMapRemove g.groups key }

/-- `ordered_find_ready_task` with a round-robin key. -/
def orderedFindGroupTask (g : OrderedGroups) (id : TaskId) : Bool :=
  match g.groupTasks id with
  | none => false
  | some key =>
    match groupMapFind g.groups key with
    | none => false
    | some group => readyQueueFind group.ready id

/-- `ordered_remove_group_task`. -/
def orderedRemoveGroupTask (mem : Memory) (g : OrderedGroups) (id : TaskId) : Rc × OrderedGroups :=
  match g.groupTasks id with
  | none => (.errNotFound, g)
  | some key =>
    match groupMapFind g.groups key with
    | none => (.errState, g)
    | some group =>
      let (rc, ready) := readyQueueRemove H (orderCompare order) mem group.ready id
      let g := { g with groups := groupMapSet g.groups key { group with ready := ready } }
      if rc ≠ .ok then (rc, g)
      else
        let g := { g with groupTasks := Function.update g.groupTasks id none }
        if readyQueuePeek ready = none then (.ok, orderedGroupDestroy H order mem g key)
        else orderedGroupReheapify H order mem g key

/-- A task is reordered in its group when its effective priority changed, and
the group in the heap of the groups in any case. -/
def orderedTouch : Touch OrderedGroups := fun mem g id changed =>
  match g.groupTasks id with
  | none => (.errState, g)
  | some key =>
    match groupMapFind g.groups key with
    | none => (.errState, g)
    | some group =>
      let (rc, ready) :=
        if changed then readyQueueReorder H (orderCompare order) mem group.ready id
        else (.ok, group.ready)
      let g := { g with groups := groupMapSet g.groups key { group with ready := ready } }
      if rc ≠ .ok then (rc, g) else orderedGroupReheapify H order mem g key

/-- The way back from a submission: the task leaves both heaps. -/
def orderedUnsubmit (q : DeadlineQueue OrderedGroups) (id : TaskId) : DeadlineQueue OrderedGroups :=
  let (mem, refresh) := deadlineRefreshRemove H q.mem q.refresh id
  ⟨mem, refresh, (orderedRemoveGroupTask H order mem q.ready id).2⟩

/-- `ordered_submit_round_robin`. -/
def orderedSubmitRoundRobin (q : DeadlineQueue OrderedGroups) (task : TaskDesc) (c : Cursor) :
    HookResult (DeadlineQueue OrderedGroups) :=
  if (q.ready.groupTasks task.taskId).isSome then ⟨.errExists, q, c⟩
  else
    let key := groupKeyFromTask task
    match orderedGroupGet E q.ready key c with
    | (none, g, c) => ⟨.errNoMemory, { q with ready := g }, c⟩
    | (some group, g, c) =>
      let groupWasEmpty := readyQueuePeek group.ready = none
      let back := fun (mem : Memory) (g : OrderedGroups) =>
        if groupWasEmpty then orderedGroupDestroy H order mem g key else g
      if !E.alloc c.allocs then ⟨.errNoMemory, { q with ready := back q.mem g }, c.alloc⟩
      else if !E.alloc c.alloc.allocs then
        ⟨.errNoMemory, { q with ready := back q.mem g }, c.alloc.alloc⟩
      else
        let r := readyQueueInsert H E (orderCompare order) q.mem group.ready task c.alloc.alloc
        let g := { g with groups := groupMapSet g.groups key { group with ready := r.queue } }
        if r.rc ≠ .ok then ⟨r.rc, { q with mem := r.mem, ready := back r.mem g }, r.cursor⟩
        else
          let g := { g with groupTasks := Function.update g.groupTasks task.taskId (some key) }
          -- the new item is marked as not waiting for a refresh
          let q : DeadlineQueue OrderedGroups := ⟨r.mem, q.refresh.setIndex task.taskId none, g⟩
          if !readyQueueFind r.queue task.taskId then
            ⟨.errState, { q with
              ready := (orderedRemoveGroupTask H order q.mem q.ready task.taskId).2 }, r.cursor⟩
          else
            let f := refreshTask H E order.deadline (orderedTouch H order) q task.taskId r.cursor
            if f.rc ≠ .ok then ⟨f.rc, orderedUnsubmit H order f.state task.taskId, f.cursor⟩
            else if groupWasEmpty then
              let g := f.state.ready
              let p := heapPush H E (orderedGroupCompare order f.state.mem g.groups) g.groupHeap key
                f.cursor
              let q := { f.state with ready := { g with groupHeap := p.heap } }
              if !p.ok then ⟨.errNoMemory, orderedUnsubmit H order q task.taskId, p.cursor⟩
              else ⟨.ok, q, p.cursor⟩
            else
              let (rc, g) := orderedGroupReheapify H order f.state.mem f.state.ready key
              let q := { f.state with ready := g }
              if rc ≠ .ok then ⟨rc, orderedUnsubmit H order q task.taskId, f.cursor⟩
              else ⟨.ok, q, f.cursor⟩

/-- `ordered_select_round_robin`. -/
def orderedSelectRoundRobin (q : DeadlineQueue OrderedGroups) (c : Cursor) :
    SelectResult (DeadlineQueue OrderedGroups) :=
  match q.ready.groupHeap.items.head? with
  | none => ⟨.errNotFound, invalidTaskId, q, c⟩
  | some key =>
    let heap := q.ready.groupHeap.pop H (orderedGroupCompare order q.mem q.ready.groups)
    let g := { q.ready with groupHeap := heap.setIndex key none }
    match groupMapFind g.groups key with
    | none => ⟨.errState, invalidTaskId, { q with ready := g }, c⟩
    | some group =>
      match readyQueuePeek group.ready with
      | none =>
        ⟨.errState, invalidTaskId, { q with ready := orderedGroupDestroy H order q.mem g key }, c⟩
      | some id =>
        let (mem, refresh) := deadlineRefreshRemove H q.mem q.refresh id
        match readyQueuePop H (orderCompare order) mem group.ready with
        | none =>
          ⟨.errNotFound, invalidTaskId, ⟨mem, refresh, orderedGroupDestroy H order mem g key⟩, c⟩
        | some (taskId, ready) =>
          let g := { g with groupTasks := Function.update g.groupTasks taskId none }
          if readyQueuePeek ready = none then
            ⟨.ok, taskId, ⟨mem, refresh, { g with groups := groupMapRemove g.groups key }⟩, c⟩
          else
            let groups := groupMapSet g.groups key ⟨ready, g.nextGroupTicket⟩
            let p := heapPush H E (orderedGroupCompare order mem groups) g.groupHeap key c
            let g := { g with
              groups := groups, groupHeap := p.heap, nextGroupTicket := g.nextGroupTicket + 1 }
            if !p.ok then ⟨.errNoMemory, invalidTaskId, ⟨mem, refresh, g⟩, p.cursor⟩
            else ⟨.ok, taskId, ⟨mem, refresh, g⟩, p.cursor⟩

/-- `ordered_select_next` with a round-robin key. -/
def orderedSelectGroups (q : DeadlineQueue OrderedGroups) (c : Cursor) :
    SelectResult (DeadlineQueue OrderedGroups) :=
  let r := refreshExpired H E order.deadline (orderedTouch H order) q c
  if r.rc ≠ .ok then ⟨r.rc, invalidTaskId, r.state, r.cursor⟩
  else orderedSelectRoundRobin H E order r.state r.cursor

/-- `ordered_on_task_priority_changed` with a round-robin key. -/
def orderedGroupsPriorityChanged (q : DeadlineQueue OrderedGroups) (id : TaskId) (priority : Int64)
    (c : Cursor) : HookResult (DeadlineQueue OrderedGroups) :=
  priorityChanged H E order.deadline (orderedTouch H order) orderedFindGroupTask q id priority c

/-- `ordered_on_task_finished` with a round-robin key. -/
def orderedGroupsFinished (q : DeadlineQueue OrderedGroups) (id : TaskId) (c : Cursor) :
    HookResult (DeadlineQueue OrderedGroups) :=
  let (mem, refresh) :=
    if orderedFindGroupTask q.ready id then deadlineRefreshRemove H q.mem q.refresh id
    else (q.mem, q.refresh)
  let (rc, g) := orderedRemoveGroupTask H order mem q.ready id
  ⟨if rc = .errNotFound then .ok else rc, ⟨mem, refresh, g⟩, c⟩

end Code

/-! ## Heads of groups -/

/-- Two heads that compare alike. -/
def SameHead : Option Ticketed → Option Ticketed → Prop :=
  Option.Rel fun a b => SameOrder a.task b.task ∧ b.ticket = a.ticket

section Heads

variable {order : OrderConfig} {mem mem' : Memory} {groups groups' : GroupMap OrderedGroup}
  {key a b : GroupKey} {group : OrderedGroup}

instance orderedGroupCompare_transCmp (order : OrderConfig) (mem : Memory)
    (groups : GroupMap OrderedGroup) : TransCmp (orderedGroupCompare order mem groups) := by
  have : TransCmp fun a b : Ticketed => orderCompareGroups order a.task b.task a.ticket b.ticket :=
    orderCompareLoop_transCmp order.keys
  exact transCmp_comap (optionCompare _) (groupHead mem groups)

theorem sameHead_refl (h : Option Ticketed) : SameHead h h := by
  cases h with
  | none => exact .none
  | some a => exact .some ⟨SameOrder.refl _, rfl⟩

theorem orderedGroupCompare_congr (ha : SameHead (groupHead mem groups a) (groupHead mem' groups' a))
    (hb : SameHead (groupHead mem groups b) (groupHead mem' groups' b)) :
    orderedGroupCompare order mem groups a b = orderedGroupCompare order mem' groups' a b := by
  unfold orderedGroupCompare
  generalize groupHead mem groups a = x at ha ⊢
  generalize groupHead mem' groups' a = x' at ha ⊢
  generalize groupHead mem groups b = y at hb ⊢
  generalize groupHead mem' groups' b = y' at hb ⊢
  cases ha with
  | none =>
    cases hb with
    | none => rfl
    | some hb => rfl
  | @some x x' hx =>
    cases hb with
    | none => rfl
    | @some y y' hy =>
      show orderCompareLoop order.keys x y = orderCompareLoop order.keys x' y'
      obtain ⟨task, ticket⟩ := x
      obtain ⟨task', ticket'⟩ := x'
      obtain ⟨other, tick⟩ := y
      obtain ⟨other', tick'⟩ := y'
      obtain ⟨hx, rfl⟩ := hx
      obtain ⟨hy, rfl⟩ := hy
      exact orderCompareLoop_reads _ _ _ hx hy

theorem groupHead_of_find (h : groupMapFind groups key = some group) :
    groupHead mem groups key = (readyQueuePeek group.ready).map fun id => ⟨mem id, group.ticket⟩ := by
  rw [groupHead, h]

/-- A head is seen through the queue and the ticket of its group. -/
theorem groupHead_congr (h : groupMapFind groups' key = groupMapFind groups key) :
    groupHead mem groups' key = groupHead mem groups key := by
  rw [groupHead, groupHead, h]

end Heads

/-! ## The invariant -/

/-- The ticket of a group. -/
def OrderedGroups.ticket (g : OrderedGroups) (key : GroupKey) : ℕ :=
  match groupMapFind g.groups key with
  | none => 0
  | some group => group.ticket

/-- The tables know every waiting task with its group, and exactly the groups that
have tasks.  `ring` lists the groups in the order of their tickets. -/
structure GroupTables (order : OrderConfig) (estimateCost : Bool) (l : List TaskDesc)
    (ring : List GroupKey) (mem : Memory) (g : OrderedGroups) : Prop where
  tasks : ∀ x k, g.groupTasks x = some k ↔ (x, k) ∈ entries l
  ready : ∀ k group, groupMapFind g.groups k = some group →
    FlatReady (orderCompare order) estimateCost (ofGroup k l) mem group.ready
  live : ∀ k, (groupMapFind g.groups k).isSome ↔ k ∈ ring
  mem_ring : ∀ k, k ∈ ring ↔ ofGroup k l ≠ []
  tickets : ring.Pairwise fun a b => g.ticket a < g.ticket b
  below : ∀ k ∈ ring, g.ticket k < g.nextGroupTicket
  flags : g.readyFlags = estimateCost

/-- Besides, the heap of the groups holds every group but `out`, which is marked
as not in the heap. -/
structure GroupsOk (order : OrderConfig) (estimateCost : Bool) (l : List TaskDesc)
    (ring : List GroupKey) (out : Option GroupKey) (mem : Memory) (g : OrderedGroups) : Prop where
  tables : GroupTables order estimateCost l ring mem g
  heap : g.groupHeap.Holds (orderedGroupCompare order mem g.groups) {k | k ∈ ring ∧ some k ≠ out}
  outside : ∀ k, out = some k → g.groupHeap.index k = none

section Tables

variable {H : HeapOps} {order : OrderConfig} {estimateCost : Bool} {l l' : List TaskDesc}
  {ring ring' : List GroupKey} {mem mem' : Memory} {g g' : OrderedGroups} {key k : GroupKey}
  {out : Option GroupKey} {group : OrderedGroup} {id : TaskId} {S : Set GroupKey}

theorem ticket_of_find (h : groupMapFind g.groups key = some group) : g.ticket key = group.ticket := by
  rw [OrderedGroups.ticket, h]

theorem ticket_congr (h : groupMapFind g'.groups k = groupMapFind g.groups k) :
    g'.ticket k = g.ticket k := by
  rw [OrderedGroups.ticket, OrderedGroups.ticket, h]

theorem GroupTables.find_of_entry (ht : GroupTables order estimateCost l ring mem g)
    (hid : (id, key) ∈ entries l) : ∃ group, groupMapFind g.groups key = some group := by
  rw [← Option.isSome_iff_exists, ht.live, ht.mem_ring]
  intro hnil
  have hin := mem_taskIds_ofGroup.2 hid
  simp [hnil] at hin

/-- A task has one group. -/
theorem GroupTables.key_eq (ht : GroupTables order estimateCost l ring mem g)
    (h : (id, key) ∈ entries l) (h' : (id, k) ∈ entries l) : k = key := by
  have := ((ht.tasks id key).2 h).symm.trans ((ht.tasks id k).2 h')
  exact (Option.some.inj this).symm

theorem GroupTables.nodup (ht : GroupTables order estimateCost l ring mem g) : ring.Nodup :=
  ht.tickets.imp fun hlt => fun he => by simp [he] at hlt

/-- The head of a group is one of its tasks, and no task of the group comes before it. -/
theorem GroupTables.head (ht : GroupTables order estimateCost l ring mem g) (hk : key ∈ ring) :
    ∃ group id, groupMapFind g.groups key = some group ∧ readyQueuePeek group.ready = some id ∧
      (id, key) ∈ entries l ∧ groupHead mem g.groups key = some ⟨mem id, g.ticket key⟩ ∧
      ∀ x, (x, key) ∈ entries l → (orderCompare order (mem id) (mem x)).isLE := by
  obtain ⟨group, hfind⟩ := Option.isSome_iff_exists.1 ((ht.live key).2 hk)
  have hready := ht.ready key group hfind
  cases hpeek : readyQueuePeek group.ready with
  | none =>
    have hempty := hready.heap.peek_none_iff.1 hpeek
    obtain ⟨d, hd⟩ := List.exists_mem_of_ne_nil _ ((ht.mem_ring key).1 hk)
    have hin : d.taskId ∈ {x | x ∈ taskIds (ofGroup key l)} := mem_taskIds_of_mem hd
    rw [hempty] at hin
    exact absurd hin (Set.notMem_empty _)
  | some id =>
    refine ⟨group, id, hfind, hpeek, mem_taskIds_ofGroup.1 (hready.heap.peek_mem hpeek), ?_, ?_⟩
    · rw [groupHead_of_find hfind, hpeek, ticket_of_find hfind]
      rfl
    · intro x hx
      exact hready.heap.peek_le hpeek x (mem_taskIds_ofGroup.2 hx)

/-- The tables after one group changed: its tasks, their items, its queue or its ticket. -/
theorem GroupTables.update (ht : GroupTables order estimateCost l ring mem g) (key : GroupKey)
    (htasks : ∀ x k, g'.groupTasks x = some k ↔ (x, k) ∈ entries l')
    (hother : ∀ k, k ≠ key → groupMapFind g'.groups k = groupMapFind g.groups k)
    (hlist : ∀ k, k ≠ key → ofGroup k l' = ofGroup k l)
    (hmem : ∀ k, k ≠ key → ∀ x, (x, k) ∈ entries l → SameOrder (mem x) (mem' x))
    (hready : ∀ group, groupMapFind g'.groups key = some group →
      FlatReady (orderCompare order) estimateCost (ofGroup key l') mem' group.ready)
    (hlive : (groupMapFind g'.groups key).isSome ↔ key ∈ ring')
    (hring : ∀ k, k ≠ key → (k ∈ ring' ↔ k ∈ ring)) (hkey : key ∈ ring' ↔ ofGroup key l' ≠ [])
    (htickets : ring'.Pairwise fun a b => g'.ticket a < g'.ticket b)
    (hbelow : ∀ k ∈ ring', g'.ticket k < g'.nextGroupTicket) (hflags : g'.readyFlags = estimateCost) :
    GroupTables order estimateCost l' ring' mem' g' := by
  refine ⟨htasks, ?_, ?_, ?_, htickets, hbelow, hflags⟩
  · intro k group hfind
    by_cases hk : k = key
    · rw [hk] at hfind ⊢
      exact hready group hfind
    · rw [hother k hk] at hfind
      rw [hlist k hk]
      exact (ht.ready k group hfind).frame (orderCompare_reads order) fun x hx =>
        hmem k hk x (mem_taskIds_ofGroup.1 hx)
  · intro k
    by_cases hk : k = key
    · rw [hk]
      exact hlive
    · rw [hother k hk, hring k hk]
      exact ht.live k
  · intro k
    by_cases hk : k = key
    · rw [hk]
      exact hkey
    · rw [hring k hk, hlist k hk]
      exact ht.mem_ring k

/-- Heads of groups that did not change compare as before. -/
theorem GroupTables.sameHead {groups : GroupMap OrderedGroup}
    (ht : GroupTables order estimateCost l ring mem g) (hk : k ∈ ring)
    (hfind : groupMapFind groups k = groupMapFind g.groups k)
    (hmem : ∀ x, (x, k) ∈ entries l → SameOrder (mem x) (mem' x)) :
    SameHead (groupHead mem g.groups k) (groupHead mem' groups k) := by
  obtain ⟨group, id, hf, hpeek, hid, hhead, -⟩ := ht.head hk
  have hhead' : groupHead mem' groups k = some ⟨mem' id, g.ticket k⟩ := by
    rw [groupHead_of_find (hfind.trans hf), hpeek, ticket_of_find hf]
    rfl
  rw [hhead, hhead']
  exact .some ⟨hmem id hid, rfl⟩

/-- The heap of the groups when one group changed: in order but for this group. -/
theorem GroupsOk.loose {groups : GroupMap OrderedGroup}
    (hok : GroupsOk order estimateCost l ring out mem g) (key : GroupKey)
    (hother : ∀ k, k ≠ key → groupMapFind groups k = groupMapFind g.groups k)
    (hmem : ∀ k, k ≠ key → ∀ x, (x, k) ∈ entries l → SameOrder (mem x) (mem' x)) :
    g.groupHeap.Loose (orderedGroupCompare order mem' groups) key
      {k | k ∈ ring ∧ some k ≠ out} := by
  refine (hok.heap.loose key).congr fun a ha b hb hak hbk => ?_
  exact orderedGroupCompare_congr (hok.tables.sameHead ha.1 (hother a hak) (hmem a hak))
    (hok.tables.sameHead hb.1 (hother b hbk) (hmem b hbk))

/-- The invariant is not affected by changes the order does not see. -/
theorem GroupsOk.frame (hok : GroupsOk order estimateCost l ring out mem g)
    (hmem : ∀ x ∈ taskIds l, SameOrder (mem x) (mem' x)) :
    GroupsOk order estimateCost l ring out mem' g := by
  have hentry : ∀ k x, (x, k) ∈ entries l → SameOrder (mem x) (mem' x) := by
    intro k x hx
    obtain ⟨d, hd, hdx, -⟩ := mem_entries.1 hx
    exact hmem x (mem_taskIds.2 ⟨d, hd, hdx⟩)
  have ht := hok.tables
  refine ⟨⟨ht.tasks, fun k group hf => ?_, ht.live, ht.mem_ring, ht.tickets, ht.below, ht.flags⟩,
    ?_, hok.outside⟩
  · exact (ht.ready k group hf).frame (orderCompare_reads order) fun x hx =>
      hentry k x (mem_taskIds_ofGroup.1 hx)
  · refine hok.heap.congr fun a ha b hb => ?_
    exact orderedGroupCompare_congr (ht.sameHead ha.1 rfl (hentry a)) (ht.sameHead hb.1 rfl (hentry b))

/-- The invariant depends on ids and groups only. -/
theorem GroupsOk.reprioritize (hok : GroupsOk order estimateCost l ring out mem g) (id : TaskId)
    (priority : Int64) : GroupsOk order estimateCost (reprioritize id priority l) ring out mem g := by
  have ht := hok.tables
  refine ⟨⟨?_, ?_, ht.live, ?_, ht.tickets, ht.below, ht.flags⟩, hok.heap, hok.outside⟩
  · rw [entries_reprioritize]
    exact ht.tasks
  · intro k group hf
    refine (ht.ready k group hf).of_ids ?_
    rw [ofGroup_reprioritize, taskIds_reprioritize]
  · intro k
    rw [ht.mem_ring, ofGroup_reprioritize]
    simp [QhwScheduler.reprioritize]

variable (hH : H.Lawful)

include hH

/-- Reheapifying a group puts it in order, or does nothing when it is not in the heap. -/
theorem orderedGroupReheapify_spec
    (hl : g.groupHeap.Loose (orderedGroupCompare order mem g.groups) key S)
    (hout : key ∉ S → g.groupHeap.index key = none) :
    ∃ heap, orderedGroupReheapify H order mem g key = (.ok, { g with groupHeap := heap }) ∧
      heap.Holds (orderedGroupCompare order mem g.groups) S ∧ (key ∉ S → heap.index key = none) := by
  unfold orderedGroupReheapify
  by_cases hk : key ∈ S
  · obtain ⟨hfound, hholds⟩ := hl.reheapify hH hk
    obtain ⟨p, hp, -⟩ := hl.sound.exists_index ((hl.mem key).2 hk)
    rw [hp]
    dsimp only
    rw [hfound]
    exact ⟨_, rfl, hholds, fun h => absurd hk h⟩
  · rw [hout hk]
    exact ⟨g.groupHeap, rfl, hl.tight hk, hout⟩

/-- **A refreshed task** is put in its place in its group, and its group in the
heap of the groups. -/
theorem orderedTouch_spec (ht : GroupTables order estimateCost l ring mem g)
    (hheap : ∀ groups, (∀ k, k ≠ key → groupMapFind groups k = groupMapFind g.groups k) →
      g.groupHeap.Loose (orderedGroupCompare order mem' groups) key {k | k ∈ ring ∧ some k ≠ out})
    (hout : ∀ k, out = some k → k = key ∧ g.groupHeap.index key = none)
    (hid : (id, key) ∈ entries l) (hoff : ∀ x, x ≠ id → mem' x = mem x)
    (hsame : DeadlineQueue.SameTask (mem id) (mem' id)) :
    ∃ g', orderedTouch H order mem' g id
      (decide ((mem id).effectivePriority ≠ (mem' id).effectivePriority)) = (.ok, g') ∧
      GroupsOk order estimateCost l ring out mem' g' ∧ (∀ k, g'.ticket k = g.ticket k) ∧
      g'.nextGroupTicket = g.nextGroupTicket := by
  obtain ⟨group, hfind⟩ := ht.find_of_entry hid
  have hmem : ∀ k, k ≠ key → ∀ x, (x, k) ∈ entries l → SameOrder (mem x) (mem' x) := by
    intro k hk x hx
    have hne : x ≠ id := by
      rintro rfl
      exact hk (ht.key_eq hid hx)
    rw [hoff x hne]
    exact SameOrder.refl _
  obtain ⟨ready', htouch, hready'⟩ := (flat_touches estimateCost (ofGroup key l) hH
    (orderCompare_reads order)).touch (ht.ready key group hfind) (mem_taskIds_ofGroup.2 hid) hoff hsame
  have htouch : (if decide ((mem id).effectivePriority ≠ (mem' id).effectivePriority) = true
      then readyQueueReorder H (orderCompare order) mem' group.ready id
      else (.ok, group.ready)) = (.ok, ready') := htouch
  unfold orderedTouch
  rw [(ht.tasks id key).2 hid]
  dsimp only
  rw [hfind]
  dsimp only
  rw [htouch]
  simp only [ne_eq, not_true_eq_false, if_false]
  have hother : ∀ k, k ≠ key →
      groupMapFind (groupMapSet g.groups key { group with ready := ready' }) k =
        groupMapFind g.groups k := by
    intro k hk
    rw [find_set, if_neg hk]
  have hself : groupMapFind (groupMapSet g.groups key { group with ready := ready' }) key =
      some { group with ready := ready' } := by rw [find_set, if_pos rfl]
  generalize hg₁ : ({ g with
    groups := groupMapSet g.groups key { group with ready := ready' } } : OrderedGroups) = g₁
  have hgroups : g₁.groups = groupMapSet g.groups key { group with ready := ready' } := by rw [← hg₁]
  have hheap₁ : g₁.groupHeap = g.groupHeap := by rw [← hg₁]
  rw [← hgroups] at hother hself
  have hticket : ∀ k, g₁.ticket k = g.ticket k := by
    intro k
    by_cases hk : k = key
    · rw [hk, ticket_of_find hself, ticket_of_find hfind]
    · exact ticket_congr (hother k hk)
  have hnext : g₁.nextGroupTicket = g.nextGroupTicket := by rw [← hg₁]
  have htables : GroupTables order estimateCost l ring mem' g₁ := by
    refine ht.update key ?_ hother (fun _ _ => rfl) hmem ?_ ?_ (fun _ _ => Iff.rfl) (ht.mem_ring key)
      ?_ ?_ ?_
    · rw [← hg₁]
      exact ht.tasks
    · intro group' hf
      rw [hself] at hf
      rw [← Option.some.inj hf]
      exact hready'
    · rw [hself, ← ht.live, hfind]
      simp
    · simp only [hticket]
      exact ht.tickets
    · intro k hk
      rw [hticket, hnext]
      exact ht.below k hk
    · rw [← hg₁]
      exact ht.flags
  have hl := hheap g₁.groups hother
  rw [← hheap₁] at hl
  obtain ⟨heap, hre, hholds, hidx⟩ := orderedGroupReheapify_spec hH hl (by
    intro hk
    have hring : key ∈ ring := (ht.live key).1 (by rw [hfind]; rfl)
    rw [hheap₁]
    by_contra hne
    refine hk ⟨hring, fun h => ?_⟩
    exact hne (hout key h.symm).2)
  refine ⟨_, hre, ⟨⟨htables.tasks, htables.ready, htables.live, htables.mem_ring, htables.tickets,
    htables.below, htables.flags⟩, hholds, ?_⟩, hticket, hnext⟩
  intro k hk
  obtain ⟨rfl, -⟩ := hout k hk
  exact hidx fun h => h.2 hk.symm

/-- A group that was left out enters the heap. -/
theorem GroupsOk.push (hok : GroupsOk order estimateCost l ring (some key) mem g) (hk : key ∈ ring) :
    GroupsOk order estimateCost l ring none mem { g with
      groupHeap := g.groupHeap.push H (orderedGroupCompare order mem g.groups) key } := by
  have ht := hok.tables
  have hnot : key ∉ {k | k ∈ ring ∧ some k ≠ some key} := fun h => h.2 rfl
  refine ⟨⟨ht.tasks, ht.ready, ht.live, ht.mem_ring, ht.tickets, ht.below, ht.flags⟩, ?_, by simp⟩
  have hset : {k | k ∈ ring ∧ some k ≠ none} = insert key {k | k ∈ ring ∧ some k ≠ some key} := by
    ext k
    by_cases hkk : k = key
    · simp [hkk, hk]
    · simp [hkk]
  rw [hset]
  exact hok.heap.push hH hnot

end Tables

end QhwScheduler
