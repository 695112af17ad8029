import QhwScheduler.Plugins.OrderedGroups

/-!
# Tasks leaving the groups

What takes a task or a group out of the tables of the ordered plugin, and what
becomes of the order of the tickets.

* `ringWithout`, `ringWith`, `ringServed` — the groups in the order of their tickets
  after a departure, an arrival and a selection.
* `GroupTables.served_last`, `GroupTables.served_more`, `GroupTables.served_back` — the
  tables without a task: its group leaves, stays in its place, or goes to the end.
* `orderedGroupDestroy_spec` — a group is destroyed.
* `orderedRemoveGroupTask_spec` — a task leaves its group.
-/

namespace QhwScheduler

open Foundations DeadlineQueue
open Std (TransCmp)

/-- The groups in order of tickets, once the tasks of `key` are what the list says. -/
def ringWithout (key : GroupKey) (l : List TaskDesc) (ring : List GroupKey) : List GroupKey :=
  if ofGroup key l = [] then ring.filter (· ≠ key) else ring

/-- The groups in order of tickets, once `key` has a task. -/
def ringWith (key : GroupKey) (ring : List GroupKey) : List GroupKey :=
  if key ∈ ring then ring else ring ++ [key]

/-- The groups in order of tickets, once `key` has been served. -/
def ringServed (key : GroupKey) (l : List TaskDesc) (ring : List GroupKey) : List GroupKey :=
  ring.filter (· ≠ key) ++ if ofGroup key l = [] then [] else [key]

section Groups

variable {H : HeapOps} {E : Env} {order : OrderConfig} {estimateCost : Bool} {l : List TaskDesc}
  {ring ring₀ : List GroupKey} {mem mem' : Memory} {g g' : OrderedGroups} {key k : GroupKey}
  {out : Option GroupKey} {group : OrderedGroup} {id : TaskId} {S : Set GroupKey} {c : Cursor}

/-! ## Tickets -/

theorem GroupTables.tickets_sublist (ht : GroupTables order estimateCost l ring mem g)
    (hsub : ring₀.Sublist ring) (hold : ∀ k ∈ ring₀, g'.ticket k = g.ticket k) :
    ring₀.Pairwise fun a b => g'.ticket a < g'.ticket b := by
  refine (ht.tickets.sublist hsub).imp_of_mem ?_
  intro a b ha hb hlt
  rw [hold a ha, hold b hb]
  exact hlt

/-- A group with a fresh ticket comes last. -/
theorem GroupTables.tickets_append (ht : GroupTables order estimateCost l ring mem g)
    (hsub : ring₀.Sublist ring) (hold : ∀ k ∈ ring₀, g'.ticket k = g.ticket k)
    (hkey : g'.ticket key = g.nextGroupTicket) :
    (ring₀ ++ [key]).Pairwise fun a b => g'.ticket a < g'.ticket b := by
  rw [List.pairwise_append]
  refine ⟨ht.tickets_sublist hsub hold, List.pairwise_singleton _ _, ?_⟩
  intro a ha b hb
  rw [List.mem_singleton.1 hb, hkey, hold a ha]
  exact ht.below a (hsub.subset ha)

/-- Tables with the same groups and tasks. -/
theorem GroupTables.congr (ht : GroupTables order estimateCost l ring mem g)
    (htasks : g'.groupTasks = g.groupTasks)
    (hfind : ∀ k, groupMapFind g'.groups k = groupMapFind g.groups k)
    (hnext : g.nextGroupTicket ≤ g'.nextGroupTicket) (hflags : g'.readyFlags = g.readyFlags) :
    GroupTables order estimateCost l ring mem g' := by
  refine ⟨htasks ▸ ht.tasks, fun k group hf => ht.ready k group (hfind k ▸ hf), fun k => ?_,
    ht.mem_ring, ?_, ?_, hflags.trans ht.flags⟩
  · rw [hfind]
    exact ht.live k
  · exact ht.tickets_sublist (List.Sublist.refl _) fun k _ => ticket_congr (hfind k)
  · intro k hk
    rw [ticket_congr (hfind k)]
    exact lt_of_lt_of_le (ht.below k hk) hnext

/-! ## The tables without a task -/

/-- A queue shows a task when its list has one. -/
theorem FlatReady.peek_none_iff {cmp : ReadyCompare} {ready : ReadyQueue}
    (hready : FlatReady cmp estimateCost l mem ready) : readyQueuePeek ready = none ↔ l = [] := by
  rw [hready.heap.peek_none_iff]
  constructor
  · intro hempty
    rw [List.eq_nil_iff_forall_not_mem]
    intro d hd
    have hin : d.taskId ∈ {x | x ∈ taskIds l} := mem_taskIds_of_mem hd
    rw [hempty] at hin
    exact Set.notMem_empty _ hin
  · rintro rfl
    ext x
    simp

/-- The tables after a task of the group left with `g'`, for a ring that keeps the
other groups. -/
theorem GroupTables.served {g' : OrderedGroups} {ring' : List GroupKey}
    (ht : GroupTables order estimateCost l ring mem g) (hid : (id, key) ∈ entries l)
    (htasks : g'.groupTasks = Function.update g.groupTasks id none)
    (hother : ∀ k, k ≠ key → groupMapFind g'.groups k = groupMapFind g.groups k)
    (hmem : ∀ x, SameOrder (mem x) (mem' x))
    (hready : ∀ group, groupMapFind g'.groups key = some group →
      FlatReady (orderCompare order) estimateCost (ofGroup key (withoutTask id l)) mem' group.ready)
    (hlive : (groupMapFind g'.groups key).isSome ↔ key ∈ ring')
    (hring : ∀ k, k ≠ key → (k ∈ ring' ↔ k ∈ ring))
    (hkey : key ∈ ring' ↔ ofGroup key (withoutTask id l) ≠ [])
    (htickets : ring'.Pairwise fun a b => g'.ticket a < g'.ticket b)
    (hbelow : ∀ k ∈ ring', g'.ticket k < g'.nextGroupTicket) (hflags : g'.readyFlags = g.readyFlags) :
    GroupTables order estimateCost (withoutTask id l) ring' mem' g' := by
  have hlist : ∀ k, k ≠ key → ofGroup k (withoutTask id l) = ofGroup k l :=
    fun k hk => ofGroup_withoutTask_of_ne fun h => hk (ht.key_eq hid h)
  refine ht.update key ?_ hother hlist (fun _ _ x _ => hmem x) hready hlive hring hkey htickets
    hbelow (hflags.trans ht.flags)
  intro x k
  rw [htasks, mem_entries_withoutTask]
  by_cases hx : x = id
  · simp [hx]
  · rw [Function.update_of_ne hx, ht.tasks]
    simp [hx]

/-- The group leaves with its last task. -/
theorem GroupTables.served_last (ht : GroupTables order estimateCost l ring mem g)
    (hid : (id, key) ∈ entries l) (hnil : ofGroup key (withoutTask id l) = [])
    (htasks : g'.groupTasks = Function.update g.groupTasks id none)
    (hother : ∀ k, k ≠ key → groupMapFind g'.groups k = groupMapFind g.groups k)
    (hgone : groupMapFind g'.groups key = none) (hmem : ∀ x, SameOrder (mem x) (mem' x))
    (hnext : g'.nextGroupTicket = g.nextGroupTicket) (hflags : g'.readyFlags = g.readyFlags) :
    GroupTables order estimateCost (withoutTask id l) (ring.filter (· ≠ key)) mem' g' := by
  have hrest : ∀ k, k ∈ ring.filter (· ≠ key) ↔ k ∈ ring ∧ k ≠ key := by simp
  have hticket : ∀ k ∈ ring.filter (· ≠ key), g'.ticket k = g.ticket k :=
    fun k hk => ticket_congr (hother k ((hrest k).1 hk).2)
  refine ht.served hid htasks hother hmem ?_ ?_ ?_ ?_
    (ht.tickets_sublist List.filter_sublist hticket) ?_ hflags
  · intro group hf
    rw [hgone] at hf
    simp at hf
  · simp [hgone]
  · intro k hk
    simp [hk]
  · simp [hnil]
  · intro k hk
    rw [hticket k hk, hnext]
    exact ht.below k ((hrest k).1 hk).1

/-- The group keeps its place with the tasks that are left. -/
theorem GroupTables.served_more (ht : GroupTables order estimateCost l ring mem g)
    (hid : (id, key) ∈ entries l) (hmore : ofGroup key (withoutTask id l) ≠ [])
    (htasks : g'.groupTasks = Function.update g.groupTasks id none)
    (hother : ∀ k, k ≠ key → groupMapFind g'.groups k = groupMapFind g.groups k)
    (hself : groupMapFind g'.groups key = some group)
    (hready : FlatReady (orderCompare order) estimateCost (ofGroup key (withoutTask id l)) mem'
      group.ready)
    (hmem : ∀ x, SameOrder (mem x) (mem' x)) (hring : key ∈ ring)
    (hkey : g'.ticket key = g.ticket key) (hnext : g'.nextGroupTicket = g.nextGroupTicket)
    (hflags : g'.readyFlags = g.readyFlags) :
    GroupTables order estimateCost (withoutTask id l) ring mem' g' := by
  have hticket : ∀ k, g'.ticket k = g.ticket k := by
    intro k
    by_cases hk : k = key
    · rw [hk, hkey]
    · exact ticket_congr (hother k hk)
  refine ht.served hid htasks hother hmem ?_ ?_ (fun _ _ => Iff.rfl) ?_
    (ht.tickets_sublist (List.Sublist.refl _) fun k _ => hticket k) ?_ hflags
  · intro group' hf
    rw [hself] at hf
    rw [← Option.some.inj hf]
    exact hready
  · simp [hself, hring]
  · simp [hring, hmore]
  · intro k hk
    rw [hticket, hnext]
    exact ht.below k hk

/-- The group goes to the end with a fresh ticket. -/
theorem GroupTables.served_back (ht : GroupTables order estimateCost l ring mem g)
    (hid : (id, key) ∈ entries l) (hmore : ofGroup key (withoutTask id l) ≠ [])
    (htasks : g'.groupTasks = Function.update g.groupTasks id none)
    (hother : ∀ k, k ≠ key → groupMapFind g'.groups k = groupMapFind g.groups k)
    (hself : groupMapFind g'.groups key = some group)
    (hready : FlatReady (orderCompare order) estimateCost (ofGroup key (withoutTask id l)) mem'
      group.ready)
    (hmem : ∀ x, SameOrder (mem x) (mem' x)) (hkey : g'.ticket key = g.nextGroupTicket)
    (hnext : g'.nextGroupTicket = g.nextGroupTicket + 1) (hflags : g'.readyFlags = g.readyFlags) :
    GroupTables order estimateCost (withoutTask id l) (ring.filter (· ≠ key) ++ [key]) mem' g' := by
  have hrest : ∀ k, k ∈ ring.filter (· ≠ key) ↔ k ∈ ring ∧ k ≠ key := by simp
  have hticket : ∀ k ∈ ring.filter (· ≠ key), g'.ticket k = g.ticket k :=
    fun k hk => ticket_congr (hother k ((hrest k).1 hk).2)
  refine ht.served hid htasks hother hmem ?_ ?_ ?_ ?_
    (ht.tickets_append List.filter_sublist hticket hkey) ?_ hflags
  · intro group' hf
    rw [hself] at hf
    rw [← Option.some.inj hf]
    exact hready
  · simp [hself]
  · intro k hk
    simp [hk]
  · simp [hmore]
  · intro k hk
    rw [hnext]
    rcases List.mem_append.1 hk with hk | hk
    · rw [hticket k hk]
      exact Nat.lt_succ_of_lt (ht.below k ((hrest k).1 hk).1)
    · rw [List.mem_singleton.1 hk, hkey]
      exact Nat.lt_succ_self _

/-- The groups in the heap when one has left. -/
theorem inHeap_without (hout : ∀ k, out = some k → k = key) :
    {k | k ∈ ring.filter (· ≠ key) ∧ some k ≠ none} = {k | k ∈ ring ∧ some k ≠ out} \ {key} := by
  have hrest : ∀ k, k ∈ ring.filter (· ≠ key) ↔ k ∈ ring ∧ k ≠ key := by simp
  ext k
  simp only [Set.mem_ofPred_eq, hrest, Set.mem_sdiff, Set.mem_singleton_iff]
  constructor
  · rintro ⟨⟨hk, hne⟩, -⟩
    exact ⟨⟨hk, fun h => hne (hout k h.symm)⟩, hne⟩
  · rintro ⟨⟨hk, -⟩, hne⟩
    exact ⟨⟨hk, hne⟩, by simp⟩

/-! ## A task leaves its group -/

/-- The tables once a task has left the queue of its group. -/
def OrderedGroups.taken (g : OrderedGroups) (key : GroupKey) (group : OrderedGroup) (id : TaskId) :
    OrderedGroups :=
  { g with
    groups := groupMapSet g.groups key group
    groupTasks := Function.update g.groupTasks id none }

theorem OrderedGroups.taken_other {k : GroupKey} (hk : k ≠ key) :
    groupMapFind (g.taken key group id).groups k = groupMapFind g.groups k := by
  rw [OrderedGroups.taken, find_set, if_neg hk]

theorem OrderedGroups.taken_self : groupMapFind (g.taken key group id).groups key = some group := by
  rw [OrderedGroups.taken, find_set, if_pos rfl]

/-- Only the group of the task may be out of place in the heap then. -/
theorem GroupsOk.taken_loose (hok : GroupsOk order estimateCost l ring out mem g) :
    (g.taken key group id).groupHeap.Loose
      (orderedGroupCompare order mem (g.taken key group id).groups) key
      {k | k ∈ ring ∧ some k ≠ out} :=
  hok.loose key (fun _ hk => OrderedGroups.taken_other hk) fun _ _ _ _ => SameOrder.refl _

theorem GroupsOk.taken_outside (hok : GroupsOk order estimateCost l ring out mem g)
    (hring : key ∈ ring) :
    key ∉ {k | k ∈ ring ∧ some k ≠ out} → (g.taken key group id).groupHeap.index key = none := by
  intro hk
  by_contra hne
  exact hk ⟨hring, fun h => hne (hok.outside key h.symm)⟩

section Lawful

variable (hH : H.Lawful)

include hH

/-- A group that is destroyed is in no table and in no heap any more. -/
theorem orderedGroupDestroy_spec
    (hl : g.groupHeap.Loose (orderedGroupCompare order mem g.groups) key S)
    (hout : key ∉ S → g.groupHeap.index key = none) :
    ∃ heap, orderedGroupDestroy H order mem g key =
        { g with groupHeap := heap, groups := groupMapRemove g.groups key } ∧
      heap.Holds (orderedGroupCompare order mem (groupMapRemove g.groups key)) (S \ {key}) := by
  have hcmp : ∀ a ∈ S \ {key}, ∀ b ∈ S \ {key}, orderedGroupCompare order mem g.groups a b =
      orderedGroupCompare order mem (groupMapRemove g.groups key) a b := by
    intro a ha b hb
    have hhead : ∀ k, k ≠ key → SameHead (groupHead mem g.groups k)
        (groupHead mem (groupMapRemove g.groups key) k) := by
      intro k hk
      have he : groupHead mem (groupMapRemove g.groups key) k = groupHead mem g.groups k :=
        groupHead_congr (by rw [find_remove, if_neg hk])
      rw [he]
      exact sameHead_refl _
    exact orderedGroupCompare_congr (hhead a ha.2) (hhead b hb.2)
  unfold orderedGroupDestroy
  by_cases hk : key ∈ S
  · obtain ⟨-, hholds, -⟩ := hl.remove hH hk
    obtain ⟨p, hp, -⟩ := hl.sound.exists_index ((hl.mem key).2 hk)
    rw [hp]
    exact ⟨_, rfl, (hholds.setIndex (by simp) none).congr hcmp⟩
  · rw [hout hk]
    rw [Set.sdiff_singleton_eq_self hk] at hcmp ⊢
    exact ⟨_, rfl, (hl.tight hk).congr hcmp⟩

/-- The last task of the group has left its queue. -/
theorem GroupsOk.taken_last (hok : GroupsOk order estimateCost l ring out mem g)
    (hid : (id, key) ∈ entries l) (hring : key ∈ ring) (hout : ∀ k, out = some k → k = key)
    (hnil : ofGroup key (withoutTask id l) = []) :
    GroupsOk order estimateCost (withoutTask id l) (ring.filter (· ≠ key)) none mem
      (orderedGroupDestroy H order mem (g.taken key group id) key) := by
  obtain ⟨heap, hdestroy, hholds⟩ :=
    orderedGroupDestroy_spec hH hok.taken_loose (hok.taken_outside hring)
  rw [hdestroy]
  refine ⟨hok.tables.served_last hid hnil rfl (fun k hk => ?_) ?_ (fun _ => SameOrder.refl _) rfl rfl,
    ?_, by simp⟩
  · dsimp only
    rw [find_remove, if_neg hk, OrderedGroups.taken_other hk]
  · simp
  · rw [inHeap_without hout]
    exact hholds

/-- A task has left the queue of its group, and not the last one. -/
theorem GroupsOk.taken_more (hok : GroupsOk order estimateCost l ring none mem g)
    (hid : (id, key) ∈ entries l) (hring : key ∈ ring)
    (hmore : ofGroup key (withoutTask id l) ≠ [])
    (hready : FlatReady (orderCompare order) estimateCost (ofGroup key (withoutTask id l)) mem
      group.ready) (hticket : g.ticket key = group.ticket) :
    ∃ g', orderedGroupReheapify H order mem (g.taken key group id) key = (.ok, g') ∧
      GroupsOk order estimateCost (withoutTask id l) ring none mem g' := by
  obtain ⟨heap, hre, hholds, -⟩ :=
    orderedGroupReheapify_spec hH hok.taken_loose (hok.taken_outside hring)
  have hself : groupMapFind (g.taken key group id).groups key = some group :=
    OrderedGroups.taken_self
  have hother : ∀ k, k ≠ key →
      groupMapFind (g.taken key group id).groups k = groupMapFind g.groups k :=
    fun k hk => OrderedGroups.taken_other hk
  have hkey : (g.taken key group id).ticket key = g.ticket key := by
    rw [hticket, ticket_of_find hself]
  exact ⟨_, hre, hok.tables.served_more hid hmore rfl hother hself hready
    (fun _ => SameOrder.refl _) hring hkey rfl rfl, hholds, by simp⟩

/-- **A task leaves its group**, and the group leaves with its last task. -/
theorem orderedRemoveGroupTask_spec (hok : GroupsOk order estimateCost l ring out mem g)
    (hid : (id, key) ∈ entries l)
    (hout : ∀ k, out = some k → k = key ∧ ofGroup key (withoutTask id l) = []) :
    ∃ g', orderedRemoveGroupTask H order mem g id = (.ok, g') ∧
      GroupsOk order estimateCost (withoutTask id l) (ringWithout key (withoutTask id l) ring) none
        mem g' := by
  have ht := hok.tables
  obtain ⟨group, hfind⟩ := ht.find_of_entry hid
  have hring : key ∈ ring := (ht.live key).1 (by rw [hfind]; rfl)
  have hready := ht.ready key group hfind
  obtain ⟨ready', hrem, hheap, hflag, hseq⟩ :=
    hready.heap.remove hH (mem_taskIds_ofGroup.2 hid)
  have hready' := hready.without hheap hflag hseq
  rw [← ofGroup_withoutTask] at hready'
  have htask : g.groupTasks id = some key := (ht.tasks id key).2 hid
  have hstep : orderedRemoveGroupTask H order mem g id =
      if readyQueuePeek ready' = none then
        (.ok, orderedGroupDestroy H order mem (g.taken key { group with ready := ready' } id) key)
      else orderedGroupReheapify H order mem (g.taken key { group with ready := ready' } id) key := by
    simp only [orderedRemoveGroupTask, htask, hfind, hrem, ne_eq, not_true_eq_false, if_false]
    rfl
  rw [hstep, ringWithout]
  by_cases hnil : ofGroup key (withoutTask id l) = []
  · rw [if_pos (hready'.peek_none_iff.2 hnil), if_pos hnil]
    exact ⟨_, rfl, hok.taken_last hH hid hring (fun k hk => (hout k hk).1) hnil⟩
  · have hnone : out = none := by
      cases out with
      | none => rfl
      | some k => exact absurd (hout k rfl).2 hnil
    subst hnone
    have hticket : g.ticket key = group.ticket := ticket_of_find hfind
    rw [if_neg fun hpeek => hnil (hready'.peek_none_iff.1 hpeek), if_neg hnil]
    exact hok.taken_more hH hid hring hnil hready' hticket

end Lawful

end Groups

end QhwScheduler
