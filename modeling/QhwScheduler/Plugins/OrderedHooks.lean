import QhwScheduler.Plugins.OrderedSubmit

/-!
# The hooks of the policy with groups

* `ordered_touches_tickets` — refreshing a task keeps the groups in order.
* `GroupsOk.root_leaves`, `GroupsOk.root_returns` — what becomes of the group at the
  root when a task of it was taken.
* `orderedSelectRoundRobin_spec` — the group at the root is served: its first task
  is least over all groups, and the group goes to the end of the ring.
* `orderedSelectGroups_spec`, `orderedGroupsPriorityChanged_spec`,
  `orderedGroupsFinished_spec` — the hooks.
-/

namespace QhwScheduler

open Foundations DeadlineQueue
open Std (TransCmp)

section Hooks

variable {H : HeapOps} {E : Env} {order : OrderConfig} {estimateCost : Bool} {G : Prop}
  {τ t : UInt64} {q : DeadlineQueue OrderedGroups} {l : List TaskDesc} {ring : List GroupKey}
  {mem mem' : Memory} {g : OrderedGroups} {key : GroupKey} {id : TaskId}

/-- Refreshing a task keeps the groups in order, and their tickets. -/
theorem ordered_touches_tickets (hH : H.Lawful) (order : OrderConfig) (estimateCost : Bool)
    (l : List TaskDesc) (ring : List GroupKey) (tickets : GroupKey → ℕ) :
    Touches (orderedTouch H order)
      (fun mem g => GroupsOk order estimateCost l ring none mem g ∧ ∀ k, g.ticket k = tickets k) l where
  frame := fun h hsame => ⟨h.1.frame hsame, h.2⟩
  touch := by
    rintro mem mem' g id ⟨hok, htickets⟩ hid hoff hsame
    obtain ⟨d, hd, rfl⟩ := mem_taskIds.1 hid
    have hentry : (d.taskId, groupKeyFromTask d) ∈ entries l := mem_entries.2 ⟨d, hd, rfl, rfl⟩
    have hmem : ∀ k, k ≠ groupKeyFromTask d → ∀ x, (x, k) ∈ entries l →
        SameOrder (mem x) (mem' x) := by
      intro k hk x hx
      have hne : x ≠ d.taskId := by
        rintro rfl
        exact hk (hok.tables.key_eq hentry hx)
      rw [hoff x hne]
      exact SameOrder.refl _
    obtain ⟨g', htouch, hok', hkept, -⟩ := orderedTouch_spec hH hok.tables
      (fun groups hgroups => hok.loose (groupKeyFromTask d) hgroups hmem) (by simp) hentry hoff hsame
    exact ⟨g', htouch, hok', fun k => (hkept k).trans (htickets k)⟩

theorem ordered_touches (hH : H.Lawful) (order : OrderConfig) (estimateCost : Bool)
    (l : List TaskDesc) (ring : List GroupKey) :
    Touches (orderedTouch H order) (GroupsOk order estimateCost l ring none) l where
  frame := GroupsOk.frame
  touch := by
    intro mem mem' g id hok hid hoff hsame
    obtain ⟨g', htouch, hok', -⟩ := (ordered_touches_tickets hH order estimateCost l ring
      g.ticket).touch ⟨hok, fun _ => rfl⟩ hid hoff hsame
    exact ⟨g', htouch, hok'⟩

/-- A task is found when it waits. -/
theorem GroupTables.findTask_iff (ht : GroupTables order estimateCost l ring mem g) :
    orderedFindGroupTask g id = true ↔ id ∈ taskIds l := by
  unfold orderedFindGroupTask
  rw [← ht.isSome_iff]
  cases htask : g.groupTasks id with
  | none => simp
  | some key =>
    have hentry := (ht.tasks id key).1 htask
    obtain ⟨group, hfind⟩ := ht.find_of_entry hentry
    dsimp only
    rw [hfind]
    simp only [Option.isSome_some, iff_true]
    exact (ht.ready key group hfind).heap.find_iff.2 (mem_taskIds_ofGroup.2 hentry)

/-! ## Selection -/

/-- The head of the first group is least over the tasks of all groups. -/
theorem GroupsOk.least (hok : GroupsOk order estimateCost l ring none mem g)
    (hroot : g.groupHeap.items.head? = some key) {group : OrderedGroup}
    (hfind : groupMapFind g.groups key = some group) (hpeek : readyQueuePeek group.ready = some id) :
    ∀ e ∈ l, (orderCompareGroups order (mem id) (mem e.taskId) (g.ticket key)
      (g.ticket (groupKeyFromTask e))).isLE := by
  intro e he
  have ht := hok.tables
  have htrans := orderCompareLoop_transCmp order.keys
  have hring : groupKeyFromTask e ∈ ring := by
    rw [ht.mem_ring]
    intro hnil
    have hin : e ∈ ofGroup (groupKeyFromTask e) l := mem_ofGroup.2 ⟨he, rfl⟩
    rw [hnil] at hin
    simp at hin
  obtain ⟨group', id', hfind', hpeek', -, hhead, hfirst⟩ := ht.head hring
  have hgroups : (orderedGroupCompare order mem g.groups key (groupKeyFromTask e)).isLE :=
    have := orderedGroupCompare_transCmp order mem g.groups
    hok.heap.root_le hroot _ ⟨hring, by simp⟩
  have hkeyhead : groupHead mem g.groups key = some ⟨mem id, g.ticket key⟩ := by
    rw [groupHead_of_find hfind, hpeek, ticket_of_find hfind]
    rfl
  rw [orderedGroupCompare, hkeyhead, hhead] at hgroups
  have hheads : (orderCompareLoop order.keys ⟨mem id, g.ticket key⟩
      ⟨mem id', g.ticket (groupKeyFromTask e)⟩).isLE := hgroups
  have hin : (orderCompareLoop order.keys ⟨mem id', g.ticket (groupKeyFromTask e)⟩
      ⟨mem e.taskId, g.ticket (groupKeyFromTask e)⟩).isLE := by
    rw [orderCompareLoop_same_ticket]
    exact hfirst e.taskId (mem_entries.2 ⟨e, he, rfl, rfl⟩)
  have hle : (orderCompareLoop order.keys ⟨mem id, g.ticket key⟩
      ⟨mem e.taskId, g.ticket (groupKeyFromTask e)⟩).isLE := TransCmp.isLE_trans hheads hin
  exact hle

/-- Without a group in the heap no task waits. -/
theorem GroupsOk.nil_of_empty (hok : GroupsOk order estimateCost l ring none mem g)
    (hroot : g.groupHeap.items.head? = none) : l = [] := by
  have hempty := hok.heap.empty_iff.1 hroot
  rw [List.eq_nil_iff_forall_not_mem]
  intro d hd
  have hring : groupKeyFromTask d ∈ ({k | k ∈ ring ∧ some k ≠ none} : Set GroupKey) := by
    refine ⟨(hok.tables.mem_ring _).2 fun hnil => ?_, by simp⟩
    have hin : d ∈ ofGroup (groupKeyFromTask d) l := mem_ofGroup.2 ⟨hd, rfl⟩
    rw [hnil] at hin
    simp at hin
  rw [hempty] at hring
  exact hring

/-- The heap without the first group: the heads of the others are what they were. -/
theorem GroupsOk.popped (hH : H.Lawful) (hok : GroupsOk order estimateCost l ring none mem g)
    (hroot : g.groupHeap.items.head? = some key) (hsame : ∀ x, SameOrder (mem x) (mem' x))
    {groups : GroupMap OrderedGroup}
    (hgroups : ∀ k, k ≠ key → groupMapFind groups k = groupMapFind g.groups k) :
    ((g.groupHeap.pop H (orderedGroupCompare order mem g.groups)).setIndex key none).Holds
      (orderedGroupCompare order mem' groups) ({k | k ∈ ring ∧ some k ≠ none} \ {key}) := by
  have ht := hok.tables
  have hpopped := (hok.heap.pop hH hroot).setIndex (x := key) (by simp) none
  refine hpopped.congr fun a ha b hb => ?_
  exact orderedGroupCompare_congr (ht.sameHead ha.1.1 (hgroups a ha.2) fun x _ => hsame x)
    (ht.sameHead hb.1.1 (hgroups b hb.2) fun x _ => hsame x)

/-- The first group has given its last task away. -/
theorem GroupsOk.root_leaves (hH : H.Lawful) (hok : GroupsOk order estimateCost l ring none mem g)
    (hroot : g.groupHeap.items.head? = some key) (hid : (id, key) ∈ entries l)
    (hsame : ∀ x, SameOrder (mem x) (mem' x)) (hnil : ofGroup key (withoutTask id l) = []) :
    GroupsOk order estimateCost (withoutTask id l) (ringServed key (withoutTask id l) ring) none mem'
      { g with
        groups := groupMapRemove g.groups key
        groupTasks := Function.update g.groupTasks id none
        groupHeap :=
          (g.groupHeap.pop H (orderedGroupCompare order mem g.groups)).setIndex key none } := by
  have hother : ∀ k, k ≠ key →
      groupMapFind (groupMapRemove g.groups key) k = groupMapFind g.groups k := by
    intro k hk
    rw [find_remove, if_neg hk]
  rw [ringServed, if_pos hnil, List.append_nil]
  refine ⟨hok.tables.served_last hid hnil rfl hother (by simp) hsame rfl rfl, ?_, by simp⟩
  have hrest : {k | k ∈ ring.filter (· ≠ key) ∧ some k ≠ none} =
      {k | k ∈ ring ∧ some k ≠ none} \ {key} := inHeap_without (by simp)
  rw [hrest]
  exact hok.popped hH hroot hsame hother

/-- The first group has given a task away and has more: it goes back into the heap,
which has just lost an entry, so that the push needs no memory. -/
theorem GroupsOk.root_returns (hH : H.Lawful) (hok : GroupsOk order estimateCost l ring none mem g)
    (hroot : g.groupHeap.items.head? = some key) (hid : (id, key) ∈ entries l)
    (hsame : ∀ x, SameOrder (mem x) (mem' x)) (hmore : ofGroup key (withoutTask id l) ≠ [])
    {ready : ReadyQueue}
    (hready : FlatReady (orderCompare order) estimateCost (ofGroup key (withoutTask id l)) mem' ready)
    (c : Cursor) :
    let groups := groupMapSet g.groups key ⟨ready, g.nextGroupTicket⟩
    let p := heapPush H E (orderedGroupCompare order mem' groups)
      ((g.groupHeap.pop H (orderedGroupCompare order mem g.groups)).setIndex key none) key c
    p.ok = true ∧
      GroupsOk order estimateCost (withoutTask id l) (ringServed key (withoutTask id l) ring) none mem'
        { g with
          groups := groups
          groupTasks := Function.update g.groupTasks id none
          groupHeap := p.heap
          nextGroupTicket := g.nextGroupTicket + 1 } := by
  intro groups p
  have hother : ∀ k, k ≠ key → groupMapFind groups k = groupMapFind g.groups k := by
    intro k hk
    rw [find_set, if_neg hk]
  have hself : groupMapFind groups key = some ⟨ready, g.nextGroupTicket⟩ := by
    rw [find_set, if_pos rfl]
  obtain ⟨rest, hrest⟩ := List.head?_eq_some_iff.1 hroot
  have hroom : (g.groupHeap.pop H (orderedGroupCompare order mem g.groups)).items.length <
      (g.groupHeap.pop H (orderedGroupCompare order mem g.groups)).peak :=
    Heap.pop_room hH hok.heap.sound hrest
  have hpush : p.ok = true := heapPush_room hroom
  have hheap : p.heap = Heap.push H (orderedGroupCompare order mem' groups)
      ((g.groupHeap.pop H (orderedGroupCompare order mem g.groups)).setIndex key none) key :=
    heapPush_ok hpush
  have hfull : {k | k ∈ ring.filter (· ≠ key) ++ [key] ∧ some k ≠ none} =
      insert key ({k | k ∈ ring ∧ some k ≠ none} \ {key}) := by
    ext k
    by_cases hk : k = key
    · simp [hk]
    · simp [hk]
  rw [ringServed, if_neg hmore]
  refine ⟨hpush, hok.tables.served_back hid hmore rfl hother hself hready hsame
    (by simp only [OrderedGroups.ticket, hself]) rfl rfl, ?_, by simp⟩
  rw [hfull, hheap]
  exact (hok.popped hH hroot hsame hother).push hH (by simp)

/-- **The first group is served**: its first task, which is least over all groups,
leaves, and the group goes to the end of the ring or, without tasks, away. -/
theorem orderedSelectRoundRobin_spec (hH : H.Lawful)
    (hq : GroupedOk order estimateCost G t q l ring) (c : Cursor) :
    let r := orderedSelectRoundRobin H E order q c
    (r.rc = .errNotFound ∧ l = [] ∧ GroupedOk order estimateCost G t r.state l ring) ∨
      ∃ d ∈ l, r.rc = .ok ∧ r.taskId = d.taskId ∧
        GroupedOk order estimateCost G t r.state (withoutTask d.taskId l)
          (ringServed (groupKeyFromTask d) (withoutTask d.taskId l) ring) ∧
        ∀ e ∈ l, (orderCompareGroups order (q.mem d.taskId) (q.mem e.taskId)
          (q.ready.ticket (groupKeyFromTask d)) (q.ready.ticket (groupKeyFromTask e))).isLE := by
  have hok := hq.groups
  have ht := hok.tables
  dsimp only
  unfold orderedSelectRoundRobin
  cases hroot : q.ready.groupHeap.items.head? with
  | none => exact Or.inl ⟨rfl, hok.nil_of_empty hroot, hq⟩
  | some key =>
    have hkey : key ∈ ring := (hok.heap.root_mem hroot).1
    obtain ⟨group, id, hfind, hpeek, hentry, -⟩ := ht.head hkey
    have hleast := hok.least hroot hfind hpeek
    obtain ⟨htl, hsame⟩ := hq.tracked.leave hH id
    have hfresh : G → Fresh order.deadline t (deadlineRefreshRemove H q.mem q.refresh id).1
        (deadlineRefreshRemove H q.mem q.refresh id).2 (withoutTask id l) :=
      fun hG => (hq.fresh hG).leave hH hq.tracked id
    dsimp only
    rw [hfind]
    dsimp only
    rw [hpeek]
    dsimp only
    generalize deadlineRefreshRemove H q.mem q.refresh id = m at htl hsame hfresh ⊢
    obtain ⟨mem', refresh'⟩ := m
    dsimp only at htl hsame hfresh ⊢
    have hready := (ht.ready key group hfind).frame (orderCompare_reads order) fun x _ => hsame x
    have hids : ∀ x ∈ {x | x ∈ taskIds (ofGroup key l)}, (mem' x).desc.taskId = x := by
      intro x hx
      rw [(hsame x).desc]
      exact hq.tracked.taskId_eq x ((ofGroup_sublist.map _).subset hx)
    obtain ⟨ready', hpop, hheap, hflag, hseq⟩ := hready.heap.pop hH hids hpeek
    have hready' := hready.without hheap hflag hseq
    rw [← ofGroup_withoutTask] at hready'
    rw [hpop]
    dsimp only
    obtain ⟨d, hd, rfl, rfl⟩ := mem_entries.1 hentry
    refine Or.inr ⟨d, hd, ?_⟩
    by_cases hnil : ofGroup (groupKeyFromTask d) (withoutTask d.taskId l) = []
    · rw [if_pos (hready'.peek_none_iff.2 hnil)]
      exact ⟨rfl, rfl, ⟨htl, hok.root_leaves hH hroot hentry hsame hnil, hfresh⟩, hleast⟩
    · obtain ⟨hpush, hreturns⟩ :=
        hok.root_returns (E := E) hH hroot hentry hsame hnil hready' c
      rw [if_neg fun hpeek => hnil (hready'.peek_none_iff.1 hpeek), hpush]
      exact ⟨rfl, rfl, ⟨htl, hreturns, hfresh⟩, hleast⟩

/-- **A selection** refreshes what is due and serves the first group; the task taken is
least over all groups after the refresh pass. -/
theorem orderedSelectGroups_spec (hH : H.Lawful) (hE : G → Within τ E t)
    (hq : GroupedOk order estimateCost G t q l ring) (c : Cursor) :
    let r := orderedSelectGroups H E order q c
    let m := (refreshExpired H E order.deadline (orderedTouch H order) q c).state
    (r.rc = .errNotFound ∧ l = [] ∧ GroupedOk order estimateCost G t r.state l ring) ∨
      ∃ d ∈ l, r.rc = .ok ∧ r.taskId = d.taskId ∧
        GroupedOk order estimateCost G t r.state (withoutTask d.taskId l)
          (ringServed (groupKeyFromTask d) (withoutTask d.taskId l) ring) ∧
        ∀ e ∈ l, (orderCompareGroups order (m.mem d.taskId) (m.mem e.taskId)
          (m.ready.ticket (groupKeyFromTask d)) (m.ready.ticket (groupKeyFromTask e))).isLE := by
  have hto := ordered_touches hH order estimateCost l ring
  obtain ⟨hrc, htr, hgr, -⟩ := refreshExpired_spec hH E order.deadline c hto hq.tracked hq.groups
  have hfresh := fun hG => refreshExpired_fresh hH (hE hG) c hto hq.tracked hq.groups (hq.fresh hG)
  dsimp only
  unfold orderedSelectGroups
  generalize refreshExpired H E order.deadline (orderedTouch H order) q c = r at hrc htr hgr hfresh ⊢
  dsimp only
  rw [if_neg (by rw [hrc]; simp)]
  exact orderedSelectRoundRobin_spec hH ⟨htr, hgr, hfresh⟩ r.cursor

/-! ## Priority changes and departures -/

/-- A priority change takes effect, or nothing changed. -/
theorem orderedGroupsPriorityChanged_spec (hH : H.Lawful)
    (hconfig : order.deadline.boost.thresholdsRejected = false) (hE : G → Within τ E t)
    (hq : GroupedOk order estimateCost G τ q l ring) (id : TaskId) (priority : Int64) (c : Cursor) :
    let r := orderedGroupsPriorityChanged H E order q id priority c
    (r.rc = .ok ∧ GroupedOk order estimateCost G t r.state (reprioritize id priority l) ring) ∨
      (r.rc ≠ .ok ∧ GroupedOk order estimateCost G t r.state l ring) := by
  have hto := ordered_touches hH order estimateCost l ring
  dsimp only
  unfold orderedGroupsPriorityChanged
  by_cases hid : id ∈ taskIds l
  · have hfind : orderedFindGroupTask q.ready id = true := hq.groups.tables.findTask_iff.2 hid
    obtain ⟨hI, hcase⟩ := priorityChanged_spec hH E order.deadline c hto hq.tracked hq.groups
      orderedFindGroupTask hfind hid priority
    have hfresh := fun hG => priorityChanged_fresh hH (hE hG) c hconfig hto hq.tracked hq.groups
      orderedFindGroupTask hfind hid priority (hq.fresh hG)
    rcases hcase with ⟨hrc, htr⟩ | ⟨hrc, htr, -⟩
    · exact Or.inl ⟨hrc, htr, hI.reprioritize id priority, fun hG => (hfresh hG).2⟩
    · refine Or.inr ⟨by simp [hrc], htr, hI, fun hG => ?_⟩
      have hok := (hfresh hG).1
      rw [hrc] at hok
      simp at hok
  · have hfind : orderedFindGroupTask q.ready id = false := by
      rw [← Bool.not_eq_true, hq.groups.tables.findTask_iff]
      exact hid
    simp only [priorityChanged, hfind, Bool.not_false, if_true]
    exact Or.inr ⟨by simp, hq.tracked, hq.groups, fun hG => (hq.fresh hG).mono (hE hG).mono⟩

/-- A finished task leaves, if it is there, and its group leaves with its last task. -/
theorem orderedGroupsFinished_spec (hH : H.Lawful)
    (hq : GroupedOk order estimateCost G t q l ring) (id : TaskId) (c : Cursor) :
    let r := orderedGroupsFinished H order q id c
    r.rc = .ok ∧ ∃ ring', (ring' = ring ∨ ∃ key, ring' = ringWithout key (withoutTask id l) ring) ∧
      GroupedOk order estimateCost G t r.state (withoutTask id l) ring' := by
  have ht := hq.groups.tables
  dsimp only
  unfold orderedGroupsFinished
  by_cases hid : id ∈ taskIds l
  · obtain ⟨d, hd, rfl⟩ := mem_taskIds.1 hid
    have hentry : (d.taskId, groupKeyFromTask d) ∈ entries l := mem_entries.2 ⟨d, hd, rfl, rfl⟩
    obtain ⟨htl, hsame⟩ := hq.tracked.leave hH d.taskId
    obtain ⟨g', hrem, hok⟩ := orderedRemoveGroupTask_spec hH (hq.groups.frame fun x _ => hsame x)
      hentry (by simp)
    rw [if_pos (ht.findTask_iff.2 hid)]
    dsimp only
    rw [hrem]
    exact ⟨by simp, _, Or.inr ⟨_, rfl⟩, htl, hok, fun hG => (hq.fresh hG).leave hH hq.tracked _⟩
  · have hnone : q.ready.groupTasks id = none := by
      rw [← Option.not_isSome_iff_eq_none, ht.isSome_iff]
      exact hid
    rw [if_neg fun h => hid (ht.findTask_iff.1 h)]
    have hrem : orderedRemoveGroupTask H order q.mem q.ready id = (.errNotFound, q.ready) := by
      unfold orderedRemoveGroupTask
      rw [hnone]
    dsimp only
    rw [hrem, withoutTask_of_not_mem hid]
    exact ⟨by simp, ring, Or.inl rfl, hq⟩

theorem GroupedOk.mono (hq : GroupedOk order estimateCost G τ q l ring) (hle : G → τ ≤ t) :
    GroupedOk order estimateCost G t q l ring :=
  ⟨hq.tracked, hq.groups, fun hG => (hq.fresh hG).mono (hle hG)⟩

end Hooks

end QhwScheduler
