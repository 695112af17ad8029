import QhwScheduler.Plugins.OrderedRoundRobin

/-!
# A task enters a group

`ordered_submit_round_robin` step by step.

* `GroupsOpen` — the tables while the group of the new task is open: it exists,
  but may have no task yet.
* `orderedGroupGet_spec` — a group is found or created, and is open.
* `GroupsOpen.close` — an open group without tasks is destroyed again.
* `GroupsOpen.insert` — the task is in its group; `Entered` is what then holds.
* `orderedSubmitRoundRobin_spec` — the whole submission.
-/

namespace QhwScheduler

open Foundations DeadlineQueue
open Std (TransCmp)

theorem mem_ringWith {key k : GroupKey} {ring : List GroupKey} :
    k ∈ ringWith key ring ↔ k ∈ ring ∨ k = key := by
  unfold ringWith
  split
  · next hk =>
    constructor
    · exact Or.inl
    · rintro (h | rfl)
      · exact h
      · exact hk
  · simp

/-! ## An open group -/

/-- `key` has a group, which may be empty; otherwise the tables and the heap are
those of the waiting tasks. -/
structure GroupsOpen (order : OrderConfig) (estimateCost : Bool) (l : List TaskDesc)
    (ring : List GroupKey) (key : GroupKey) (mem : Memory) (g : OrderedGroups) : Prop where
  tasks : ∀ x k, g.groupTasks x = some k ↔ (x, k) ∈ entries l
  ready : ∀ k group, groupMapFind g.groups k = some group →
    FlatReady (orderCompare order) estimateCost (ofGroup k l) mem group.ready
  live : ∀ k, (groupMapFind g.groups k).isSome ↔ k ∈ ringWith key ring
  mem_ring : ∀ k, k ∈ ring ↔ ofGroup k l ≠ []
  tickets : (ringWith key ring).Pairwise fun a b => g.ticket a < g.ticket b
  below : ∀ k ∈ ringWith key ring, g.ticket k < g.nextGroupTicket
  flags : g.readyFlags = estimateCost
  heap : g.groupHeap.Holds (orderedGroupCompare order mem g.groups) {k | k ∈ ring}
  outside : key ∉ ring → g.groupHeap.index key = none

section Open

variable {H : HeapOps} {E : Env} {order : OrderConfig} {estimateCost : Bool} {l : List TaskDesc}
  {ring : List GroupKey} {mem mem' : Memory} {g : OrderedGroups} {key : GroupKey}
  {group : OrderedGroup} {task : TaskDesc} {c : Cursor}

theorem setOf_ring_none (ring : List GroupKey) :
    {k | k ∈ ring ∧ some k ≠ none} = {k | k ∈ ring} := by
  ext k
  simp

/-- A group that has tasks is open as it is. -/
theorem GroupsOk.opened (hok : GroupsOk order estimateCost l ring none mem g) (hkey : key ∈ ring) :
    GroupsOpen order estimateCost l ring key mem g := by
  have ht := hok.tables
  have hring : ringWith key ring = ring := if_pos hkey
  refine ⟨ht.tasks, ht.ready, ?_, ht.mem_ring, ?_, ?_, ht.flags, ?_, fun h => absurd hkey h⟩
  · rw [hring]
    exact ht.live
  · rw [hring]
    exact ht.tickets
  · rw [hring]
    exact ht.below
  · rw [← setOf_ring_none]
    exact hok.heap

/-- An open group that has tasks is closed as it is. -/
theorem GroupsOpen.closed (ho : GroupsOpen order estimateCost l ring key mem g) (hkey : key ∈ ring) :
    GroupsOk order estimateCost l ring none mem g := by
  have hring : ringWith key ring = ring := if_pos hkey
  obtain ⟨htasks, hready, hlive, hmem, htickets, hbelow, hflags, hheap, -⟩ := ho
  rw [hring] at hlive htickets hbelow
  exact ⟨⟨htasks, hready, hlive, hmem, htickets, hbelow, hflags⟩,
    (setOf_ring_none ring).symm ▸ hheap, by simp⟩

/-- The queue of an open group is empty exactly when the group is new. -/
theorem GroupsOpen.peek_none_iff (ho : GroupsOpen order estimateCost l ring key mem g)
    (hfind : groupMapFind g.groups key = some group) :
    readyQueuePeek group.ready = none ↔ key ∉ ring := by
  rw [(ho.ready key group hfind).heap.peek_none_iff, ho.mem_ring, not_not]
  constructor
  · intro hempty
    rw [List.eq_nil_iff_forall_not_mem]
    intro d hd
    have : d.taskId ∈ ({x | x ∈ taskIds (ofGroup key l)} : Set TaskId) := mem_taskIds_of_mem hd
    rw [hempty] at this
    exact this
  · intro hnil
    rw [hnil]
    ext x
    simp

theorem flatReady_init {order : OrderConfig} {c' : Cursor} {ready : ReadyQueue}
    (h : readyQueueInit E .heap estimateCost c = (some ready, c')) :
    FlatReady (orderCompare order) estimateCost [] mem ready := by
  obtain ⟨hheap, hflag, -⟩ := ReadyQueue.init_heap h (orderCompare order) mem
  have hset : ({x | x ∈ taskIds []} : Set TaskId) = ∅ := by
    ext x
    simp
  exact ⟨hset ▸ hheap, numbered_nil _ _, hflag⟩

/-- **The group of a task** is found, or created empty with a fresh ticket, or
there is no memory for it and at most a ticket is lost. -/
theorem orderedGroupGet_spec (hok : GroupsOk order estimateCost l ring none mem g) (E : Env)
    (key : GroupKey) (c : Cursor) :
    let r := orderedGroupGet E g key c
    (∃ group, r.1 = some group ∧ groupMapFind r.2.1.groups key = some group ∧
        GroupsOpen order estimateCost l ring key mem r.2.1) ∨
      (r.1 = none ∧ GroupsOk order estimateCost l ring none mem r.2.1 ∧
        ¬ ∀ n, E.alloc n = true) := by
  have ht := hok.tables
  dsimp only
  unfold orderedGroupGet
  cases hfind : groupMapFind g.groups key with
  | some group =>
    have hkey : key ∈ ring := (ht.live key).1 (by rw [hfind]; rfl)
    exact Or.inl ⟨group, rfl, hfind, hok.opened hkey⟩
  | none =>
    have hkey : key ∉ ring := fun h => by simpa [hfind] using (ht.live key).2 h
    have hnot : key ∉ {k | k ∈ ring ∧ some k ≠ none} := fun h => hkey h.1
    -- a lost ticket and a mark of the heap do not matter
    have hlost : GroupsOk order estimateCost l ring none mem { g with
        groupHeap := g.groupHeap.setIndex key none
        nextGroupTicket := g.nextGroupTicket + 1 } :=
      ⟨ht.congr rfl (fun _ => rfl) (Nat.le_succ _) rfl, hok.heap.setIndex hnot none, by simp⟩
    unfold orderedGroupCreate
    dsimp only
    split
    · next ha => exact Or.inr ⟨rfl, hok, fun h => by simp [h] at ha⟩
    · split
      · next hinit =>
        exact Or.inr ⟨rfl, hlost, fun h => by simp [ReadyQueue.init_alloc h, Prod.ext_iff] at hinit⟩
      · next ready c' hinit =>
        split
        · next groups c'' hins =>
          refine Or.inl ⟨⟨ready, g.nextGroupTicket⟩, rfl, ?_⟩
          have hgroups : groups = groupMapSet g.groups key ⟨ready, g.nextGroupTicket⟩ := by
            unfold groupMapInsert at hins
            rw [hfind] at hins
            simp only [Option.isSome_none, Bool.false_eq_true, if_false] at hins
            split at hins
            · simp at hins
            · simp only [Prod.mk.injEq, true_and] at hins
              exact hins.1.symm
          have hself : groupMapFind groups key = some ⟨ready, g.nextGroupTicket⟩ := by
            rw [hgroups, find_set, if_pos rfl]
          have hother : ∀ k, k ≠ key → groupMapFind groups k = groupMapFind g.groups k := by
            intro k hk
            rw [hgroups, find_set, if_neg hk]
          have hnil : ofGroup key l = [] := by
            by_contra hne
            exact hkey ((ht.mem_ring key).2 hne)
          have hwith : ringWith key ring = ring ++ [key] := if_neg hkey
          have hne : ∀ k ∈ ring, k ≠ key := fun k hk h => hkey (h ▸ hk)
          refine ⟨hself, ht.tasks, ?_, ?_, ht.mem_ring, ?_, ?_, ht.flags, ?_, ?_⟩
          · intro k group' hf
            by_cases hk : k = key
            · subst hk
              rw [hself] at hf
              rw [← Option.some.inj hf, hnil]
              rw [ht.flags] at hinit
              exact flatReady_init hinit
            · rw [hother k hk] at hf
              exact ht.ready k group' hf
          · intro k
            by_cases hk : k = key
            · rw [hk, hself, mem_ringWith]
              simp
            · rw [hother k hk, ht.live, mem_ringWith]
              simp [hk]
          · rw [hwith]
            have hlast : OrderedGroups.ticket { g with
                groupHeap := g.groupHeap.setIndex key none
                nextGroupTicket := g.nextGroupTicket + 1
                groups := groups } key = g.nextGroupTicket := by
              simp only [OrderedGroups.ticket, hself]
            exact ht.tickets_append (List.Sublist.refl _)
              (fun k hk => ticket_congr (hother k (hne k hk))) hlast
          · intro k hk
            rw [mem_ringWith] at hk
            rcases hk with hk | rfl
            · exact lt_of_eq_of_lt (ticket_congr (hother k (hne k hk)))
                (Nat.lt_succ_of_lt (ht.below k hk))
            · exact lt_of_eq_of_lt (ticket_of_find hself) (Nat.lt_succ_self _)
          · rw [← setOf_ring_none]
            refine (hok.heap.congr fun a ha b hb => ?_).setIndex hnot none
            rw [orderedGroupCompare, orderedGroupCompare,
              groupHead_congr (hother a (hne a ha.1)), groupHead_congr (hother b (hne b hb.1))]
          · intro _
            show (g.groupHeap.setIndex key none).index key = none
            rw [Heap.setIndex_index, if_pos rfl]
        · next hrc hins =>
          refine Or.inr ⟨rfl, hlost, fun h => hrc ?_⟩
          unfold groupMapInsert at hins
          simp only [hfind, h, Option.isSome_none, Bool.not_true, Bool.false_eq_true, if_false,
            Prod.mk.injEq] at hins
          exact hins.1.symm

/-- **An open group is closed again**: without tasks it is destroyed. -/
theorem GroupsOpen.close (hH : H.Lawful) (ho : GroupsOpen order estimateCost l ring key mem g)
    (hfind : groupMapFind g.groups key = some group) {empty : Prop} [Decidable empty]
    (hempty : empty ↔ key ∉ ring) :
    GroupsOk order estimateCost l ring none mem
      (if empty then orderedGroupDestroy H order mem g key else g) := by
  by_cases hkey : key ∈ ring
  · rw [if_neg fun h => hempty.1 h hkey]
    exact ho.closed hkey
  · rw [if_pos (hempty.2 hkey)]
    have hwith : ringWith key ring = ring ++ [key] := if_neg hkey
    have hne : ∀ k ∈ ring, k ≠ key := fun k hk h => hkey (h ▸ hk)
    have hloose : g.groupHeap.Loose (orderedGroupCompare order mem g.groups) key {k | k ∈ ring} :=
      ho.heap.loose key
    obtain ⟨heap, hdestroy, hholds⟩ :=
      orderedGroupDestroy_spec hH hloose fun _ => ho.outside hkey
    rw [hdestroy]
    have hother : ∀ k, k ≠ key →
        groupMapFind (groupMapRemove g.groups key) k = groupMapFind g.groups k := by
      intro k hk
      rw [find_remove, if_neg hk]
    refine ⟨⟨ho.tasks, ?_, ?_, ho.mem_ring, ?_, ?_, ho.flags⟩, ?_, by simp⟩
    · intro k group' hf
      by_cases hk : k = key
      · subst hk
        simp at hf
      · rw [hother k hk] at hf
        exact ho.ready k group' hf
    · intro k
      by_cases hk : k = key
      · simp [hk, hkey]
      · rw [hother k hk, ho.live, mem_ringWith]
        simp [hk]
    · have htickets := ho.tickets
      rw [hwith] at htickets
      refine (List.pairwise_append.1 htickets).1.imp_of_mem fun {a b} ha hb hlt => ?_
      exact lt_of_eq_of_lt (ticket_congr (hother a (hne a ha)))
        (lt_of_lt_of_eq hlt (ticket_congr (hother b (hne b hb))).symm)
    · intro k hk
      exact lt_of_eq_of_lt (ticket_congr (hother k (hne k hk)))
        (ho.below k (mem_ringWith.2 (Or.inl hk)))
    · rw [Set.sdiff_singleton_eq_self (by exact hkey)] at hholds
      rw [setOf_ring_none]
      exact hholds

/-- A head stays when the queue of the group has the same root, with the same item. -/
theorem groupHead_eq {groups groups' : GroupMap OrderedGroup} {k : GroupKey}
    {group' : OrderedGroup} (hf : groupMapFind groups k = some group)
    (hf' : groupMapFind groups' k = some group')
    (hpeek : readyQueuePeek group'.ready = readyQueuePeek group.ready)
    (hticket : group'.ticket = group.ticket)
    (hmem : ∀ x, readyQueuePeek group.ready = some x → mem' x = mem x) :
    groupHead mem' groups' k = groupHead mem groups k := by
  rw [groupHead_of_find hf, groupHead_of_find hf', hpeek, hticket]
  cases h : readyQueuePeek group.ready with
  | none => rfl
  | some x => simp [hmem x h]

/-- The heads of the groups that do not change, when only a new item was written. -/
theorem GroupsOpen.head_eq (ho : GroupsOpen order estimateCost l ring key mem g)
    (hnew : task.taskId ∉ taskIds l) (hoff : ∀ x, x ≠ task.taskId → mem' x = mem x)
    {groups' : GroupMap OrderedGroup} {k : GroupKey} (hk : k ∈ ring)
    (hfind : groupMapFind groups' k = groupMapFind g.groups k) :
    groupHead mem' groups' k = groupHead mem g.groups k := by
  obtain ⟨group, hf⟩ := Option.isSome_iff_exists.1 ((ho.live k).2 (mem_ringWith.2 (Or.inl hk)))
  refine groupHead_eq hf (hfind.trans hf) rfl rfl fun x hx => hoff x ?_
  rintro rfl
  have hin := (ho.ready k group hf).heap.peek_mem hx
  exact hnew ((ofGroup_sublist.map _).subset hin)

/-- An insertion that failed left the queue of the group as it was, but for a number. -/
theorem GroupsOpen.insertFailed (ho : GroupsOpen order estimateCost l ring key mem g)
    (hfind : groupMapFind g.groups key = some group) (hnew : task.taskId ∉ taskIds l)
    (hoff : ∀ x, x ≠ task.taskId → mem' x = mem x) {ready : ReadyQueue}
    (hready : FlatReady (orderCompare order) estimateCost (ofGroup key l) mem' ready)
    (hpeek : readyQueuePeek ready = readyQueuePeek group.ready) :
    GroupsOpen order estimateCost l ring key mem' { g with
      groups := groupMapSet g.groups key { group with ready := ready } } := by
  have hother : ∀ k, k ≠ key → groupMapFind (groupMapSet g.groups key { group with ready := ready }) k =
      groupMapFind g.groups k := by
    intro k hk
    rw [find_set, if_neg hk]
  have hself : groupMapFind (groupMapSet g.groups key { group with ready := ready }) key =
      some { group with ready := ready } := by rw [find_set, if_pos rfl]
  generalize groupMapSet g.groups key { group with ready := ready } = groups at hother hself ⊢
  have hticket : ∀ k, OrderedGroups.ticket { g with groups := groups } k = g.ticket k := by
    intro k
    by_cases hk : k = key
    · simp only [OrderedGroups.ticket, hk, hself, hfind]
    · exact ticket_congr (hother k hk)
  refine ⟨ho.tasks, ?_, ?_, ho.mem_ring, ?_, ?_, ho.flags, ?_, ho.outside⟩
  · intro k group' hf
    by_cases hk : k = key
    · subst hk
      rw [hself] at hf
      rw [← Option.some.inj hf]
      exact hready
    · rw [hother k hk] at hf
      refine (ho.ready k group' hf).frame (orderCompare_reads order) fun x hx => ?_
      rw [hoff x fun h => hnew (h ▸ (ofGroup_sublist.map _).subset hx)]
      exact SameOrder.refl _
  · intro k
    by_cases hk : k = key
    · rw [hk, hself, mem_ringWith]
      simp
    · rw [hother k hk]
      exact ho.live k
  · simp only [hticket]
    exact ho.tickets
  · simp only [hticket]
    exact ho.below
  · refine ho.heap.congr fun a ha b hb => ?_
    have hhead : ∀ k ∈ ring, groupHead mem' groups k = groupHead mem g.groups k := by
      intro k hk
      by_cases hkk : k = key
      · subst hkk
        refine groupHead_eq hfind hself hpeek rfl fun x hx => hoff x ?_
        rintro rfl
        have hin := (ho.ready k group hfind).heap.peek_mem hx
        exact hnew ((ofGroup_sublist.map _).subset hin)
      · exact ho.head_eq hnew hoff hk (hother k hkk)
    rw [orderedGroupCompare, orderedGroupCompare, hhead a ha, hhead b hb]

/-- **The task is in its group**: the tables know it, and the heap of the groups is
in order but for its group. -/
theorem GroupsOpen.insert (ho : GroupsOpen order estimateCost l ring key mem g)
    (hfind : groupMapFind g.groups key = some group) (hkey : groupKeyFromTask task = key)
    (hnew : task.taskId ∉ taskIds l) (hoff : ∀ x, x ≠ task.taskId → mem' x = mem x)
    {ready : ReadyQueue}
    (hready : FlatReady (orderCompare order) estimateCost (ofGroup key l ++ [task]) mem' ready) :
    let g₁ : OrderedGroups := { g with
      groups := groupMapSet g.groups key { group with ready := ready }
      groupTasks := Function.update g.groupTasks task.taskId (some key) }
    GroupTables order estimateCost (l ++ [task]) (ringWith key ring) mem' g₁ ∧
      ∀ (mem₂ : Memory) (groups : GroupMap OrderedGroup),
        (∀ x, x ≠ task.taskId → mem₂ x = mem' x) →
        (∀ k, k ≠ key → groupMapFind groups k = groupMapFind g₁.groups k) →
        g₁.groupHeap.Loose (orderedGroupCompare order mem₂ groups) key {k | k ∈ ring} := by
  have hother : ∀ k, k ≠ key → groupMapFind (groupMapSet g.groups key { group with ready := ready }) k =
      groupMapFind g.groups k := by
    intro k hk
    rw [find_set, if_neg hk]
  have hself : groupMapFind (groupMapSet g.groups key { group with ready := ready }) key =
      some { group with ready := ready } := by rw [find_set, if_pos rfl]
  generalize groupMapSet g.groups key { group with ready := ready } = groups at hother hself
  dsimp only
  have hticket : ∀ k, OrderedGroups.ticket { g with
      groups := groups
      groupTasks := Function.update g.groupTasks task.taskId (some key) } k = g.ticket k := by
    intro k
    by_cases hk : k = key
    · simp only [OrderedGroups.ticket, hk, hself, hfind]
    · exact ticket_congr (hother k hk)
  have hlist : ∀ k, k ≠ key → ofGroup k (l ++ [task]) = ofGroup k l := by
    intro k hk
    rw [ofGroup_append]
    have : ofGroup k [task] = [] := by
      simp [ofGroup, hkey, Ne.symm hk]
    rw [this, List.append_nil]
  have hlistKey : ofGroup key (l ++ [task]) = ofGroup key l ++ [task] := by
    rw [ofGroup_append]
    simp [ofGroup, hkey]
  refine ⟨⟨?_, ?_, ?_, ?_, ?_, ?_, ho.flags⟩, ?_⟩
  · intro x k
    show Function.update g.groupTasks task.taskId (some key) x = some k ↔ _
    rw [entries_append, List.mem_append, List.mem_singleton, Prod.mk.injEq, hkey]
    by_cases hx : x = task.taskId
    · have hnot : (x, k) ∉ entries l := by
        intro hin
        obtain ⟨d, hd, hdx, -⟩ := mem_entries.1 hin
        exact hnew (mem_taskIds.2 ⟨d, hd, hdx.trans hx⟩)
      rw [hx, Function.update_self, Option.some.injEq]
      rw [hx] at hnot
      simp [hnot, eq_comm]
    · rw [Function.update_of_ne hx, ho.tasks]
      simp [hx]
  · intro k group' hf
    by_cases hk : k = key
    · subst hk
      rw [hself] at hf
      rw [← Option.some.inj hf, hlistKey]
      exact hready
    · rw [hother k hk] at hf
      rw [hlist k hk]
      refine (ho.ready k group' hf).frame (orderCompare_reads order) fun x hx => ?_
      rw [hoff x fun h => hnew (h ▸ (ofGroup_sublist.map _).subset hx)]
      exact SameOrder.refl _
  · intro k
    by_cases hk : k = key
    · rw [hk, hself, mem_ringWith]
      simp
    · rw [hother k hk]
      exact ho.live k
  · intro k
    rw [mem_ringWith]
    by_cases hk : k = key
    · rw [hk, hlistKey]
      simp
    · rw [hlist k hk, ho.mem_ring]
      simp [hk]
  · simp only [hticket]
    exact ho.tickets
  · simp only [hticket]
    exact ho.below
  · intro mem₂ groups₂ hmem₂ hgroups₂
    refine (ho.heap.loose key).congr fun a ha b hb hak hbk => ?_
    have hhead : ∀ k ∈ ring, k ≠ key → groupHead mem₂ groups₂ k = groupHead mem g.groups k :=
      fun k hk hne => ho.head_eq hnew (fun x hx => (hmem₂ x hx).trans (hoff x hx)) hk
        ((hgroups₂ k hne).trans (hother k hne))
    rw [orderedGroupCompare, orderedGroupCompare, hhead a ha hak, hhead b hb hbk]

end Open

/-! ## The whole queue -/

/-- The invariant of a policy with groups: the tables and heaps hold exactly the
waiting tasks; with `G` their priorities are fresh. -/
structure GroupedOk (order : OrderConfig) (estimateCost : Bool) (G : Prop) (t : UInt64)
    (q : DeadlineQueue OrderedGroups) (l : List TaskDesc) (ring : List GroupKey) : Prop where
  tracked : Tracked estimateCost q.mem q.refresh l
  groups : GroupsOk order estimateCost l ring none q.mem q.ready
  fresh : G → Fresh order.deadline t q.mem q.refresh l

/-- The group that is not in the heap yet while its first task enters. -/
def notPushed (key : GroupKey) (ring : List GroupKey) : Option GroupKey :=
  if key ∈ ring then none else some key

section Submit

variable {H : HeapOps} {E : Env} {order : OrderConfig} {estimateCost : Bool} {G : Prop}
  {τ t : UInt64} {q : DeadlineQueue OrderedGroups} {l : List TaskDesc} {ring : List GroupKey}
  {mem mem' : Memory} {g : OrderedGroups} {key : GroupKey} {task : TaskDesc}

theorem setOf_notPushed (key : GroupKey) (ring : List GroupKey) :
    {k | k ∈ ringWith key ring ∧ some k ≠ notPushed key ring} = {k | k ∈ ring} := by
  ext k
  unfold notPushed
  by_cases hk : key ∈ ring
  · rw [if_pos hk]
    simp only [Set.mem_ofPred_eq, mem_ringWith, ne_eq, reduceCtorEq, not_false_eq_true, and_true]
    constructor
    · rintro (h | rfl)
      · exact h
      · exact hk
    · exact Or.inl
  · rw [if_neg hk]
    simp only [Set.mem_ofPred_eq, mem_ringWith, ne_eq, Option.some.injEq]
    constructor
    · rintro ⟨h | h, hne⟩
      · exact h
      · exact absurd h hne
    · intro h
      exact ⟨Or.inl h, fun he => hk (he ▸ h)⟩

theorem ringWithout_ringWith (hmem : key ∈ ring ↔ ofGroup key l ≠ []) :
    ringWithout key l (ringWith key ring) = ring := by
  unfold ringWithout ringWith
  by_cases hk : key ∈ ring
  · rw [if_neg (hmem.1 hk), if_pos hk]
  · rw [if_pos (not_not.1 fun h => hk (hmem.2 h)), if_neg hk, List.filter_append]
    have hold : ring.filter (· ≠ key) = ring := by
      rw [List.filter_eq_self]
      intro k hkr
      simpa using fun h : k = key => hk (h ▸ hkr)
    rw [hold]
    simp

/-- A task is in the table of the tasks when it waits. -/
theorem GroupTables.isSome_iff (ht : GroupTables order estimateCost l ring mem g) (id : TaskId) :
    (g.groupTasks id).isSome ↔ id ∈ taskIds l := by
  rw [Option.isSome_iff_exists]
  constructor
  · rintro ⟨k, hk⟩
    obtain ⟨d, hd, hdx, -⟩ := mem_entries.1 ((ht.tasks id k).1 hk)
    exact mem_taskIds.2 ⟨d, hd, hdx⟩
  · intro h
    obtain ⟨d, hd, hdx⟩ := mem_taskIds.1 h
    exact ⟨groupKeyFromTask d, (ht.tasks id _).2 (mem_entries.2 ⟨d, hd, hdx, rfl⟩)⟩

/-- **The way back**: the task that entered last leaves again, and everything is as
before. -/
theorem orderedUnsubmit_spec (hH : H.Lawful)
    (ht : Tracked estimateCost q.mem q.refresh (l ++ [task]))
    (hok : GroupsOk order estimateCost (l ++ [task]) (ringWith (groupKeyFromTask task) ring)
      (notPushed (groupKeyFromTask task) ring) q.mem q.ready)
    (hmem : ∀ k, k ∈ ring ↔ ofGroup k l ≠ []) (hnew : task.taskId ∉ taskIds l)
    (hfresh : G → ∀ d ∈ l, FreshTask order.deadline t q.mem q.refresh d) :
    GroupedOk order estimateCost G t (orderedUnsubmit H order q task.taskId) l ring := by
  obtain ⟨htl, hsame⟩ := ht.leave hH task.taskId
  have hback := withoutTask_append_self hnew
  have hentry : (task.taskId, groupKeyFromTask task) ∈ entries (l ++ [task]) :=
    mem_entries.2 ⟨task, by simp, rfl, rfl⟩
  have hout : ∀ k, notPushed (groupKeyFromTask task) ring = some k → k = groupKeyFromTask task ∧
      ofGroup (groupKeyFromTask task) (withoutTask task.taskId (l ++ [task])) = [] := by
    intro k hk
    unfold notPushed at hk
    split at hk
    · simp at hk
    · next hring =>
      rw [hback]
      exact ⟨(Option.some.inj hk).symm, not_not.1 fun h => hring ((hmem _).2 h)⟩
  obtain ⟨g', hrem, hok'⟩ :=
    orderedRemoveGroupTask_spec hH (hok.frame fun x _ => hsame x) hentry hout
  rw [hback, ringWithout_ringWith (hmem _)] at hok'
  rw [hback] at htl
  unfold orderedUnsubmit
  dsimp only
  rw [hrem]
  refine ⟨htl, hok', fun hG d hd => ?_⟩
  exact (hfresh hG d hd).leave hH ht fun h => hnew (h ▸ mem_taskIds_of_mem hd)

/-- The refresh of the task that has just entered puts the task and its group in
order. -/
theorem entered_refresh (hH : H.Lawful) (hE : G → Within τ E t)
    (ht : Tracked estimateCost q.mem q.refresh (l ++ [task]))
    (htab : GroupTables order estimateCost (l ++ [task]) (ringWith (groupKeyFromTask task) ring) q.mem
      q.ready)
    (hloose : ∀ (mem' : Memory) (groups : GroupMap OrderedGroup),
      (∀ x, x ≠ task.taskId → mem' x = q.mem x) →
      (∀ k, k ≠ groupKeyFromTask task → groupMapFind groups k = groupMapFind q.ready.groups k) →
      q.ready.groupHeap.Loose (orderedGroupCompare order mem' groups) (groupKeyFromTask task)
        {k | k ∈ ring})
    (hout : groupKeyFromTask task ∉ ring → q.ready.groupHeap.index (groupKeyFromTask task) = none)
    (hfresh : G → ∀ d ∈ l, FreshTask order.deadline t q.mem q.refresh d)
    (hnew : task.taskId ∉ taskIds l) (c : Cursor) :
    let f := refreshTask H E order.deadline (orderedTouch H order) q task.taskId c
    Tracked estimateCost f.state.mem f.state.refresh (l ++ [task]) ∧
      GroupsOk order estimateCost (l ++ [task]) (ringWith (groupKeyFromTask task) ring)
        (notPushed (groupKeyFromTask task) ring) f.state.mem f.state.ready ∧
      (G → ∀ d ∈ l, FreshTask order.deadline t f.state.mem f.state.refresh d) ∧
      (f.rc = .ok → G → Fresh order.deadline t f.state.mem f.state.refresh (l ++ [task])) ∧
      (f.rc ≠ .ok → ¬ ∀ n, E.alloc n = true) := by
  have hid : task.taskId ∈ taskIds (l ++ [task]) := by simp
  have hentry : (task.taskId, groupKeyFromTask task) ∈ entries (l ++ [task]) :=
    mem_entries.2 ⟨task, by simp, rfl, rfl⟩
  have houtside : ∀ k, notPushed (groupKeyFromTask task) ring = some k →
      k = groupKeyFromTask task ∧ q.ready.groupHeap.index (groupKeyFromTask task) = none := by
    intro k hk
    unfold notPushed at hk
    split at hk
    · simp at hk
    · next hring => exact ⟨(Option.some.inj hk).symm, hout hring⟩
  have htouch : ∀ mem' : Memory, (∀ x, x ≠ task.taskId → mem' x = q.mem x) →
      DeadlineQueue.SameTask (q.mem task.taskId) (mem' task.taskId) →
      ∃ ready', orderedTouch H order mem' q.ready task.taskId
        (decide ((q.mem task.taskId).effectivePriority ≠ (mem' task.taskId).effectivePriority)) =
          (.ok, ready') ∧
        GroupsOk order estimateCost (l ++ [task]) (ringWith (groupKeyFromTask task) ring)
          (notPushed (groupKeyFromTask task) ring) mem' ready' := by
    intro mem' hoff hsame
    obtain ⟨g', hg', hok', -⟩ := orderedTouch_spec hH htab (fun groups hgroups => by
      rw [setOf_notPushed]
      exact hloose mem' groups hoff hgroups) houtside hentry hoff hsame
    exact ⟨g', hg', hok'⟩
  have hbut : G → ∀ d ∈ l ++ [task], d.taskId ≠ task.taskId →
      FreshTask order.deadline t q.mem q.refresh d := by
    intro hG d hd hne
    rcases List.mem_append.1 hd with hd | hd
    · exact hfresh hG d hd
    · exact absurd (by rw [List.mem_singleton.1 hd]) hne
  obtain ⟨-, -, htf, hgf, hrc⟩ := refreshTask_spec hH E order.deadline c
    (fun mem g => GroupsOk order estimateCost (l ++ [task]) (ringWith (groupKeyFromTask task) ring)
      (notPushed (groupKeyFromTask task) ring) mem g) ht hid htouch
  have hf := fun hG => refreshTask_fresh hH (hE hG) c _ ht hid htouch (hbut hG)
  refine ⟨htf, hgf, fun hG d hd => ?_, fun hrc hG d hd => hf hG d hd (Or.inl hrc), fun hfail => ?_⟩
  · exact hf hG d (List.mem_append_left _ hd) (Or.inr fun h => hnew (h ▸ mem_taskIds_of_mem hd))
  · rcases hrc with ⟨hok, -⟩ | ⟨-, -, -, halloc, -⟩
    · exact absurd hok hfail
    · exact halloc

/-- A submission that failed before the task was in its group. -/
theorem GroupedOk.failed (hq : GroupedOk order estimateCost G t q l ring)
    (hmem : ∀ x ∈ taskIds l, mem' x = q.mem x)
    (hok : GroupsOk order estimateCost l ring none mem' g) :
    GroupedOk order estimateCost G t ⟨mem', q.refresh, g⟩ l ring :=
  ⟨hq.tracked.congr hmem, hok, fun hG => (hq.fresh hG).congr hmem⟩

/-- **A submission** appends the task, and its group if that is new, or changes
nothing; with memory it refuses duplicates only. -/
theorem orderedSubmitRoundRobin_spec (hH : H.Lawful) (hE : G → Within τ E t)
    (hq : GroupedOk order estimateCost G t q l ring) (task : TaskDesc) (c : Cursor) :
    let r := orderedSubmitRoundRobin H E order q task c
    (r.rc = .ok ∧ task.taskId ∉ taskIds l ∧
        GroupedOk order estimateCost G t r.state (l ++ [task])
          (ringWith (groupKeyFromTask task) ring)) ∨
      (r.rc ≠ .ok ∧ GroupedOk order estimateCost G t r.state l ring ∧
        ((∀ n, E.alloc n = true) → r.rc = .errExists ∧ task.taskId ∈ taskIds l)) := by
  have htab := hq.groups.tables
  dsimp only
  unfold orderedSubmitRoundRobin
  split
  · next hsome => exact Or.inr ⟨by simp, hq, fun _ => ⟨rfl, (htab.isSome_iff _).1 hsome⟩⟩
  next hnone =>
  have hnew : task.taskId ∉ taskIds l := fun h => hnone ((htab.isSome_iff _).2 h)
  have hget := orderedGroupGet_spec hq.groups E (groupKeyFromTask task) c
  dsimp only
  generalize orderedGroupGet E q.ready (groupKeyFromTask task) c = got at hget ⊢
  obtain ⟨found, g, c'⟩ := got
  rcases hget with ⟨group, hgroup, hfind, ho⟩ | ⟨hgroup, hok, halloc⟩
  · dsimp only at hgroup hfind ho
    subst hgroup
    have hempty := ho.peek_none_iff hfind
    have hback := ho.close hH hfind hempty
    dsimp only
    split
    · next ha => exact Or.inr ⟨by simp, hq.failed (fun _ _ => rfl) hback, fun h => by simp [h] at ha⟩
    split
    · next ha => exact Or.inr ⟨by simp, hq.failed (fun _ _ => rfl) hback, fun h => by simp [h] at ha⟩
    have hready := ho.ready (groupKeyFromTask task) group hfind
    obtain ⟨hoff, hins⟩ := hready.insert hH E task c'.alloc.alloc
    have hon : ∀ x ∈ taskIds l, (readyQueueInsert H E (orderCompare order) q.mem group.ready task
        c'.alloc.alloc).mem x = q.mem x := fun x hx => hoff x fun h => hnew (h ▸ hx)
    have hroom : (∀ n, E.alloc n = true) → (readyQueueInsert H E (orderCompare order) q.mem
        group.ready task c'.alloc.alloc).rc = .ok := by
      intro halloc
      rw [ReadyQueue.insert_alloc halloc, if_neg]
      intro hin
      exact hnew ((ofGroup_sublist.map _).subset (hready.heap.find_iff.1 (decide_eq_true hin)))
    generalize readyQueueInsert H E (orderCompare order) q.mem group.ready task c'.alloc.alloc = r
      at hoff hins hon hroom ⊢
    rcases hins with ⟨hrc, -, hitem, hready'⟩ | ⟨hrc, -, hready', hpeek⟩
    · rw [if_neg (by rw [hrc]; simp)]
      have hinfind : readyQueueFind r.queue task.taskId = true :=
        hready'.heap.find_iff.2 (by simp)
      rw [hinfind]
      simp only [Bool.not_true, Bool.false_eq_true, if_false]
      have htr := hq.tracked.arrive hnew _ hoff hitem
      obtain ⟨htables, hloose⟩ := ho.insert hfind rfl hnew hoff hready'
      have hold : G → ∀ d ∈ l, FreshTask order.deadline t r.mem
          (q.refresh.setIndex task.taskId none) d :=
        fun hG d hd => (hq.fresh hG d hd).congr (hon _ (mem_taskIds_of_mem hd)) Iff.rfl
      -- the queue with the task in its group, before its refresh
      generalize hq₁ : (⟨r.mem, q.refresh.setIndex task.taskId none, { g with
        groups := groupMapSet g.groups (groupKeyFromTask task) { group with ready := r.queue }
        groupTasks := Function.update g.groupTasks task.taskId (some (groupKeyFromTask task)) }⟩ :
          DeadlineQueue OrderedGroups) = q₁
      have hmem₁ : q₁.mem = r.mem := by rw [← hq₁]
      have hrefresh₁ : q₁.refresh = q.refresh.setIndex task.taskId none := by rw [← hq₁]
      have hready₁ : q₁.ready = { g with
        groups := groupMapSet g.groups (groupKeyFromTask task) { group with ready := r.queue }
        groupTasks := Function.update g.groupTasks task.taskId
          (some (groupKeyFromTask task)) } := by rw [← hq₁]
      have hout : groupKeyFromTask task ∉ ring →
          q₁.ready.groupHeap.index (groupKeyFromTask task) = none := by
        rw [hready₁]
        exact ho.outside
      rw [← hmem₁, ← hrefresh₁] at htr hold
      rw [← hmem₁, ← hready₁] at htables hloose
      obtain ⟨htf, hgf, holdf, hfreshf, halloc⟩ :=
        entered_refresh hH hE htr htables hloose hout hold hnew r.cursor
      generalize refreshTask H E order.deadline (orderedTouch H order) q₁ task.taskId r.cursor = f
        at htf hgf holdf hfreshf halloc ⊢
      split
      · next hfail =>
        exact Or.inr ⟨hfail, orderedUnsubmit_spec hH htf hgf htab.mem_ring hnew holdf,
          fun h => absurd h (halloc hfail)⟩
      next hok =>
      have hfreshf := hfreshf (not_not.1 hok)
      by_cases hring : groupKeyFromTask task ∈ ring
      · -- the group was there: it is put in order once more
        rw [if_neg fun h => hempty.1 h hring]
        have hnot : notPushed (groupKeyFromTask task) ring = none := if_pos hring
        rw [hnot] at hgf
        obtain ⟨heap, hre, hholds, -⟩ := orderedGroupReheapify_spec hH
          (hgf.heap.loose (groupKeyFromTask task)) fun h =>
            absurd ⟨mem_ringWith.2 (Or.inr rfl), by simp⟩ h
        rw [hre]
        refine Or.inl ⟨rfl, hnew, htf, ⟨hgf.tables.congr rfl (fun _ => rfl) le_rfl rfl, hholds, ?_⟩,
          hfreshf⟩
        simp
      · rw [if_pos (hempty.2 hring)]
        have hnot : notPushed (groupKeyFromTask task) ring = some (groupKeyFromTask task) :=
          if_neg hring
        split
        · next hpush =>
          rw [heapPush_failed (by simpa using hpush)]
          exact Or.inr ⟨by simp, orderedUnsubmit_spec hH htf hgf htab.mem_ring hnew holdf,
            fun h => by simp [heapPush_alloc h] at hpush⟩
        · next hpush =>
          rw [heapPush_ok (by simpa using hpush)]
          rw [hnot] at hgf
          exact Or.inl ⟨rfl, hnew, htf, hgf.push hH (mem_ringWith.2 (Or.inr rfl)), hfreshf⟩
    · rw [if_pos hrc]
      have ho' := ho.insertFailed hfind hnew hoff hready' hpeek
      exact Or.inr ⟨hrc, hq.failed hon (ho'.close hH (by rw [find_set, if_pos rfl]) hempty),
        fun h => absurd (hroom h) hrc⟩
  · dsimp only at hgroup hok halloc
    subst hgroup
    exact Or.inr ⟨by simp, hq.failed (fun _ _ => rfl) hok, fun h => absurd h halloc⟩

end Submit

end QhwScheduler
