import QhwScheduler.Plugins.Fairness
import QhwScheduler.Plugins.ReadyTasks

/-!
# The groups of the built-in policies

* `GroupStructure`, `group_structure` — the group map, the group heap, the ready queues of
  the groups and the index of the tasks agree in every state of the ordered policy.
* `RingStructure`, `ring_structure` — the group map, the ring, the lists of the groups and
  the table of the tasks agree in every state of the round_robin policy.
-/

namespace QhwScheduler

open Foundations DeadlineQueue

/-! ## The ordered policy -/

/-- What the linked structures of the ordered policy with a round-robin key say about each
other and about the tasks `l`. -/
structure GroupStructure (order : OrderConfig) (mem : Memory) (g : OrderedGroups)
    (l : List TaskDesc) : Prop where
  /-- Every group has a head. -/
  nonempty : ∀ k group, groupMapFind g.groups k = some group → readyQueuePeek group.ready ≠ none
  heap_nodup : g.groupHeap.items.Nodup
  heap_mem : ∀ k, k ∈ g.groupHeap.items ↔ (groupMapFind g.groups k).isSome
  heap_index : ∀ p k, g.groupHeap.items[p]? = some k → g.groupHeap.index k = some p
  tickets : ∀ k k' group group', groupMapFind g.groups k = some group →
    groupMapFind g.groups k' = some group' → group.ticket = group'.ticket → k = k'
  ready_nodup : ∀ k group, groupMapFind g.groups k = some group → group.ready.ids.Nodup
  /-- The index leads exactly to the queue that holds the task. -/
  holder : ∀ x k, g.groupTasks x = some k ↔
    ∃ group, groupMapFind g.groups k = some group ∧ x ∈ group.ready.ids
  indexed : ∀ x, (g.groupTasks x).isSome ↔ x ∈ taskIds l
  keyed : ∀ d ∈ l, g.groupTasks d.taskId = some (groupKeyFromTask d)
  ordered : HeapOrdered (orderedGroupCompare order mem g.groups) g.groupHeap.items

theorem GroupsOk.structure {order : OrderConfig} {estimateCost : Bool} {l : List TaskDesc}
    {ring : List GroupKey} {mem : Memory} {g : OrderedGroups}
    (h : GroupsOk order estimateCost l ring none mem g) : GroupStructure order mem g l := by
  have ht := h.tables
  have hids : ∀ k group, groupMapFind g.groups k = some group →
      group.ready.ids.Nodup ∧ ∀ x, x ∈ group.ready.ids ↔ (x, k) ∈ entries l := by
    intro k group hfind
    obtain ⟨hnd, hmem⟩ := (ht.ready k group hfind).ids
    exact ⟨hnd, fun x => (hmem x).trans mem_taskIds_ofGroup⟩
  refine ⟨?_, h.heap.sound.nodup, ?_, h.heap.sound.tracked, ?_, fun k group hf => (hids k group hf).1,
    ?_, ?_, ?_, h.heap.ordered⟩
  · intro k group hfind
    obtain ⟨group', id, hfind', hpeek, -⟩ := ht.head ((ht.live k).1 (by rw [hfind]; rfl))
    obtain rfl : group = group' := Option.some.inj (hfind.symm.trans hfind')
    rw [hpeek]
    simp
  · intro k
    rw [h.heap.mem, ht.live]
    simp
  · intro k k' group group' hfind hfind' hticket
    rw [← ticket_of_find hfind, ← ticket_of_find hfind'] at hticket
    have hk : k ∈ ring := (ht.live k).1 (by rw [hfind]; rfl)
    have hk' : k' ∈ ring := (ht.live k').1 (by rw [hfind']; rfl)
    have hdistinct : (ring.map g.ticket).Nodup :=
      List.pairwise_map.2 (ht.tickets.imp fun hlt => ne_of_lt hlt)
    exact List.inj_on_of_nodup_map hdistinct hk hk' hticket
  · intro x k
    rw [ht.tasks]
    constructor
    · intro hentry
      obtain ⟨group, hfind⟩ := ht.find_of_entry hentry
      exact ⟨group, hfind, ((hids k group hfind).2 x).2 hentry⟩
    · rintro ⟨group, hfind, hx⟩
      exact ((hids k group hfind).2 x).1 hx
  · exact ht.isSome_iff
  · exact fun d hd => (ht.tasks _ _).2 (mem_entries.2 ⟨d, hd, rfl, rfl⟩)

/-- **The groups of the ordered policy are linked right** in every state it gets into,
wherever the allocator fails and whatever the clock shows. -/
theorem group_structure {H : HeapOps} (hH : H.Lawful) {t : UInt64} {s : OrderedState}
    {l : List TaskDesc} (h : Reached H AnyCall t ⟨.ordered, s⟩ l)
    {queue : DeadlineQueue OrderedGroups} (hs : s.ready = .grouped queue) :
    GroupStructure s.order queue.mem queue.ready l := by
  obtain ⟨hok, -⟩ : OrderedInv False t s l := h.kept hH
  obtain ⟨order, splitConfig, ready⟩ := s
  cases hok with
  | flat => simp at hs
  | grouped ring keys ok =>
    obtain rfl := OrderedReady.grouped.inj hs
    exact ok.groups.structure

/-- Two more groups come, and the first one is served and has to wait behind them. -/
def threeGroupsRun : List (Env × Op Builtin) :=
  groupedRun ++ [(.still 0, .submitTask { taskId := 10, jobId := 2, priority := 3 } {}),
    (.still 0, .submitTask { taskId := 11 } {}), (.still 0, .submitTask { taskId := 12, jobId := 1 } {}),
    (.still 0, .selectNext)]

/-- Three groups in the heap, the one with the smallest ticket on top. -/
theorem group_structure_threeGroupsRun :
    ∃ s queue, (builtinRun binaryHeap (some []) threeGroupsRun).policy = some ⟨.ordered, s⟩ ∧
      s.ready = .grouped queue ∧
      queue.ready.groupHeap.items = [⟨.job, 2⟩, ⟨.task, 11⟩, ⟨.job, 1⟩] ∧
      GroupStructure s.order queue.mem queue.ready
        (waiting (builtinRun binaryHeap (some []) threeGroupsRun).tasks) := by
  have hpolicy : ∃ s queue, (builtinRun binaryHeap (some []) threeGroupsRun).policy =
      some ⟨.ordered, s⟩ ∧ s.ready = .grouped queue ∧
        queue.ready.groupHeap.items = [⟨.job, 2⟩, ⟨.task, 11⟩, ⟨.job, 1⟩] :=
    ⟨_, _, rfl, rfl, by decide +kernel⟩
  obtain ⟨s, queue, hpolicy, hready, hitems⟩ := hpolicy
  have hrun : GoodRun AnyCall 0 threeGroupsRun 0 := goodRun_of_forall fun _ _ => trivial
  exact ⟨s, queue, hpolicy, hready, hitems,
    group_structure binaryHeap_lawful (.scheduler hrun hpolicy) hready⟩

/-! ## The round_robin policy -/

/-- What the linked structures of the round_robin policy say about each other and about
the tasks `l`. -/
structure RingStructure (s : RrState) (l : List TaskDesc) : Prop where
  ring_nodup : s.activeGroups.Nodup
  ring_mem : ∀ k, k ∈ s.activeGroups ↔ (groupMapFind s.groups k).isSome
  count : ∀ k group, groupMapFind s.groups k = some group →
    group.readyCount = group.ready.length ∧ 0 < group.readyCount
  ready_nodup : ∀ k group, groupMapFind s.groups k = some group → group.ready.Nodup
  /-- A task leads exactly to the group whose list it is in. -/
  holder : ∀ x k, (∃ task, s.tasks x = some task ∧ task.group = k) ↔
    ∃ group, groupMapFind s.groups k = some group ∧ x ∈ group.ready
  named : ∀ x task, s.tasks x = some task → task.desc.taskId = x
  indexed : ∀ x, (s.tasks x).isSome ↔ x ∈ taskIds l
  keyed : ∀ d ∈ l, ∃ task, s.tasks d.taskId = some task ∧ task.group = groupKeyFromTask d

theorem RrInv.structure {s : RrState} {l : List TaskDesc} (h : RrInv s l) : RingStructure s l := by
  obtain ⟨r, hs, hr⟩ := h
  have hgroup : ∀ k group, groupMapFind s.groups k = some group →
      k ∈ r.groups ∧ group = ⟨r.members k, (r.members k).length⟩ := by
    intro k group hfind
    rw [hs.groups] at hfind
    split at hfind
    · next hk => exact ⟨hk, (Option.some.inj hfind).symm⟩
    · simp at hfind
  refine ⟨hs.active ▸ hs.rotation.nodup, ?_, ?_, ?_, ?_, hs.named, ?_, ?_⟩
  · intro k
    rw [hs.active, hs.rotation.mem_ring, hs.groups]
    split
    · next hk => simp [hk]
    · next hk => simp [hk]
  · intro k group hfind
    obtain ⟨hk, rfl⟩ := hgroup k group hfind
    refine ⟨rfl, List.length_pos_iff.2 fun hnil => ?_⟩
    exact Rotation.members_eq_nil.1 hnil hk
  · intro k group hfind
    obtain ⟨-, rfl⟩ := hgroup k group hfind
    exact hs.rotation.members_nodup k
  · intro x k
    rw [hs.tasks]
    constructor
    · intro hin
      refine ⟨_, (hs.groups k).trans (if_pos (Rotation.mem_groups.2 ⟨x, hin⟩)), ?_⟩
      exact Rotation.mem_members.2 hin
    · rintro ⟨group, hfind, hx⟩
      obtain ⟨-, rfl⟩ := hgroup k group hfind
      exact Rotation.mem_members.1 hx
  · intro x
    rw [hs.tasks_isSome_iff, names_entries hr]
  · intro d hd
    rw [hs.tasks, hr]
    exact mem_entries.2 ⟨d, hd, rfl, rfl⟩

/-- **The groups of the round_robin policy are linked right** in every state it gets into,
wherever the allocator fails; so neither a selection nor a removal ends in its error for
broken links. -/
theorem ring_structure {H : HeapOps} (hH : H.Lawful) {t : UInt64} {s : RrState}
    {l : List TaskDesc} (h : Reached H AnyCall t ⟨.roundRobin, s⟩ l) :
    RingStructure s l ∧ (∀ c, (rrSelectNext s c).rc ≠ .errState) ∧
      ∀ id, (rrRemoveReadyTask s id).1 ≠ .errState := by
  have hinv : RrInv s l := h.kept hH
  obtain ⟨r, hs, -⟩ := id hinv
  refine ⟨hinv.structure, fun c => ?_, fun id => ?_⟩
  · rcases rrSelectNext_spec hs c with ⟨hrc, -⟩ | ⟨e, -, hrc, -⟩
    · simp [hrc]
    · simp [hrc]
  · cases hfind : s.tasks id with
    | none => simp [rrRemoveReadyTask, hfind]
    | some task => simp [(rrRemoveReadyTask_spec hs hfind).1]

/-- After calls of the hooks: two jobs are submitted, and the memory fails for a third. -/
theorem ring_structure_twoJobs :
    let E : Env := { Env.still 0 with alloc := fun _ => false }
    let s := run (hookStep rrPlugin) ⟨rrStart, []⟩ (twoJobs ++ [(E, .submit (jobTask 5 3))])
    RingStructure s.state s.waiting ∧ (∀ c, (rrSelectNext s.state c).rc ≠ .errState) ∧
      ∀ id, (rrRemoveReadyTask s.state id).1 ≠ .errState := by
  intro E s
  have hinit : ((builtinPlugins binaryHeap .roundRobin).init (.still 0) (some []) .start).outcome =
      .ok rrStart := rfl
  have hrun : GoodRun AnyCall 0 (twoJobs ++ [(E, Hook.submit (jobTask 5 3))]) 0 :=
    goodRun_of_forall fun _ _ => trivial
  exact ring_structure binaryHeap_lawful (.hooks (u := 0) trivial hinit hrun)

end QhwScheduler
