import QhwScheduler.Plugins.GroupStructure

/-!
# Selection through the heap of the groups

With a round-robin key a selection looks at the head of one group only, which the heap of
the groups puts first by the heads of the groups.

* `readyAt` — a ready task as an eager selection would compare it.
* `group_selection_flat` — the task that is taken is the least ready task of all groups.
-/

namespace QhwScheduler

open Foundations DeadlineQueue

/-- The item with the priority that the boost of an instant gives it. -/
def ReadyTask.afresh (t : ReadyTask) (boost : BoostConfig) (u : UInt64) : ReadyTask :=
  { t with effectivePriority := (t.boosted boost u).effectivePriority }

/-- A ready task of a group at an instant, with the current ticket of its group. -/
def readyAt (order : OrderConfig) (queue : DeadlineQueue OrderedGroups) (u : UInt64) (id : TaskId)
    (key : GroupKey) : Ticketed :=
  ⟨(queue.mem id).afresh order.deadline.boost u, queue.ready.ticket key⟩

/-- The task is in the ready queue of the group. -/
def OrderedGroups.Ready (g : OrderedGroups) (id : TaskId) (key : GroupKey) : Prop :=
  ∃ group, groupMapFind g.groups key = some group ∧ id ∈ group.ready.ids

/-- Two tasks with different ids never tie. -/
theorem orderCompareLoop_lt {keys : List OrderKey} {a b : Ticketed}
    (hne : a.task.desc.taskId ≠ b.task.desc.taskId) (hle : (orderCompareLoop keys a b).isLE) :
    orderCompareLoop keys a b = .lt := by
  have hdecided : orderCompareLoop keys a b ≠ .eq :=
    fun h => hne (taskId_eq_of_orderCompareLoop h)
  generalize orderCompareLoop keys a b = o at hle hdecided ⊢
  cases o with
  | lt => rfl
  | eq => exact absurd rfl hdecided
  | gt => simp at hle

/-- **Two levels select what one would.**  In every state that hooks or a scheduler reach
with a clock that does not run backwards: a selection that reads one clock value takes the
ready task that comes strictly before all others, of whatever group, each compared with
its boost at that value and the current ticket of its group; it finds none when there is
none. -/
theorem group_selection_flat {H : HeapOps} (hH : H.Lawful) {t t' : UInt64} {s : OrderedState}
    {l : List TaskDesc} (h : Reached H Within t ⟨.ordered, s⟩ l)
    {queue : DeadlineQueue OrderedGroups} (hs : s.ready = .grouped queue) {E : Env}
    (hE : Steady E t') (hle : t ≤ t') :
    let r := orderedSelectNext H E s .start
    let task := readyAt s.order queue (clockValue s.order.deadline t')
    (r.rc = .errNotFound ∧ ∀ id key, ¬ queue.ready.Ready id key) ∨
      ∃ key, r.rc = .ok ∧ queue.ready.Ready r.taskId key ∧
        ∀ id' key', queue.ready.Ready id' key' → id' ≠ r.taskId →
          orderCompareGroups s.order (task r.taskId key).task (task id' key').task
            (task r.taskId key).ticket (task id' key').ticket = .lt := by
  obtain ⟨hok, hthr⟩ : OrderedInv True t s l := h.fresh hH
  obtain ⟨order, splitConfig, ready⟩ := s
  cases hok with
  | flat => simp at hs
  | @grouped q _ ring keys ok =>
    obtain rfl : queue = q := (OrderedReady.grouped.inj hs).symm
    dsimp only at hthr ok ⊢
    have ok := ok.mono fun _ => hle
    have hready : ∀ id key, queue.ready.Ready id key ↔ (id, key) ∈ entries l := fun id key =>
      (ok.groups.structure.holder id key).symm.trans (ok.groups.tables.tasks id key)
    have hto := ordered_touches_tickets hH order (orderConfigUsesCost order) l ring queue.ready.ticket
    have hstart : GroupsOk order (orderConfigUsesCost order) l ring none queue.mem queue.ready ∧
      ∀ k, queue.ready.ticket k = queue.ready.ticket k := ⟨ok.groups, fun _ => rfl⟩
    obtain ⟨-, hcurrent⟩ := refreshExpired_current hH hE .start hthr hto ok.tracked hstart
      (ok.fresh trivial)
    obtain ⟨-, -, ⟨-, htickets⟩, hsame⟩ := refreshExpired_spec hH E order.deadline .start hto
      ok.tracked hstart
    -- the refresh pass leaves each waiting task as an eager selection sees it
    have hitem : ∀ d ∈ l, SameOrder
        ((refreshExpired H E order.deadline (orderedTouch H order) queue .start).state.mem d.taskId)
        ((queue.mem d.taskId).afresh order.deadline.boost (clockValue order.deadline t')) := by
      intro d hd
      obtain ⟨hdesc, -, hcost, hseq⟩ := hsame d.taskId
      refine ⟨hdesc.symm, ?_, hcost.symm, hseq.symm⟩
      rw [hcurrent d hd, ← (ok.tracked.mirrored.mirrors d hd).boosted]
      rfl
    show ((orderedSelectGroups H E order queue .start).rc = _ ∧ _) ∨ _
    rcases orderedSelectGroups_spec hH (fun _ => hE.within (UInt64.le_refl t')) ok .start
      with ⟨hrc, hnil, -⟩ | ⟨d, hd, hrc, hid, -, hleast⟩
    · refine Or.inl ⟨hrc, fun id key hin => ?_⟩
      rw [hready, hnil] at hin
      simp [entries] at hin
    · have hentry : (d.taskId, groupKeyFromTask d) ∈ entries l := mem_entries.2 ⟨d, hd, rfl, rfl⟩
      refine Or.inr ⟨groupKeyFromTask d, hrc, ?_, fun id' key' hin hne => ?_⟩
      · rw [show (orderedSelectNext H E ⟨order, splitConfig, .grouped queue⟩ .start).taskId =
          d.taskId from hid, hready]
        exact hentry
      · rw [show (orderedSelectNext H E ⟨order, splitConfig, .grouped queue⟩ .start).taskId =
          d.taskId from hid] at hne ⊢
        rw [hready] at hin
        obtain ⟨e, he, rfl, rfl⟩ := mem_entries.1 hin
        refine orderCompareLoop_lt ?_ ?_
        · show (queue.mem d.taskId).desc.taskId ≠ (queue.mem e.taskId).desc.taskId
          rw [ok.tracked.taskId_eq _ (mem_taskIds_of_mem hd),
            ok.tracked.taskId_eq _ (mem_taskIds_of_mem he)]
          exact Ne.symm hne
        · have hle := hleast e he
          rw [htickets, htickets, orderCompareGroups,
            orderCompareLoop_reads _ _ _ (hitem d hd) (hitem e he)] at hle
          exact hle

/-- Priority and round_robin with boosting; the second of two jobs becomes urgent. -/
def urgentGroups : List (Env × Op Builtin) :=
  [(.still 0, .loadPlugin .ordered true),
    (.still 0, .setPolicy .ordered (some [⟨optOrderKey, .u64 1⟩, ⟨optOrderKey, .u64 5⟩,
      ⟨optDeadlineBoostEnable, .u64 1⟩])),
    (.still 0, .submitTask { taskId := 1, jobId := 1, priority := 5 } {}),
    (.still 0, .submitTask { taskId := 2, jobId := 2, deadlineNs := 210, estimatedRuntimeNs := 100 } {})]

/-- At 120 its task comes before all others. -/
theorem group_selection_flat_urgentGroups :
    ∃ s queue key, (builtinRun binaryHeap (some []) urgentGroups).policy = some ⟨.ordered, s⟩ ∧
      s.ready = .grouped queue ∧ queue.ready.Ready 2 key ∧
      ∀ id' key', queue.ready.Ready id' key' → id' ≠ 2 →
        orderCompareGroups s.order (readyAt s.order queue 120 2 key).task
          (readyAt s.order queue 120 id' key').task (readyAt s.order queue 120 2 key).ticket
          (readyAt s.order queue 120 id' key').ticket = .lt := by
  have hpolicy : ∃ s queue, (builtinRun binaryHeap (some []) urgentGroups).policy =
      some ⟨.ordered, s⟩ ∧ s.ready = .grouped queue ∧
        (orderedSelectNext binaryHeap (.still 120) s .start).rc = .ok ∧
        (orderedSelectNext binaryHeap (.still 120) s .start).taskId = 2 ∧
        clockValue s.order.deadline 120 = 120 :=
    ⟨_, _, rfl, rfl, by decide +kernel, by decide +kernel, by decide +kernel⟩
  obtain ⟨s, queue, hpolicy, hs, hrc, hid, hclock⟩ := hpolicy
  have hrun : GoodRun Within 0 urgentGroups 0 := by
    have hstill : ∀ i ∈ urgentGroups, i.1 = Env.still 0 := by simp [urgentGroups]
    refine goodRun_of_forall fun i hi => ?_
    rw [hstill i hi]
    exact ⟨fun _ => UInt64.le_refl 0, fun _ => UInt64.le_refl 0⟩
  have hE : Steady (.still 120) 120 := ⟨fun _ => rfl, fun _ => rfl, by decide⟩
  rcases group_selection_flat binaryHeap_lawful (.scheduler hrun hpolicy) hs hE (by decide)
    with ⟨hnone, -⟩ | ⟨key, -, hready, hleast⟩
  · rw [hrc] at hnone
    simp at hnone
  · rw [hid] at hready hleast
    rw [hclock] at hleast
    exact ⟨s, queue, key, hpolicy, hs, hready, hleast⟩

end QhwScheduler
