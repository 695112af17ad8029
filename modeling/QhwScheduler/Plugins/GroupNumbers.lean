import QhwScheduler.Plugins.OrderedHooks

/-!
# Sequence numbers of the groups

Each group of the ordered plugin numbers its tasks.  What the hooks do to the numbers
does not depend on any invariant.

* `OrderedGroups.nextSeq` — the number that the next task of a group gets.
* `SameNumbers` — the items keep their numbers; `SameNext` — the groups go on where they
  were, `KeepsNumbers` — those that are left do.
* `refreshTask_numbers`, `refreshExpired_numbers`, `priorityChanged_numbers`,
  `orderedSelectRoundRobin_numbers`, `orderedGroupsFinished_numbers` — no hook but a
  submission draws a number.
* `orderedSubmitRoundRobin_numbers` — a submission draws one of its group.
-/

namespace QhwScheduler

open Foundations DeadlineQueue

/-- The number that the next task of a group gets. -/
def OrderedGroups.nextSeq (g : OrderedGroups) (key : GroupKey) : ℕ :=
  match groupMapFind g.groups key with
  | none => 1
  | some group => group.ready.nextSeq

/-- All items have the numbers that they had. -/
def SameNumbers (mem mem' : Memory) : Prop := ∀ x, (mem' x).seq = (mem x).seq

/-- All groups go on where they were. -/
def SameNext (g g' : OrderedGroups) : Prop := ∀ key, g'.nextSeq key = g.nextSeq key

/-- The groups that are left go on where they were. -/
def KeepsNumbers (g g' : OrderedGroups) : Prop :=
  ∀ key, groupMapFind g'.groups key = none ∨ g'.nextSeq key = g.nextSeq key

section Numbers

variable {H : HeapOps} {E : Env} {order : OrderConfig} {mem mem' mem'' : Memory}
  {g g' g'' : OrderedGroups} {key : GroupKey} {id : TaskId} {c : Cursor}

theorem SameNumbers.refl (mem : Memory) : SameNumbers mem mem := fun _ => rfl

theorem SameNumbers.trans (h : SameNumbers mem mem') (h' : SameNumbers mem' mem'') :
    SameNumbers mem mem'' := fun x => (h' x).trans (h x)

theorem SameNext.refl (g : OrderedGroups) : SameNext g g := fun _ => rfl

theorem SameNext.trans (h : SameNext g g') (h' : SameNext g' g'') : SameNext g g'' :=
  fun key => (h' key).trans (h key)

theorem SameNext.keeps (h : SameNext g g') : KeepsNumbers g g' := fun key => Or.inr (h key)

theorem SameNext.then_keeps (h : SameNext g g') (h' : KeepsNumbers g' g'') : KeepsNumbers g g'' :=
  fun key => (h' key).imp id fun hkey => hkey.trans (h key)

theorem nextSeq_of_find {group : OrderedGroup} (h : groupMapFind g.groups key = some group) :
    g.nextSeq key = group.ready.nextSeq := by
  rw [OrderedGroups.nextSeq, h]

/-- A group whose queue goes on where it was. -/
theorem SameNext.of_set {group group' : OrderedGroup} (hfind : groupMapFind g.groups key = some group)
    (hnext : group'.ready.nextSeq = group.ready.nextSeq)
    (hgroups : g'.groups = groupMapSet g.groups key group') : SameNext g g' := by
  intro k
  unfold OrderedGroups.nextSeq
  rw [hgroups, find_set]
  by_cases hk : k = key
  · rw [if_pos hk, hk, hfind]
    exact hnext
  · rw [if_neg hk]

theorem KeepsNumbers.of_remove (hgroups : g'.groups = groupMapRemove g.groups key) :
    KeepsNumbers g g' := by
  intro k
  unfold OrderedGroups.nextSeq
  rw [hgroups, find_remove]
  by_cases hk : k = key
  · rw [if_pos hk]
    exact Or.inl rfl
  · rw [if_neg hk]
    exact Or.inr rfl

/-! ## The queues -/

theorem readyQueueReorder_nextSeq {cmp : ReadyCompare} {queue : ReadyQueue} :
    (readyQueueReorder H cmp mem queue id).2.nextSeq = queue.nextSeq := by
  unfold readyQueueReorder
  split
  · rfl
  · dsimp only
    split <;> rfl

theorem readyQueueRemove_nextSeq {cmp : ReadyCompare} {queue : ReadyQueue} :
    (readyQueueRemove H cmp mem queue id).2.nextSeq = queue.nextSeq := by
  unfold readyQueueRemove
  split
  · rfl
  · split
    · dsimp only
      split <;> rfl
    · rfl

theorem readyQueuePop_nextSeq {cmp : ReadyCompare} {queue queue' : ReadyQueue}
    (h : readyQueuePop H cmp mem queue = some (id, queue')) : queue'.nextSeq = queue.nextSeq := by
  unfold readyQueuePop at h
  split at h
  · simp at h
  · dsimp only at h
    split at h
    · rw [← (Prod.mk.inj (Option.some.inj h)).2]
    · rw [← (Prod.mk.inj (Option.some.inj h)).2]

theorem deadlineRefreshRemove_numbers (heap : Heap TaskId) (id : TaskId) :
    SameNumbers mem (deadlineRefreshRemove H mem heap id).1 := by
  intro x
  unfold deadlineRefreshRemove
  split
  · rfl
  · by_cases hx : x = id
    · simp [hx, ReadyTask.unscheduled]
    · simp [Function.update_of_ne hx]

theorem deadlineRefreshPopExpired_numbers {heap heap' : Heap TaskId} {nowNs : UInt64}
    (h : deadlineRefreshPopExpired H mem heap nowNs = some (id, mem', heap')) :
    SameNumbers mem mem' := by
  unfold deadlineRefreshPopExpired at h
  split at h
  · simp at h
  · next root hroot =>
    split at h
    · simp at h
    · simp only [Option.some.injEq, Prod.mk.injEq] at h
      obtain ⟨-, rfl, -⟩ := h
      intro x
      by_cases hx : x = root
      · simp [hx, ReadyTask.unscheduled]
      · simp [Function.update_of_ne hx]

/-! ## Refreshing -/

section Refresh

variable {ρ : Type} {touch : Touch ρ} {K : ρ → ρ → Prop}

/-- A refresh keeps what its `touch` keeps. -/
theorem refreshTask_numbers (H : HeapOps) (E : Env) (settings : DeadlineSettings)
    (q : DeadlineQueue ρ) (htouch : ∀ mem ready id changed, K ready (touch mem ready id changed).2)
    (id : TaskId) (c : Cursor) :
    let r := refreshTask H E settings touch q id c
    SameNumbers q.mem r.state.mem ∧ K q.ready r.state.ready := by
  dsimp only
  unfold refreshTask
  have hremove : SameNumbers q.mem (deadlineRefreshRemove H q.mem q.refresh id).1 :=
    deadlineRefreshRemove_numbers q.refresh id
  generalize deadlineRefreshRemove H q.mem q.refresh id = m at hremove ⊢
  obtain ⟨mem, refresh⟩ := m
  dsimp only at hremove ⊢
  have hboost : ∀ b, SameNumbers q.mem (Function.update mem id ((mem id).boost b)) := by
    intro b x
    by_cases hx : x = id
    · subst hx
      rw [Function.update_self]
      exact hremove x
    · rw [Function.update_of_ne hx]
      exact hremove x
  split
  · exact ⟨hboost _, htouch _ _ _ _⟩
  · exact ⟨hboost _, htouch _ _ _ _⟩

theorem refreshLoop_numbers (H : HeapOps) (E : Env) (settings : DeadlineSettings)
    (q : DeadlineQueue ρ) (hrefl : ∀ ready, K ready ready)
    (htrans : ∀ {a b d}, K a b → K b d → K a d)
    (htouch : ∀ mem ready id changed, K ready (touch mem ready id changed).2) (nowNs : UInt64)
    (fuel : ℕ) (c : Cursor) :
    let r := refreshLoop H E settings touch nowNs fuel q c
    SameNumbers q.mem r.state.mem ∧ K q.ready r.state.ready := by
  induction fuel generalizing q c with
  | zero => exact ⟨.refl _, hrefl _⟩
  | succ fuel ih =>
    dsimp only
    unfold refreshLoop
    split
    · exact ⟨.refl _, hrefl _⟩
    · next id mem refresh hpop =>
      have hmem := deadlineRefreshPopExpired_numbers hpop
      obtain ⟨hturn, hready⟩ := refreshTask_numbers H E settings ⟨mem, refresh, q.ready⟩ htouch id c
      dsimp only at hturn hready ⊢
      split
      · exact ⟨hmem.trans hturn, hready⟩
      · obtain ⟨hrest, hready'⟩ :=
          ih (refreshTask H E settings touch ⟨mem, refresh, q.ready⟩ id c).state
          (refreshTask H E settings touch ⟨mem, refresh, q.ready⟩ id c).cursor
        exact ⟨(hmem.trans hturn).trans hrest, htrans hready hready'⟩

theorem refreshExpired_numbers (H : HeapOps) (E : Env) (settings : DeadlineSettings)
    (q : DeadlineQueue ρ) (hrefl : ∀ ready, K ready ready)
    (htrans : ∀ {a b d}, K a b → K b d → K a d)
    (htouch : ∀ mem ready id changed, K ready (touch mem ready id changed).2) (c : Cursor) :
    let r := refreshExpired H E settings touch q c
    SameNumbers q.mem r.state.mem ∧ K q.ready r.state.ready :=
  refreshLoop_numbers H E settings q hrefl htrans htouch _ _ _

theorem priorityChanged_numbers (H : HeapOps) (E : Env) (settings : DeadlineSettings)
    (q : DeadlineQueue ρ) (hrefl : ∀ ready, K ready ready)
    (htrans : ∀ {a b d}, K a b → K b d → K a d)
    (htouch : ∀ mem ready id changed, K ready (touch mem ready id changed).2)
    (find : ρ → TaskId → Bool) (id : TaskId) (priority : Int64) (c : Cursor) :
    let r := priorityChanged H E settings touch find q id priority c
    SameNumbers q.mem r.state.mem ∧ K q.ready r.state.ready := by
  have hbase : ∀ (q : DeadlineQueue ρ) priority, SameNumbers q.mem
      (q.setBasePriority id priority).mem := by
    intro q priority x
    unfold setBasePriority
    by_cases hx : x = id
    · simp [hx]
    · simp [Function.update_of_ne hx]
  dsimp only
  unfold priorityChanged
  split
  · exact ⟨.refl _, hrefl _⟩
  · obtain ⟨hmem, hready⟩ := refreshTask_numbers H E settings (q.setBasePriority id priority) htouch
      id c
    dsimp only at hmem hready ⊢
    split
    · generalize refreshTask H E settings touch (q.setBasePriority id priority) id c = r
        at hmem hready ⊢
      obtain ⟨hmem', hready'⟩ := refreshTask_numbers H E settings
        (r.state.setBasePriority id (q.mem id).basePriority) htouch id r.cursor
      exact ⟨(((hbase q priority).trans hmem).trans (hbase _ _)).trans hmem', htrans hready hready'⟩
    · exact ⟨(hbase q priority).trans hmem, hready⟩

end Refresh

/-! ## The groups -/

theorem orderedGroupReheapify_groups :
    (orderedGroupReheapify H order mem g key).2.groups = g.groups := by
  unfold orderedGroupReheapify
  split <;> rfl

theorem orderedTouch_next (H : HeapOps) (order : OrderConfig) (mem : Memory) (g : OrderedGroups)
    (id : TaskId) (changed : Bool) : SameNext g (orderedTouch H order mem g id changed).2 := by
  unfold orderedTouch
  split
  · exact .refl g
  · next key htask =>
    split
    · exact .refl g
    · next group hfind =>
      have hnext : (if changed then readyQueueReorder H (orderCompare order) mem group.ready id
          else (.ok, group.ready)).2.nextSeq = group.ready.nextSeq := by
        split
        · exact readyQueueReorder_nextSeq
        · rfl
      generalize (if changed then readyQueueReorder H (orderCompare order) mem group.ready id
        else (.ok, group.ready)) = r at hnext ⊢
      obtain ⟨rc, ready⟩ := r
      dsimp only at hnext ⊢
      split
      · exact .of_set hfind hnext rfl
      · exact .of_set hfind hnext orderedGroupReheapify_groups

/-- A task that leaves draws no number. -/
theorem orderedRemoveGroupTask_keeps (H : HeapOps) (order : OrderConfig) (mem : Memory)
    (g : OrderedGroups) (id : TaskId) : KeepsNumbers g (orderedRemoveGroupTask H order mem g id).2 := by
  unfold orderedRemoveGroupTask
  split
  · exact (SameNext.refl g).keeps
  · next key htask =>
    split
    · exact (SameNext.refl g).keeps
    · next group hfind =>
      have hnext : (readyQueueRemove H (orderCompare order) mem group.ready id).2.nextSeq =
          group.ready.nextSeq := readyQueueRemove_nextSeq
      generalize readyQueueRemove H (orderCompare order) mem group.ready id = r at hnext ⊢
      obtain ⟨rc, ready⟩ := r
      dsimp only at hnext ⊢
      have hset : SameNext g { g with
          groups := groupMapSet g.groups key { group with ready := ready } } := .of_set hfind hnext rfl
      split
      · exact hset.keeps
      · split
        · exact hset.then_keeps (.of_remove rfl)
        · exact (SameNext.of_set hfind hnext orderedGroupReheapify_groups).keeps

/-- A selection draws no number. -/
theorem orderedSelectRoundRobin_numbers (H : HeapOps) (E : Env) (order : OrderConfig)
    (q : DeadlineQueue OrderedGroups) (c : Cursor) :
    let r := orderedSelectRoundRobin H E order q c
    SameNumbers q.mem r.state.mem ∧ KeepsNumbers q.ready r.state.ready := by
  dsimp only
  unfold orderedSelectRoundRobin
  split
  · exact ⟨.refl _, (SameNext.refl _).keeps⟩
  · next key hroot =>
    dsimp only
    split
    · exact ⟨.refl _, (SameNext.refl _).keeps⟩
    · next group hfind =>
      split
      · exact ⟨.refl _, .of_remove rfl⟩
      · next id hpeek =>
        have hmem : SameNumbers q.mem (deadlineRefreshRemove H q.mem q.refresh id).1 :=
          deadlineRefreshRemove_numbers q.refresh id
        generalize deadlineRefreshRemove H q.mem q.refresh id = m at hmem ⊢
        obtain ⟨mem, refresh⟩ := m
        dsimp only at hmem ⊢
        split
        · exact ⟨hmem, .of_remove rfl⟩
        · next taskId ready hpop =>
          have hnext := readyQueuePop_nextSeq hpop
          split
          · exact ⟨hmem, .of_remove rfl⟩
          · split
            · exact ⟨hmem, (SameNext.of_set hfind hnext rfl).keeps⟩
            · exact ⟨hmem, (SameNext.of_set hfind hnext rfl).keeps⟩

/-- Nor does the refresh pass before it. -/
theorem orderedSelectGroups_numbers (H : HeapOps) (E : Env) (order : OrderConfig)
    (q : DeadlineQueue OrderedGroups) (c : Cursor) :
    let r := orderedSelectGroups H E order q c
    SameNumbers q.mem r.state.mem ∧ KeepsNumbers q.ready r.state.ready := by
  obtain ⟨hmem, hnext⟩ := refreshExpired_numbers H E order.deadline q SameNext.refl
    SameNext.trans (orderedTouch_next H order) c
  dsimp only at hmem hnext ⊢
  unfold orderedSelectGroups
  dsimp only
  split
  · exact ⟨hmem, hnext.keeps⟩
  · obtain ⟨hmem', hnext'⟩ := orderedSelectRoundRobin_numbers H E order
      (refreshExpired H E order.deadline (orderedTouch H order) q c).state
      (refreshExpired H E order.deadline (orderedTouch H order) q c).cursor
    exact ⟨hmem.trans hmem', hnext.then_keeps hnext'⟩

/-- Nor does a change of a priority. -/
theorem orderedGroupsPriorityChanged_numbers (H : HeapOps) (E : Env) (order : OrderConfig)
    (q : DeadlineQueue OrderedGroups) (id : TaskId) (priority : Int64) (c : Cursor) :
    let r := orderedGroupsPriorityChanged H E order q id priority c
    SameNumbers q.mem r.state.mem ∧ SameNext q.ready r.state.ready :=
  priorityChanged_numbers H E order.deadline q SameNext.refl SameNext.trans
    (orderedTouch_next H order) _ id priority c

/-- Nor does a task that has finished. -/
theorem orderedGroupsFinished_numbers (H : HeapOps) (order : OrderConfig)
    (q : DeadlineQueue OrderedGroups) (id : TaskId) (c : Cursor) :
    let r := orderedGroupsFinished H order q id c
    SameNumbers q.mem r.state.mem ∧ KeepsNumbers q.ready r.state.ready := by
  have hmem : SameNumbers q.mem (if orderedFindGroupTask q.ready id
      then deadlineRefreshRemove H q.mem q.refresh id else (q.mem, q.refresh)).1 := by
    split
    · exact deadlineRefreshRemove_numbers q.refresh id
    · exact .refl _
  dsimp only
  unfold orderedGroupsFinished
  generalize (if orderedFindGroupTask q.ready id
    then deadlineRefreshRemove H q.mem q.refresh id else (q.mem, q.refresh)) = m at hmem ⊢
  exact ⟨hmem, orderedRemoveGroupTask_keeps H order m.1 q.ready id⟩

/-! ## Submission -/

/-- The group that a submission finds or makes. -/
theorem orderedGroupGet_next {group : OrderedGroup} {c' : Cursor}
    (h : orderedGroupGet E g key c = (some group, g', c')) :
    group.ready.nextSeq = g.nextSeq key ∧ groupMapFind g'.groups key = some group ∧
      ∀ k, k ≠ key → groupMapFind g'.groups k = groupMapFind g.groups k := by
  unfold orderedGroupGet at h
  split at h
  · next found hfind =>
    simp only [Prod.mk.injEq, Option.some.injEq] at h
    obtain ⟨rfl, rfl, -⟩ := h
    exact ⟨(nextSeq_of_find hfind).symm, hfind, fun _ _ => rfl⟩
  · next hfind =>
    unfold orderedGroupCreate at h
    split at h
    · simp at h
    · dsimp only at h
      split at h
      · simp at h
      · next ready c₁ hready =>
        have hseq : ready.nextSeq = 1 := by
          unfold readyQueueInit at hready
          dsimp only at hready
          split at hready
          · simp at hready
          · split at hready
            · simp at hready
            · rw [← Option.some.inj (Prod.mk.inj hready).1]
        unfold groupMapInsert at h
        rw [hfind] at h
        simp only [Option.isSome_none, Bool.false_eq_true, if_false] at h
        cases ha : E.alloc c₁.allocs with
        | false => simp [ha] at h
        | true =>
          simp only [ha, Bool.not_true, Bool.false_eq_true, if_false, Prod.mk.injEq,
            Option.some.injEq] at h
          obtain ⟨rfl, rfl, -⟩ := h
          refine ⟨?_, ?_, fun k hk => ?_⟩
          · rw [OrderedGroups.nextSeq, hfind]
            exact hseq
          · rw [find_write, if_pos rfl]
          · rw [find_write, if_neg hk]

/-- What a submission draws when it succeeds: one number of the group of the task. -/
structure DrawsNumber (task : TaskDesc) (q q' : DeadlineQueue OrderedGroups) : Prop where
  item : (q'.mem task.taskId).seq = q.ready.nextSeq (groupKeyFromTask task)
  others : ∀ x, x ≠ task.taskId → (q'.mem x).seq = (q.mem x).seq
  next : q'.ready.nextSeq (groupKeyFromTask task) = q.ready.nextSeq (groupKeyFromTask task) + 1
  groups : ∀ k, k ≠ groupKeyFromTask task → q'.ready.nextSeq k = q.ready.nextSeq k

theorem DrawsNumber.trans {task : TaskDesc} {q q' q'' : DeadlineQueue OrderedGroups}
    (h : DrawsNumber task q q') (hmem : SameNumbers q'.mem q''.mem)
    (hnext : SameNext q'.ready q''.ready) : DrawsNumber task q q'' :=
  ⟨(hmem _).trans h.item, fun x hx => (hmem x).trans (h.others x hx), (hnext _).trans h.next,
    fun k hk => (hnext k).trans (h.groups k hk)⟩

/-- The item of an insertion. -/
theorem readyQueueInsert_numbers (cmp : ReadyCompare) (mem : Memory) (queue : ReadyQueue)
    (task : TaskDesc) (c : Cursor)
    (h : (readyQueueInsert H E cmp mem queue task c).rc = .ok) :
    let r := readyQueueInsert H E cmp mem queue task c
    (r.mem task.taskId).seq = queue.nextSeq ∧ (∀ x, x ≠ task.taskId → r.mem x = mem x) ∧
      r.queue.nextSeq = queue.nextSeq + 1 := by
  unfold readyQueueInsert at h ⊢
  split
  · next hdup => simp [hdup] at h
  · next hdup =>
    rw [if_neg hdup] at h
    split
    · next ha => simp [ha] at h
    · next ha =>
      rw [if_neg ha] at h
      dsimp only at h ⊢
      split
      · next hb => simp [hb] at h
      · next hb =>
        have hoff : ∀ item x, x ≠ task.taskId → Function.update mem task.taskId item x = mem x :=
          fun _ x hx => Function.update_of_ne hx _ _
        rw [if_neg hb] at h
        split
        · exact ⟨by simp [newReadyTask], hoff _, rfl⟩
        · next hkind =>
          simp only [hkind] at h
          split
          · next hp => simp [hp] at h
          · exact ⟨by simp [newReadyTask], hoff _, rfl⟩

/-- **A submission draws one number of its group.** -/
theorem orderedSubmitRoundRobin_numbers (q : DeadlineQueue OrderedGroups) (task : TaskDesc)
    (h : (orderedSubmitRoundRobin H E order q task c).rc = .ok) :
    DrawsNumber task q (orderedSubmitRoundRobin H E order q task c).state := by
  revert h
  unfold orderedSubmitRoundRobin
  split
  · exact fun h => absurd h (by simp)
  dsimp only
  cases hget : orderedGroupGet E q.ready (groupKeyFromTask task) c with
  | mk found rest =>
  obtain ⟨g, c'⟩ := rest
  cases found with
  | none => exact fun h => absurd h (by simp)
  | some group =>
    obtain ⟨hseq, hfind, hother⟩ := orderedGroupGet_next hget
    dsimp only
    split
    · exact fun h => absurd h (by simp)
    split
    · exact fun h => absurd h (by simp)
    have hinsert := readyQueueInsert_numbers (H := H) (E := E) (orderCompare order) q.mem group.ready
      task c'.alloc.alloc
    generalize readyQueueInsert H E (orderCompare order) q.mem group.ready task c'.alloc.alloc = r
      at hinsert ⊢
    split
    · next hfail => exact fun h => absurd h hfail
    next hok =>
    obtain ⟨hitem, hoff, hnext⟩ := hinsert (not_not.1 hok)
    -- the number is drawn here; all that follows keeps the numbers
    have hdrawn : ∀ tasks heap refresh, DrawsNumber task q ⟨r.mem, refresh, { g with
        groups := groupMapSet g.groups (groupKeyFromTask task) { group with ready := r.queue }
        groupTasks := tasks
        groupHeap := heap }⟩ := by
      intro tasks heap refresh
      refine ⟨hitem.trans hseq, fun x hx => congrArg ReadyTask.seq (hoff x hx), ?_, fun k hk => ?_⟩
      · rw [← hseq, ← hnext]
        unfold OrderedGroups.nextSeq
        dsimp only
        rw [find_set, if_pos rfl]
      · unfold OrderedGroups.nextSeq
        dsimp only
        rw [find_set, if_neg hk, hother k hk]
    split
    · exact fun h => absurd h (by simp)
    generalize hq₁ : (⟨r.mem, q.refresh.setIndex task.taskId none, { g with
      groups := groupMapSet g.groups (groupKeyFromTask task) { group with ready := r.queue }
      groupTasks := Function.update g.groupTasks task.taskId (some (groupKeyFromTask task)) }⟩ :
        DeadlineQueue OrderedGroups) = q₁
    have hdrawn₁ : DrawsNumber task q q₁ := by
      rw [← hq₁]
      exact hdrawn _ _ _
    obtain ⟨hmem, hready⟩ := refreshTask_numbers H E order.deadline q₁ (orderedTouch_next H order)
      task.taskId r.cursor
    generalize refreshTask H E order.deadline (orderedTouch H order) q₁ task.taskId r.cursor = f
      at hmem hready ⊢
    have hdrawn₂ : DrawsNumber task q f.state := hdrawn₁.trans hmem hready
    split
    · next hfail => exact fun h => absurd h hfail
    split
    · split
      · exact fun h => absurd h (by simp)
      · exact fun _ => hdrawn₂.trans (.refl _) (.refl _)
    · have hgroups : (orderedGroupReheapify H order f.state.mem f.state.ready
          (groupKeyFromTask task)).2.groups = f.state.ready.groups := orderedGroupReheapify_groups
      generalize orderedGroupReheapify H order f.state.mem f.state.ready (groupKeyFromTask task) = p
        at hgroups ⊢
      obtain ⟨rc, g'⟩ := p
      dsimp only at hgroups ⊢
      split
      · next hfail => exact fun h => absurd h hfail
      · refine fun _ => hdrawn₂.trans (.refl _) fun k => ?_
        unfold OrderedGroups.nextSeq
        rw [hgroups]

end Numbers

end QhwScheduler
