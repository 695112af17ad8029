import QhwScheduler.Core.Split
import QhwScheduler.Plugins.OrderedHooks

/-!
# The ordered plugin

`ordered.c`: one heap of tasks, or with a round-robin key a heap of groups.

* `OrderedReady` — which of the two; `OrderedState`.
* `orderedInit` and the hooks; `orderedPlugin` collects them.
* `OrderedInv`, `ordered_policyInv` — the heaps hold exactly the waiting tasks.
-/

namespace QhwScheduler

open Foundations DeadlineQueue

/-- The members of `struct ordered_state` that hold the ready tasks: one queue, or
with `use_round_robin` the groups. -/
inductive OrderedReady where
  | flat (queue : DeadlineQueue ReadyQueue)
  | grouped (queue : DeadlineQueue OrderedGroups)

/-- `struct ordered_state`. -/
structure OrderedState where
  order : OrderConfig
  splitConfig : SplitConfig
  ready : OrderedReady

section Code

variable (H : HeapOps) (E : Env)

/-- The part of `ordered_init` that sets up the groups: the map, the table of the
tasks and the heap. -/
def orderedGroupsInit (readyFlags : Bool) (c : Cursor) : Option OrderedGroups × Cursor :=
  match groupMapInit E c with
  | (none, c) => (none, c)
  | (some groups, c) =>
    if !E.alloc c.allocs then (none, c.alloc)
    else if !E.alloc c.alloc.allocs then (none, c.alloc.alloc)
    else (some ⟨groups, fun _ => none, Heap.empty, readyFlags, 1⟩, c.alloc.alloc)

/-- `ordered_init`. -/
def orderedInit (options : KvArray) (c : Cursor) : InitResult OrderedState :=
  if !E.alloc c.allocs then ⟨.error .errNoMemory, c.alloc⟩
  else
    match splitConfigParseOptions splitConfigInit options with
    | none => ⟨.error .errInvalidArg, c.alloc⟩
    | some splitConfig =>
      match orderConfigParseOptions orderConfigInit options with
      | .error _ => ⟨.error .errInvalidArg, c.alloc⟩
      | .ok order =>
        let readyFlags := orderConfigUsesCost order
        match deadlineRefreshInit E c.alloc with
        | (none, c) => ⟨.error .errNoMemory, c⟩
        | (some refresh, c) =>
          if orderConfigUsesRoundRobin order then
            match orderedGroupsInit E readyFlags c with
            | (none, c) => ⟨.error .errNoMemory, c⟩
            | (some groups, c) =>
              ⟨.ok ⟨order, splitConfig, .grouped (freshQueue refresh groups)⟩, c⟩
          else
            match readyQueueInit E .heap readyFlags c with
            | (none, c) => ⟨.error .errNoMemory, c⟩
            | (some ready, c) => ⟨.ok ⟨order, splitConfig, .flat (freshQueue refresh ready)⟩, c⟩

/-- `ordered_on_task_submit`. -/
def orderedOnTaskSubmit (s : OrderedState) (task : TaskDesc) (c : Cursor) :
    HookResult OrderedState :=
  match s.ready with
  | .flat queue =>
    let r := flatSubmit H E s.order.deadline (orderCompare s.order) queue task c
    ⟨r.rc, { s with ready := .flat r.state }, r.cursor⟩
  | .grouped queue =>
    let r := orderedSubmitRoundRobin H E s.order queue task c
    ⟨r.rc, { s with ready := .grouped r.state }, r.cursor⟩

/-- `ordered_select_next`. -/
def orderedSelectNext (s : OrderedState) (c : Cursor) : SelectResult OrderedState :=
  match s.ready with
  | .flat queue =>
    let r := flatSelect H E s.order.deadline (orderCompare s.order) queue c
    ⟨r.rc, r.taskId, { s with ready := .flat r.state }, r.cursor⟩
  | .grouped queue =>
    let r := orderedSelectGroups H E s.order queue c
    ⟨r.rc, r.taskId, { s with ready := .grouped r.state }, r.cursor⟩

/-- `ordered_on_task_priority_changed`. -/
def orderedOnTaskPriorityChanged (s : OrderedState) (id : TaskId) (priority : Int64) (c : Cursor) :
    HookResult OrderedState :=
  match s.ready with
  | .flat queue =>
    let r := flatPriorityChanged H E s.order.deadline (orderCompare s.order) queue id priority c
    ⟨r.rc, { s with ready := .flat r.state }, r.cursor⟩
  | .grouped queue =>
    let r := orderedGroupsPriorityChanged H E s.order queue id priority c
    ⟨r.rc, { s with ready := .grouped r.state }, r.cursor⟩

/-- `ordered_on_task_finished`. -/
def orderedOnTaskFinished (s : OrderedState) (id : TaskId) (c : Cursor) : HookResult OrderedState :=
  match s.ready with
  | .flat queue =>
    let r := flatFinished H (orderCompare s.order) queue id c
    ⟨r.rc, { s with ready := .flat r.state }, r.cursor⟩
  | .grouped queue =>
    let r := orderedGroupsFinished H s.order queue id c
    ⟨r.rc, { s with ready := .grouped r.state }, r.cursor⟩

end Code

/-- `ordered_desc`. -/
def orderedPlugin (H : HeapOps) : PluginDesc OrderedState where
  init := fun E options c => orderedInit E options c
  onTaskSubmit := fun E s task c => orderedOnTaskSubmit H E s task c
  selectNext := fun E s c => orderedSelectNext H E s c
  getSplitConfig := fun _ s => ⟨.ok, s.splitConfig, s⟩
  onTaskPriorityChanged := fun E s id priority c => orderedOnTaskPriorityChanged H E s id priority c
  onTaskStarted := fun _ s _ c => ⟨.ok, s, c⟩
  onTaskFinished := fun _ s id _ c => orderedOnTaskFinished H s id c

/-! ## The invariant -/

/-- The heap holds exactly the waiting tasks, or the groups do. -/
inductive OrderedReadyOk (order : OrderConfig) (G : Prop) (t : UInt64) :
    OrderedReady → List TaskDesc → Prop where
  | flat {queue l} (keys : OrderKey.roundRobin ∉ order.keys)
      (ok : FlatOk order.deadline (orderCompare order) (orderConfigUsesCost order) G t queue l) :
      OrderedReadyOk order G t (.flat queue) l
  | grouped {queue l} (ring : List GroupKey) (keys : OrderKey.roundRobin ∈ order.keys)
      (ok : GroupedOk order (orderConfigUsesCost order) G t queue l ring) :
      OrderedReadyOk order G t (.grouped queue) l

/-- The invariant of the ordered plugin; with `G` the priorities are fresh. -/
structure OrderedInv (G : Prop) (t : UInt64) (s : OrderedState) (l : List TaskDesc) : Prop where
  ready : OrderedReadyOk s.order G t s.ready l
  thresholds : s.order.deadline.boost.thresholdsRejected = false

theorem orderConfigUsesRoundRobin_iff {order : OrderConfig} :
    orderConfigUsesRoundRobin order = true ↔ OrderKey.roundRobin ∈ order.keys := by
  simp [orderConfigUsesRoundRobin]

/-- No groups, no tasks. -/
theorem groupedOk_nil {E : Env} {order : OrderConfig} {estimateCost G} {t : UInt64} {c c' c₁ c₁' : Cursor}
    {groups : OrderedGroups} {refresh : Heap TaskId}
    (hgroups : orderedGroupsInit E estimateCost c = (some groups, c'))
    (hrefresh : deadlineRefreshInit E c₁ = (some refresh, c₁')) :
    GroupedOk order estimateCost G t (freshQueue refresh groups) [] [] := by
  have hempty : refresh = Heap.empty := by
    unfold deadlineRefreshInit at hrefresh
    split at hrefresh
    · simp at hrefresh
    · simp only [Prod.mk.injEq, Option.some.injEq] at hrefresh
      exact hrefresh.1.symm
  have hinit : groups = ⟨GroupMap.empty, fun _ => none, Heap.empty, estimateCost, 1⟩ := by
    unfold orderedGroupsInit at hgroups
    split at hgroups
    · simp at hgroups
    · next map _ hmap =>
      split at hgroups
      · simp at hgroups
      · split at hgroups
        · simp at hgroups
        · simp only [Prod.mk.injEq, Option.some.injEq] at hgroups
          rw [← hgroups.1, groupMapInit_eq_empty hmap]
  subst hempty hinit
  have hset : ({k | k ∈ ([] : List GroupKey) ∧ some k ≠ none} : Set GroupKey) = ∅ := by
    ext k
    simp
  refine ⟨⟨mirrored_nil _ _, ∅, refreshOk_empty _, by simp⟩, ⟨⟨?_, ?_, ?_, ?_, ?_, ?_, rfl⟩, ?_, by simp⟩,
    fun _ d hd => ?_⟩
  · intro x k
    simp [freshQueue, entries]
  · intro k group hf
    simp [freshQueue] at hf
  · intro k
    simp [freshQueue]
  · simp
  · exact List.Pairwise.nil
  · simp
  · rw [hset]
    exact Heap.holds_empty _
  · simp at hd

theorem orderedInit_inv {G : Prop} {t : UInt64} {E : Env} {options : KvArray} {c : Cursor}
    {s : OrderedState} (h : (orderedInit E options c).outcome = .ok s) : OrderedInv G t s [] := by
  unfold orderedInit at h
  split at h
  · simp at h
  · split at h
    · simp at h
    · split at h
      · simp at h
      · next order horder =>
        dsimp only at h
        split at h
        · simp at h
        · next hrefresh =>
          split at h
          · next hrr =>
            split at h
            · simp at h
            · next hgroups =>
              simp only [Except.ok.injEq] at h
              rw [← h]
              exact ⟨.grouped [] (orderConfigUsesRoundRobin_iff.1 hrr) (groupedOk_nil hgroups hrefresh),
                orderConfigParseOptions_thresholds horder⟩
          · next hrr =>
            split at h
            · simp at h
            · next hready =>
              simp only [Except.ok.injEq] at h
              rw [← h]
              exact ⟨.flat (fun hin => hrr (orderConfigUsesRoundRobin_iff.2 hin))
                (flatOk_nil hready hrefresh), orderConfigParseOptions_thresholds horder⟩

/-- The ordered plugin keeps its heaps, whatever the allocator and the clock do; with
a clock that does not run backwards its priorities stay fresh. -/
theorem ordered_policyInv {H : HeapOps} (hH : H.Lawful) (G : Prop) :
    PolicyInv (orderedPlugin H) (fun τ E t => G → Within τ E t) (OrderedInv G) where
  mono := by
    rintro τ t E ⟨order, splitConfig, ready⟩ l hE ⟨hready, hthr⟩
    cases hready with
    | flat keys ok => exact ⟨.flat keys (ok.mono fun hG => (hE hG).mono), hthr⟩
    | grouped ring keys ok => exact ⟨.grouped ring keys (ok.mono fun hG => (hE hG).mono), hthr⟩
  nodup := by
    rintro t ⟨order, splitConfig, ready⟩ l ⟨hready, -⟩
    cases hready with
    | flat keys ok => exact ok.tracked.nodup
    | grouped ring keys ok => exact ok.tracked.nodup
  init _ h := orderedInit_inv h
  submit := by
    rintro τ t E ⟨order, splitConfig, ready⟩ l task c hE ⟨hready, hthr⟩
    cases hready with
    | flat keys ok =>
      rcases flatSubmit_submits hH (orderCompare_reads order) hE ok task c
        with ⟨hrc, hnew, h⟩ | ⟨hrc, h⟩
      · exact Or.inl ⟨hrc, hnew, .flat keys h, hthr⟩
      · exact Or.inr ⟨hrc, .flat keys h, hthr⟩
    | grouped ring keys ok =>
      rcases orderedSubmitRoundRobin_spec hH hE ok task c with ⟨hrc, hnew, h⟩ | ⟨hrc, h, -⟩
      · exact Or.inl ⟨hrc, hnew, .grouped _ keys h, hthr⟩
      · exact Or.inr ⟨hrc, .grouped _ keys h, hthr⟩
  select := by
    rintro τ t E ⟨order, splitConfig, ready⟩ l c hE ⟨hready, hthr⟩
    cases hready with
    | flat keys ok =>
      rcases flatSelect_spec hH (orderCompare_reads order) hE (ok.mono fun hG => (hE hG).mono) c
        with ⟨hrc, hnil, h⟩ | ⟨d, hd, hrc, hid, h, -⟩
      · exact Or.inl ⟨hrc, hnil, .flat keys h, hthr⟩
      · exact Or.inr ⟨d, hd, hrc, hid, .flat keys h, hthr⟩
    | grouped ring keys ok =>
      rcases orderedSelectGroups_spec hH hE (ok.mono fun hG => (hE hG).mono) c
        with ⟨hrc, hnil, h⟩ | ⟨d, hd, hrc, hid, h, -⟩
      · exact Or.inl ⟨hrc, hnil, .grouped _ keys h, hthr⟩
      · exact Or.inr ⟨d, hd, hrc, hid, .grouped _ keys h, hthr⟩
  config h := ⟨rfl, h⟩
  priorityChanged := by
    rintro τ t E ⟨order, splitConfig, ready⟩ l id priority c hE ⟨hready, hthr⟩
    cases hready with
    | flat keys ok =>
      rcases flatPriorityChanged_reprioritizes hH (orderCompare_reads order) hthr hE ok id priority c
        with ⟨hrc, h⟩ | ⟨hrc, h⟩
      · exact Or.inl ⟨hrc, .flat keys h, hthr⟩
      · exact Or.inr ⟨hrc, .flat keys h, hthr⟩
    | grouped ring keys ok =>
      rcases orderedGroupsPriorityChanged_spec hH hthr hE ok id priority c with ⟨hrc, h⟩ | ⟨hrc, h⟩
      · exact Or.inl ⟨hrc, .grouped _ keys h, hthr⟩
      · exact Or.inr ⟨hrc, .grouped _ keys h, hthr⟩
  started _ h := ⟨rfl, h⟩
  finished := by
    rintro τ t E ⟨order, splitConfig, ready⟩ l id state c hE ⟨hready, hthr⟩
    cases hready with
    | flat keys ok =>
      obtain ⟨hrc, h⟩ := flatFinished_finishes hH (orderCompare_reads order) ok id c
      exact ⟨hrc, .flat keys h, hthr⟩
    | grouped ring keys ok =>
      obtain ⟨hrc, ring', -, h⟩ := orderedGroupsFinished_spec hH ok id c
      exact ⟨hrc, .grouped ring' keys h, hthr⟩

end QhwScheduler
