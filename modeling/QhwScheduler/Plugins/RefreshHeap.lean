import QhwScheduler.Plugins.Instants
import QhwScheduler.Plugins.ReadyTasks
import QhwScheduler.Policy.RefreshPass

/-!
# The refresh heaps of the built-in policies

* `RefreshEnds`, `refresh_pass_ends` — in every state that can be reached the refresh
  pass ends, and refreshes no task twice.
* `RefreshLinks`, `refresh_heap_exact` — with a clock that does not run backwards, the
  refresh heap holds exactly the ready tasks that wait for a refresh.
-/

namespace QhwScheduler

open Foundations DeadlineQueue

/-! ## The pass -/

/-- The refresh pass of `priority_select_next` or `ordered_select_next`, begun at the
cursor `c`, ends; the other plugins have none. -/
def RefreshEnds (H : HeapOps) (E : Env) (c : Cursor) : Sigma BuiltinState → Prop
  | ⟨.priority, s⟩ =>
    PassEnds H E s.deadline (flatTouch H priorityCompare) s.queue c (readyIds ⟨.priority, s⟩)
  | ⟨.ordered, s⟩ =>
    match s.ready with
    | .flat queue => PassEnds H E s.order.deadline (flatTouch H (orderCompare s.order)) queue c
        (readyIds ⟨.ordered, s⟩)
    | .grouped queue => PassEnds H E s.order.deadline (orderedTouch H s.order) queue c
        (readyIds ⟨.ordered, s⟩)
  | _ => True

/-- **The refresh pass ends.**  In every state the priority and the ordered policy get
into, with any clock, the loop refreshes ready tasks only, each at most once, and stops
when everything in the refresh heap waits for a time after the one it read first. -/
theorem refresh_pass_ends {H : HeapOps} (hH : H.Lawful) {t : UInt64} {π : Sigma BuiltinState}
    {l : List TaskDesc} (h : Reached H AnyCall t π l) (E : Env) (c : Cursor) :
    RefreshEnds H E c π := by
  have hinv := h.kept hH
  have hready : ∀ x ∈ taskIds l, x ∈ readyIds π := fun x hx => ((readyIds_spec hinv).2 x).2 hx
  obtain ⟨n, s⟩ := π
  cases n with
  | fifo => trivial
  | roundRobin => trivial
  | priority =>
    obtain ⟨hflat, -⟩ : PriorityInv False t s l := hinv
    exact (refreshExpired_ends hH E _ c (flat_touches false l hH priorityCompare_reads)
      hflat.tracked hflat.ready).mono hready
  | ordered =>
    obtain ⟨hok, -⟩ : OrderedInv False t s l := hinv
    obtain ⟨order, splitConfig, ready⟩ := s
    cases hok with
    | flat keys ok =>
      exact (refreshExpired_ends hH E _ c (flat_touches _ l hH (orderCompare_reads order))
        ok.tracked ok.ready).mono hready
    | grouped ring keys ok =>
      exact (refreshExpired_ends hH E _ c (ordered_touches hH order _ l ring)
        ok.tracked ok.groups).mono hready

/-- The clock moves from 120 to 200 during the call; task 2 is due at the first reading. -/
theorem refresh_pass_ends_crossing :
    let E := Env.ticking 120 200 (by decide)
    ∃ π, (builtinRun binaryHeap (some []) (boostedRun crossing 0)).policy = some π ∧
      RefreshEnds binaryHeap E .start π := by
  intro E
  obtain ⟨π, hπ⟩ := Option.isSome_iff_exists.1
    (show (builtinRun binaryHeap (some []) (boostedRun crossing 0)).policy.isSome by decide +kernel)
  have hrun : GoodRun AnyCall 0 (boostedRun crossing 0) 0 := goodRun_of_forall fun _ _ => trivial
  exact ⟨π, hπ, refresh_pass_ends binaryHeap_lawful (.scheduler hrun hπ) E .start⟩

/-! ## The heap -/

/-- The items and the refresh heap of a policy that has one. -/
def refreshQueue : Sigma BuiltinState → Option (Memory × Heap TaskId)
  | ⟨.priority, s⟩ =>
    let queue := PriorityState.queue s
    some (queue.mem, queue.refresh)
  | ⟨.ordered, s⟩ =>
    match OrderedState.ready s with
    | .flat queue => some (queue.mem, queue.refresh)
    | .grouped queue => some (queue.mem, queue.refresh)
  | _ => none

/-- The entries of the refresh heap are ready tasks, each once, with
`refresh_heap_index` as its position, and exactly those that have a refresh time. -/
structure RefreshLinks (mem : Memory) (refresh : Heap TaskId) (ready : List TaskId) : Prop where
  nodup : refresh.items.Nodup
  listed : ∀ x ∈ refresh.items, x ∈ ready
  index : ∀ p x, refresh.items[p]? = some x → refresh.index x = some p
  scheduled : ∀ x ∈ ready, x ∈ refresh.items ↔ (mem x).nextRefreshNs ≠ deadlineBoostNever

theorem refreshLinks_of_fresh {estimateCost : Bool} {settings : DeadlineSettings} {t : UInt64}
    {mem : Memory} {refresh : Heap TaskId} {l : List TaskDesc} {ready : List TaskId}
    (ht : Tracked estimateCost mem refresh l) (hfresh : Fresh settings t mem refresh l)
    (hready : ∀ x, x ∈ ready ↔ x ∈ taskIds l) : RefreshLinks mem refresh ready := by
  obtain ⟨hr, hin⟩ := ht.items
  refine ⟨hr.holds.sound.nodup, fun x hx => (hready x).2 (hin x hx), hr.holds.sound.tracked, ?_⟩
  intro x hx
  obtain ⟨d, hd, rfl⟩ := mem_taskIds.1 ((hready x).1 hx)
  exact (hfresh d hd).due

/-- **The refresh heap is exact**, in every state the priority and the ordered policy get
into while the clock does not run backwards, wherever the allocator fails. -/
theorem refresh_heap_exact {H : HeapOps} (hH : H.Lawful) {t : UInt64} {π : Sigma BuiltinState}
    {l : List TaskDesc} (h : Reached H Within t π l) {mem : Memory} {refresh : Heap TaskId}
    (hq : refreshQueue π = some (mem, refresh)) : RefreshLinks mem refresh (readyIds π) := by
  have hinv := h.fresh hH
  have hready := (readyIds_spec hinv).2
  obtain ⟨n, s⟩ := π
  cases n with
  | fifo => simp [refreshQueue] at hq
  | roundRobin => simp [refreshQueue] at hq
  | priority =>
    obtain ⟨hflat, -⟩ : PriorityInv True t s l := hinv
    obtain ⟨rfl, rfl⟩ := Prod.mk.inj (Option.some.inj hq)
    exact refreshLinks_of_fresh hflat.tracked (hflat.fresh trivial) hready
  | ordered =>
    obtain ⟨hok, -⟩ : OrderedInv True t s l := hinv
    obtain ⟨order, splitConfig, ready⟩ := s
    cases hok with
    | flat keys ok =>
      obtain ⟨rfl, rfl⟩ := Prod.mk.inj (Option.some.inj hq)
      exact refreshLinks_of_fresh ok.tracked (ok.fresh trivial) hready
    | grouped ring keys ok =>
      obtain ⟨rfl, rfl⟩ := Prod.mk.inj (Option.some.inj hq)
      exact refreshLinks_of_fresh ok.tracked (ok.fresh trivial) hready

/-- Both tasks wait for a refresh, task 2 for the earlier one. -/
theorem refresh_heap_exact_crossing :
    ∃ π mem refresh, (builtinRun binaryHeap (some []) (boostedRun crossing 0)).policy = some π ∧
      refreshQueue π = some (mem, refresh) ∧ refresh.items = [2, 1] ∧
        RefreshLinks mem refresh (readyIds π) := by
  obtain ⟨π, hπ⟩ := Option.isSome_iff_exists.1
    (show (builtinRun binaryHeap (some []) (boostedRun crossing 0)).policy.isSome by decide +kernel)
  obtain ⟨⟨mem, refresh⟩, hq⟩ := Option.isSome_iff_exists.1
    ((show ∀ π ∈ (builtinRun binaryHeap (some []) (boostedRun crossing 0)).policy,
      (refreshQueue π).isSome by decide +kernel) π hπ)
  have hitems := (show ∀ π ∈ (builtinRun binaryHeap (some []) (boostedRun crossing 0)).policy,
    ∀ q ∈ refreshQueue π, q.2.items = [2, 1] by decide +kernel) π hπ _ hq
  exact ⟨π, mem, refresh, hπ, hq, hitems,
    refresh_heap_exact binaryHeap_lawful (.scheduler (boostedRun_within crossing) hπ) hq⟩

end QhwScheduler
