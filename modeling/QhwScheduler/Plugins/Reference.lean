import QhwScheduler.Foundations.Least
import QhwScheduler.Plugins.RoundRobinOrdered

/-!
# The reference policy

What the built-in policies are for, without heaps, caches and tables: a list of the
waiting tasks, and a selection that computes everything afresh.

* `Candidate` — what a selection sees of a task; `Candidate.compare` — the keys in turn,
  the task id last.
* `ReferenceReady` — one queue, or one queue for each group with the groups in a ring.
* `referencePlugin` — the hooks.
* `Shows` — the items of a policy show the candidates: they compare as these do;
  `leastBy_of_items` — then what is least among the items is the reference selection.
-/

namespace QhwScheduler

open Foundations
open Std (TransCmp)

/-! ## Candidates -/

/-- What a selection sees of a task: the number that it got in its queue, and how many
groups are served before its own. -/
structure Candidate where
  task : TaskDesc
  number : ℕ
  turn : ℕ
  deriving DecidableEq

/-- What a key compares of two candidates at an instant `u`. -/
def OrderKey.compareCandidates (boost : BoostConfig) (u : UInt64) (key : OrderKey)
    (left right : Candidate) : Ordering :=
  match key with
  | .priority => compareI64Desc (left.task.boosted boost u).effectivePriority
      (right.task.boosted boost u).effectivePriority
  | .sjf => compareAsc (policyTaskEstimatedCost left.task) (policyTaskEstimatedCost right.task)
  | .ljf => compareAsc (policyTaskEstimatedCost right.task) (policyTaskEstimatedCost left.task)
  | .roundRobin => compareAsc left.turn right.turn
  | .fifo => compareAsc left.number right.number

/-- The keys in turn, the task id last. -/
def Candidate.compare (order : OrderConfig) (u : UInt64) : Candidate → Candidate → Ordering :=
  lexCompare (order.keys.map (OrderKey.compareCandidates order.deadline.boost u) ++
    [fun left right => compareAsc left.task.taskId right.task.taskId])

instance OrderKey.compareCandidates_transCmp (boost : BoostConfig) (u : UInt64) (key : OrderKey) :
    TransCmp (key.compareCandidates boost u) := by
  cases key with
  | priority =>
    exact transCmp_comap compareI64Desc fun a : Candidate =>
      (a.task.boosted boost u).effectivePriority
  | sjf => exact transCmp_comap compareAsc fun a : Candidate => policyTaskEstimatedCost a.task
  | ljf =>
    have := transCmp_flip (compareAsc (α := UInt64))
    exact transCmp_comap (fun a b : UInt64 => compareAsc b a)
      fun a : Candidate => policyTaskEstimatedCost a.task
  | roundRobin => exact transCmp_comap compareAsc Candidate.turn
  | fifo => exact transCmp_comap compareAsc Candidate.number

instance Candidate.compare_transCmp (order : OrderConfig) (u : UInt64) :
    TransCmp (Candidate.compare order u) := by
  refine lexCompare_transCmp _ fun cmp hcmp => ?_
  rcases List.mem_append.1 hcmp with hcmp | hcmp
  · obtain ⟨key, -, rfl⟩ := List.mem_map.1 hcmp
    infer_instance
  · rw [List.mem_singleton.1 hcmp]
    exact transCmp_comap compareAsc fun a : Candidate => a.task.taskId

/-! ## Waiting tasks -/

/-- The waiting tasks in the order of their arrival: in one queue; or with the number that
each got in the queue of its group, with the groups in the order in which they are served,
and with the number that the next task of each group gets. -/
inductive ReferenceReady where
  | queue (waiting : List TaskDesc)
  | ring (waiting : List (TaskDesc × ℕ)) (groups : List GroupKey) (next : GroupKey → ℕ)

namespace ReferenceReady

/-- The waiting tasks. -/
def tasks : ReferenceReady → List TaskDesc
  | queue waiting => waiting
  | ring waiting _ _ => waiting.map Prod.fst

/-- The waiting tasks as a selection sees them. -/
def candidates : ReferenceReady → List Candidate
  | queue waiting => waiting.zipIdx.map fun e => ⟨e.1, e.2, 0⟩
  | ring waiting groups _ => waiting.map fun e => ⟨e.1, e.2, groups.idxOf (groupKeyFromTask e.1)⟩

/-- A task arrives. -/
def arrive (task : TaskDesc) : ReferenceReady → ReferenceReady
  | queue waiting => queue (waiting ++ [task])
  | ring waiting groups next =>
    let key := groupKeyFromTask task
    ring (waiting ++ [(task, next key)]) (ringWith key groups)
      (Function.update next key (next key + 1))

/-- The numbers once these tasks wait: a group without tasks starts over. -/
def numbersOf (rest : List TaskDesc) (next : GroupKey → ℕ) (key : GroupKey) : ℕ :=
  if ofGroup key rest = [] then 1 else next key

/-- A task leaves, and its group with the last one. -/
def leave (id : TaskId) : ReferenceReady → ReferenceReady
  | queue waiting => queue (withoutTask id waiting)
  | ring waiting groups next =>
    let waiting := waiting.filter fun e => e.1.taskId ≠ id
    let rest := waiting.map Prod.fst
    ring waiting (groups.filter fun key => ofGroup key rest ≠ []) (numbersOf rest next)

/-- A task is served: it leaves, and its group is served last the next time. -/
def serve (task : TaskDesc) : ReferenceReady → ReferenceReady
  | queue waiting => queue (withoutTask task.taskId waiting)
  | ring waiting groups next =>
    let waiting := waiting.filter fun e => e.1.taskId ≠ task.taskId
    let rest := waiting.map Prod.fst
    ring waiting (ringServed (groupKeyFromTask task) rest groups) (numbersOf rest next)

/-- A task gets another priority. -/
def reprioritize (id : TaskId) (priority : Int64) : ReferenceReady → ReferenceReady
  | queue waiting => queue (QhwScheduler.reprioritize id priority waiting)
  | ring waiting groups next =>
    ring (waiting.map fun e =>
      (if e.1.taskId = id then e.1.withPriority priority else e.1, e.2)) groups next

end ReferenceReady

/-! ## The plugin -/

/-- The state of a reference policy. -/
structure ReferenceState where
  order : OrderConfig
  splitConfig : SplitConfig
  ready : ReferenceReady

/-- The order of submission. -/
def fifoOrder : OrderConfig := ⟨[.fifo], {}⟩

/-- The keys and the clock settings that a built-in policy makes of its options. -/
def referenceOrder (n : Builtin) (options : KvArray) : Option OrderConfig :=
  match n with
  | .fifo => some fifoOrder
  | .priority =>
    (deadlineBoostConfigParseOptions deadlineBoostConfigInit options).bind fun boost =>
      (priorityParseNowOption { boost := boost } options).map fun deadline =>
        ⟨priorityKeys, deadline⟩
  | .ordered => (orderConfigParseOptions orderConfigInit options).toOption
  | .roundRobin => some roundRobinFifo

/-- No task waits. -/
def ReferenceReady.init (order : OrderConfig) : ReferenceReady :=
  if OrderKey.roundRobin ∈ order.keys then .ring [] [] fun _ => 1 else .queue []

/-- The state a reference policy starts out in. -/
def referenceInit (n : Builtin) (options : KvArray) : Option ReferenceState :=
  (splitConfigParseOptions splitConfigInit options).bind fun splitConfig =>
    (referenceOrder n options).map fun order => ⟨order, splitConfig, .init order⟩

/-- The task that comes first at an instant. -/
def ReferenceState.first (s : ReferenceState) (u : UInt64) : Option TaskDesc :=
  (leastBy (Candidate.compare s.order u) s.ready.candidates).map Candidate.task

/-- A policy that looks up the tasks whose priority changes. -/
def Builtin.looksUp : Builtin → Bool
  | .fifo => false
  | .priority => true
  | .ordered => true
  | .roundRobin => false

/-- The reference policy under the options of a built-in one. -/
def referencePlugin (n : Builtin) : PluginDesc ReferenceState where
  init := fun _ options c =>
    match referenceInit n options with
    | none => ⟨.error .errInvalidArg, c⟩
    | some s => ⟨.ok s, c⟩
  onTaskSubmit := fun _ s task c =>
    if task.taskId ∈ taskIds s.ready.tasks then ⟨.errExists, s, c⟩
    else ⟨.ok, { s with ready := s.ready.arrive task }, c⟩
  selectNext := fun E s c =>
    let (nowNs, c) := deadlineNow s.order.deadline E c
    match s.first nowNs with
    | none => ⟨.errNotFound, invalidTaskId, s, c⟩
    | some task => ⟨.ok, task.taskId, { s with ready := s.ready.serve task }, c⟩
  getSplitConfig := fun _ s => ⟨.ok, s.splitConfig, s⟩
  onTaskPriorityChanged := fun _ s id priority c =>
    if n.looksUp ∧ id ∉ taskIds s.ready.tasks then ⟨.errNotFound, s, c⟩
    else ⟨.ok, { s with ready := s.ready.reprioritize id priority }, c⟩
  onTaskStarted := fun _ s _ c => ⟨.ok, s, c⟩
  onTaskFinished := fun _ s id _ c => ⟨.ok, { s with ready := s.ready.leave id }, c⟩

/-! ## Selection -/

section Selection

variable {order : OrderConfig} {u : UInt64} {ready : ReferenceReady} {a : Candidate}

/-- The item of a candidate, with the ticket of its group. -/
def Candidate.item (m : Memory) (ticket : GroupKey → ℕ) (a : Candidate) : Ticketed :=
  ⟨m a.task.taskId, ticket (groupKeyFromTask a.task)⟩

/-- The items show the candidates at an instant, as far as the keys look at them. -/
structure Shows (order : OrderConfig) (u : UInt64) (m : Memory) (ticket : GroupKey → ℕ)
    (cs : List Candidate) : Prop where
  priority : .priority ∈ order.keys → ∀ a ∈ cs, (m a.task.taskId).effectivePriority =
    (a.task.boosted order.deadline.boost u).effectivePriority
  mirrors : ∀ a ∈ cs, Mirrors (orderConfigUsesCost order) (m a.task.taskId) a.task
  number : .fifo ∈ order.keys → ∀ a ∈ cs, ∀ b ∈ cs,
    compareAsc (m a.task.taskId).seq (m b.task.taskId).seq = compareAsc a.number b.number
  turn : .roundRobin ∈ order.keys → ∀ a ∈ cs, ∀ b ∈ cs,
    compareAsc (ticket (groupKeyFromTask a.task)) (ticket (groupKeyFromTask b.task)) =
      compareAsc a.turn b.turn

variable {m : Memory} {ticket : GroupKey → ℕ} {cs : List Candidate} {b : Candidate}

theorem Shows.key (h : Shows order u m ticket cs) {key : OrderKey} (hkey : key ∈ order.keys)
    (ha : a ∈ cs) (hb : b ∈ cs) : key.compare (a.item m ticket) (b.item m ticket) =
      key.compareCandidates order.deadline.boost u a b := by
  have hcost : key = .sjf ∨ key = .ljf → orderConfigUsesCost order = true := fun h =>
    List.any_eq_true.2 ⟨key, hkey, by simpa using h⟩
  cases key with
  | priority =>
    simp only [OrderKey.compare, OrderKey.compareCandidates, Candidate.item, h.priority hkey a ha,
      h.priority hkey b hb]
  | sjf =>
    simp only [OrderKey.compare, OrderKey.compareCandidates, Candidate.item,
      (h.mirrors a ha).estimatedCost, (h.mirrors b hb).estimatedCost, hcost (Or.inl rfl), if_true]
  | ljf =>
    simp only [OrderKey.compare, OrderKey.compareCandidates, Candidate.item,
      (h.mirrors a ha).estimatedCost, (h.mirrors b hb).estimatedCost, hcost (Or.inr rfl), if_true]
  | roundRobin => exact h.turn hkey a ha b hb
  | fifo => exact h.number hkey a ha b hb

/-- The candidates compare as their items do. -/
theorem Shows.compare (h : Shows order u m ticket cs) (ha : a ∈ cs) (hb : b ∈ cs) :
    Candidate.compare order u a b =
      orderCompareLoop order.keys (a.item m ticket) (b.item m ticket) := by
  have hmap : ∀ keys : List OrderKey, (∀ key ∈ keys, key ∈ order.keys) →
      lexCompare (keys.map (OrderKey.compareCandidates order.deadline.boost u) ++
        [fun left right => compareAsc left.task.taskId right.task.taskId]) a b =
      orderCompareLoop keys (a.item m ticket) (b.item m ticket) := by
    intro keys hin
    induction keys with
    | nil =>
      rw [List.map_nil, List.nil_append, lexCompare_cons, orderCompareLoop]
      simp only [Candidate.item, (h.mirrors a ha).taskId, (h.mirrors b hb).taskId]
      exact Ordering.then_eq
    | cons key rest ih =>
      rw [List.map_cons, List.cons_append, lexCompare_cons,
        ih fun k hk => hin k (List.mem_cons_of_mem key hk), orderCompareLoop,
        h.key (hin key List.mem_cons_self) ha hb]
      cases key.compareCandidates order.deadline.boost u a b <;> rfl
  exact hmap order.keys fun _ h => h

/-- **What is least among the items is what the reference selects.** -/
theorem leastBy_of_items (h : Shows order u m ticket cs)
    (hdistinct : ∀ a ∈ cs, ∀ b ∈ cs, a.task.taskId = b.task.taskId → a = b) (ha : a ∈ cs)
    (hleast : ∀ b ∈ cs,
      (orderCompareLoop order.keys (a.item m ticket) (b.item m ticket)).isLE) :
    leastBy (Candidate.compare order u) cs = some a := by
  refine leastBy_eq_some ha fun b hb hne => ?_
  have hle := hleast b hb
  rw [h.compare ha hb]
  cases hcmp : orderCompareLoop order.keys (a.item m ticket) (b.item m ticket) with
  | lt => rfl
  | eq =>
    have hid : (m a.task.taskId).desc.taskId = (m b.task.taskId).desc.taskId :=
      taskId_eq_of_orderCompareLoop hcmp
    rw [(h.mirrors a ha).taskId, (h.mirrors b hb).taskId] at hid
    exact absurd (hdistinct a ha b hb hid).symm hne
  | gt =>
    rw [hcmp] at hle
    simp at hle

/-- Values that grow along a list compare as their positions do. -/
theorem compareAsc_positions {α : Type} {l : List α} {f : α → ℕ}
    (hgrow : l.Pairwise fun a b => f a < f b) {i j : ℕ} {x y : α} (hx : l[i]? = some x)
    (hy : l[j]? = some y) : compareAsc (f x) (f y) = compareAsc i j := by
  obtain ⟨hi, rfl⟩ := List.getElem?_eq_some_iff.1 hx
  obtain ⟨hj, rfl⟩ := List.getElem?_eq_some_iff.1 hy
  rw [compareAsc_nat, compareAsc_nat]
  rcases Nat.lt_trichotomy i j with hij | rfl | hij
  · rw [Nat.compare_eq_lt.2 hij, Nat.compare_eq_lt.2 (List.pairwise_iff_getElem.1 hgrow i j hi hj hij)]
  · rw [compare_eq_iff_eq.2 rfl, compare_eq_iff_eq.2 rfl]
  · rw [Nat.compare_eq_gt.2 hij, Nat.compare_eq_gt.2 (List.pairwise_iff_getElem.1 hgrow j i hj hi hij)]

end Selection

end QhwScheduler
