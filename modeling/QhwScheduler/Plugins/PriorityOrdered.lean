import QhwScheduler.Core.Lockstep
import QhwScheduler.Foundations.BinaryHeap
import QhwScheduler.Plugins.Builtin

/-!
# The priority plugin as an ordered plugin

Without key options the ordered plugin is the priority plugin.

* `PriorityState.asOrdered` — the state of the one as a state of the other.
* `orderedInit_asOrdered` — the two option parsers accept the same lists.
* `priority_lockstep` — the hooks do the same.
* `priority_is_ordered` — no run of a scheduler can tell them apart.
-/

namespace QhwScheduler

open Foundations DeadlineQueue

/-! ## The parsers -/

section Parse

variable {options kvs : List Kv}

/-- No entry of the options is an order key. -/
def NoOrderKey (options : List Kv) : Prop := ∀ kv ∈ options, kv.key ≠ optOrderKey

/-- Without key options the loop over the options reads the clock options only. -/
theorem orderConfigParseLoop_noKey (hkeys : NoOrderKey kvs) (keys : List OrderKey)
    (deadline : DeadlineSettings) :
    orderConfigParseLoop ⟨keys, deadline⟩ false kvs =
      match priorityParseNowOption deadline (some kvs) with
      | none => .error .errInvalidArg
      | some deadline => .ok ⟨keys, deadline⟩ := by
  induction kvs generalizing deadline with
  | nil => rfl
  | cons kv rest ih =>
    have hkey : kv.key ≠ optOrderKey := hkeys kv List.mem_cons_self
    have hrest : NoOrderKey rest := fun k hk => hkeys k (List.mem_cons_of_mem kv hk)
    unfold orderConfigParseLoop
    rw [if_neg hkey]
    by_cases hnow : kv.key = optDeadlineNowNs
    · rw [if_pos hnow]
      dsimp only
      cases hparse : parseNowOption deadline kv with
      | none => simp [priorityParseNowOption, hnow, hparse]
      | some next =>
        dsimp only
        rw [ih hrest next]
        simp [priorityParseNowOption, hnow, hparse]
    · rw [if_neg hnow, ih hrest deadline]
      simp [priorityParseNowOption, hnow]

/-- The parser of the ordered plugin, told by the two parsers of the priority plugin. -/
theorem orderConfigParseOptions_noKey (hkeys : NoOrderKey options) :
    orderConfigParseOptions orderConfigInit (some options) =
      match deadlineBoostConfigParseOptions deadlineBoostConfigInit (some options) with
      | none => .error .errInvalidArg
      | some boost =>
        match priorityParseNowOption { boost := boost } (some options) with
        | none => .error .errInvalidArg
        | some deadline => .ok ⟨priorityKeys, deadline⟩ := by
  unfold orderConfigParseOptions
  show (match deadlineBoostConfigParseOptions deadlineBoostConfigInit (some options) with
    | none => _ | some boost => _) = _
  cases deadlineBoostConfigParseOptions deadlineBoostConfigInit (some options) with
  | none => rfl
  | some boost =>
    have hloop := orderConfigParseLoop_noKey hkeys priorityKeys { boost := boost }
    dsimp only
    rw [show ({ orderConfigInit with deadline := { orderConfigInit.deadline with boost := boost } } :
      OrderConfig) = ⟨priorityKeys, { boost := boost }⟩ from rfl, hloop]
    cases priorityParseNowOption { boost := boost } (some options) with
    | none => rfl
    | some deadline => rfl

end Parse

/-! ## The hooks -/

/-- The state of a priority policy as one of an ordered policy with the default keys. -/
def PriorityState.asOrdered (s : PriorityState) : OrderedState :=
  ⟨⟨priorityKeys, s.deadline⟩, s.splitConfig, .flat s.queue⟩

section Hooks

variable {H : HeapOps} {E : Env} (s : PriorityState) (c : Cursor)

theorem orderedOnTaskSubmit_asOrdered (task : TaskDesc) :
    let r := priorityOnTaskSubmit H E s task c
    orderedOnTaskSubmit H E s.asOrdered task c = ⟨r.rc, r.state.asOrdered, r.cursor⟩ := by
  unfold orderedOnTaskSubmit PriorityState.asOrdered
  dsimp only
  rw [orderCompare_priorityKeys]
  rfl

theorem orderedSelectNext_asOrdered :
    let r := prioritySelectNext H E s c
    orderedSelectNext H E s.asOrdered c = ⟨r.rc, r.taskId, r.state.asOrdered, r.cursor⟩ := by
  unfold orderedSelectNext PriorityState.asOrdered
  dsimp only
  rw [orderCompare_priorityKeys]
  rfl

theorem orderedOnTaskPriorityChanged_asOrdered (id : TaskId) (priority : Int64) :
    let r := priorityOnTaskPriorityChanged H E s id priority c
    orderedOnTaskPriorityChanged H E s.asOrdered id priority c =
      ⟨r.rc, r.state.asOrdered, r.cursor⟩ := by
  unfold orderedOnTaskPriorityChanged PriorityState.asOrdered
  dsimp only
  rw [orderCompare_priorityKeys]
  rfl

theorem orderedOnTaskFinished_asOrdered (id : TaskId) :
    let r := priorityOnTaskFinished H s id c
    orderedOnTaskFinished H s.asOrdered id c = ⟨r.rc, r.state.asOrdered, r.cursor⟩ := by
  unfold orderedOnTaskFinished PriorityState.asOrdered
  dsimp only
  rw [orderCompare_priorityKeys]
  rfl

end Hooks

/-! ## Setting the policy -/

/-- Both plugins make the same queues, one the ready queue first, the other the
refresh queue: with the same three requests for memory. -/
theorem orderedInit_asOrdered {options : List Kv} (hkeys : NoOrderKey options) (E : Env)
    (c : Cursor) :
    let r := priorityInit E (some options) c
    let r' := orderedInit E (some options) c
    (∃ rc, r.outcome = .error rc ∧ r'.outcome = .error rc) ∨
      ∃ s, r.outcome = .ok s ∧ r'.outcome = .ok s.asOrdered ∧ r.cursor = r'.cursor := by
  dsimp only
  unfold priorityInit orderedInit
  rw [orderConfigParseOptions_noKey hkeys]
  split
  · exact Or.inl ⟨_, rfl, rfl⟩
  · cases splitConfigParseOptions splitConfigInit (some options) with
    | none => exact Or.inl ⟨_, rfl, rfl⟩
    | some splitConfig =>
      cases deadlineBoostConfigParseOptions deadlineBoostConfigInit (some options) with
      | none => exact Or.inl ⟨_, rfl, rfl⟩
      | some boost =>
        dsimp only
        cases priorityParseNowOption { boost := boost } (some options) with
        | none => exact Or.inl ⟨_, rfl, rfl⟩
        | some deadline =>
          dsimp only
          have hcost : orderConfigUsesCost ⟨priorityKeys, deadline⟩ = false := rfl
          have hrr : orderConfigUsesRoundRobin ⟨priorityKeys, deadline⟩ = false := rfl
          rw [hcost, hrr]
          -- the second, the third and the fourth request of the call
          unfold readyQueueInit deadlineRefreshInit
          cases h₂ : E.alloc c.alloc.allocs with
          | false => exact Or.inl ⟨.errNoMemory, by simp, by simp⟩
          | true =>
            cases h₃ : E.alloc c.alloc.alloc.allocs with
            | false => exact Or.inl ⟨.errNoMemory, by simp, by simp [h₃]⟩
            | true =>
              cases h₄ : E.alloc c.alloc.alloc.alloc.allocs with
              | false => exact Or.inl ⟨.errNoMemory, by simp [h₄], by simp [h₃, h₄]⟩
              | true =>
                simp only [Bool.not_true, Bool.false_eq_true, if_false, h₃, h₄]
                exact Or.inr ⟨_, rfl, rfl, trivial⟩

/-! ## Runs -/

/-- A priority policy and the ordered policy with the same state. -/
def PriorityAsOrdered (π π' : Sigma BuiltinState) : Prop :=
  ∃ s : PriorityState, π = ⟨.priority, s⟩ ∧ π' = ⟨.ordered, s.asOrdered⟩

theorem hooksAgree_of_asOrdered {r : HookResult PriorityState} {r' : HookResult OrderedState}
    (h : r' = ⟨r.rc, r.state.asOrdered, r.cursor⟩) :
    @HooksAgree Builtin BuiltinState Eq PriorityAsOrdered .priority .ordered r r' := by
  subst h
  exact ⟨rfl, ⟨r.state, rfl, rfl⟩, rfl⟩

/-- **The two policies answer alike**, whatever the allocator and the clock do. -/
theorem priority_lockstep (H : HeapOps) :
    Lockstep (builtinPlugins H) (fun _ => True) Eq PriorityAsOrdered fun _ _ => True where
  paces _ := ⟨rfl, fun h => by rw [h], fun h => by rw [h]⟩
  submit := by
    rintro E π π' c c' task - ⟨s, rfl, rfl⟩ rfl
    exact hooksAgree_of_asOrdered (orderedOnTaskSubmit_asOrdered s c task)
  select := by
    rintro E π π' c c' - ⟨s, rfl, rfl⟩ rfl
    have h : (builtinPlugins H .ordered).selectNext E s.asOrdered c = _ :=
      orderedSelectNext_asOrdered s c
    dsimp only
    rw [h]
    exact ⟨rfl, fun _ => rfl, _, rfl, rfl⟩
  config := by
    rintro π π' config ⟨s, rfl, rfl⟩
    exact ⟨rfl, rfl, s, rfl, rfl⟩
  priorityChanged := by
    rintro E π π' c c' id priority - ⟨s, rfl, rfl⟩ - rfl
    exact hooksAgree_of_asOrdered (orderedOnTaskPriorityChanged_asOrdered s c id priority)
  started := by
    rintro E π π' c c' id - ⟨s, rfl, rfl⟩ rfl
    exact ⟨rfl, ⟨s, rfl, rfl⟩, rfl⟩
  finished := by
    rintro E π π' c c' id state - ⟨s, rfl, rfl⟩ rfl
    exact hooksAgree_of_asOrdered (orderedOnTaskFinished_asOrdered s c id)

/-- The code of an `init`. -/
def InitResult.rc {σ : Type} (r : InitResult σ) : Rc :=
  match r.outcome with
  | .error rc => rc
  | .ok _ => .ok

/-- **Without order keys the ordered plugin is the priority plugin.**  Both accept
the same options; and set on any scheduler that has them loaded, with any tasks
in its table, they give the same code, and from then on every run of operations
returns the same codes and assignments, whatever the allocator and the clock do. -/
theorem priority_is_ordered (H : HeapOps) (options : List Kv) (hkeys : NoOrderKey options)
    (s : Sched BuiltinState) (hpriority : Builtin.priority ∈ s.plugins.items)
    (hordered : Builtin.ordered ∈ s.plugins.items) (E : Env) (is : List (Env × Op Builtin)) :
    let r := step (builtinPlugins H) s E (.setPolicy .priority (some options))
    let r' := step (builtinPlugins H) s E (.setPolicy .ordered (some options))
    (priorityInit E (some options) .start).rc = (orderedInit E (some options) .start).rc ∧
      r.rc = r'.rc ∧
      replies (builtinPlugins H) r.sched is = replies (builtinPlugins H) r'.sched is := by
  have hinit := orderedInit_asOrdered hkeys E .start
  have hagree : @InitsAgree Builtin BuiltinState Eq PriorityAsOrdered .priority .ordered
      (priorityInit E (some options) .start) (orderedInit E (some options) .start) := by
    rcases hinit with ⟨rc, h, h'⟩ | ⟨state, h, h', hc⟩
    · exact Or.inl ⟨rc, h, h'⟩
    · exact Or.inr ⟨state, state.asOrdered, h, h', ⟨state, rfl, rfl⟩, hc⟩
  have hset := setPolicy_agree (priority_lockstep H) trivial hpriority hordered hagree
  refine ⟨?_, hset.rc, replies_twins (priority_lockstep H) (fun _ => True)
    (fun _ _ _ _ _ _ _ _ => trivial) (fun _ _ _ _ => trivial) trivial hset.sched fun _ _ => trivial⟩
  unfold InitResult.rc
  rcases hinit with ⟨rc, h, h'⟩ | ⟨state, h, h', -⟩
  · rw [h, h']
  · rw [h, h']

/-- A scheduler with both plugins and two queued tasks, the second more urgent. -/
def bothLoaded : Sched BuiltinState :=
  Foundations.run (nextState (builtinPlugins binaryHeap)) (schedCreate (qpuCreate (some [])))
    [(.still 0, .loadPlugin .priority true), (.still 0, .loadPlugin .ordered true),
      (.still 0, .submitTask { taskId := 1, priority := 5 } {}),
      (.still 0, .submitTask { taskId := 2, deadlineNs := 9, estimatedRuntimeNs := 4 } {})]

/-- Boosting, and a clock that stands at eight. -/
def boostOptions : List Kv := [⟨optDeadlineNowNs, .u64 8⟩, ⟨optDeadlineBoostEnable, .u64 1⟩]

/-- With boosting both select the second task, which is close to its deadline. -/
theorem priority_is_ordered_boosted :
    let P := builtinPlugins binaryHeap
    let r := step P bothLoaded (.still 0) (.setPolicy .priority (some boostOptions))
    let r' := step P bothLoaded (.still 0) (.setPolicy .ordered (some boostOptions))
    r'.rc = .ok ∧ (schedSelectNext P (.still 0) r.sched .start).assignment.map Assignment.taskId =
        some 2 ∧
      replies P r.sched [(.still 0, .selectNext)] = replies P r'.sched [(.still 0, .selectNext)] := by
  intro P r r'
  have hkeys : NoOrderKey boostOptions := by
    unfold NoOrderKey
    decide
  have h := priority_is_ordered binaryHeap boostOptions hkeys bothLoaded (by decide +kernel)
    (by decide +kernel) (.still 0) [(.still 0, .selectNext)]
  exact ⟨by decide +kernel, by decide +kernel, h.2.2⟩

end QhwScheduler
