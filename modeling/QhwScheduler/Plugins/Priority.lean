import QhwScheduler.Core.Split
import QhwScheduler.Policy.FlatPolicy

/-!
# The priority plugin

`priority.c`: one heap by effective priority and age, refreshed when deadlines
come near.

* `priorityPlugin` — the hooks.
* `priorityCompare_eq` — its comparison is that of the keys priority and fifo.
* `priority_policyInv` — the heap holds exactly the waiting tasks.
-/

namespace QhwScheduler

open Foundations DeadlineQueue
open Std (TransCmp)

/-- `struct priority_state`. -/
structure PriorityState where
  queue : DeadlineQueue ReadyQueue
  deadline : DeadlineSettings
  splitConfig : SplitConfig

/-- `parse_now_option` of `priority.c`, the whole loop. -/
def priorityParseNowOption (deadline : DeadlineSettings) (options : KvArray) :
    Option DeadlineSettings :=
  match options with
  | none => none
  | some kvs => kvs.foldlM
      (fun deadline option =>
        if option.key ≠ optDeadlineNowNs then some deadline else parseNowOption deadline option)
      deadline

/-- `priority_compare`. -/
def priorityCompare (left right : ReadyTask) : Ordering :=
  if left.effectivePriority ≠ right.effectivePriority then
    if left.effectivePriority > right.effectivePriority then .lt else .gt
  else if left.seq ≠ right.seq then
    if left.seq < right.seq then .lt else .gt
  else if left.desc.taskId = right.desc.taskId then .eq
  else if left.desc.taskId < right.desc.taskId then .lt else .gt

section

variable (H : HeapOps) (E : Env)

/-- `priority_init`. -/
def priorityInit (options : KvArray) (c : Cursor) : InitResult PriorityState :=
  if !E.alloc c.allocs then ⟨.error .errNoMemory, c.alloc⟩
  else
    match splitConfigParseOptions splitConfigInit options with
    | none => ⟨.error .errInvalidArg, c.alloc⟩
    | some splitConfig =>
      match deadlineBoostConfigParseOptions deadlineBoostConfigInit options with
      | none => ⟨.error .errInvalidArg, c.alloc⟩
      | some boost =>
        match priorityParseNowOption { boost := boost } options with
        | none => ⟨.error .errInvalidArg, c.alloc⟩
        | some deadline =>
          match readyQueueInit E .heap false c.alloc with
          | (none, c) => ⟨.error .errNoMemory, c⟩
          | (some ready, c) =>
            match deadlineRefreshInit E c with
            | (none, c) => ⟨.error .errNoMemory, c⟩
            | (some refresh, c) => ⟨.ok ⟨freshQueue refresh ready, deadline, splitConfig⟩, c⟩

/-- `priority_on_task_submit`. -/
def priorityOnTaskSubmit (s : PriorityState) (task : TaskDesc) (c : Cursor) :
    HookResult PriorityState :=
  let r := flatSubmit H E s.deadline priorityCompare s.queue task c
  ⟨r.rc, { s with queue := r.state }, r.cursor⟩

/-- `priority_select_next`. -/
def prioritySelectNext (s : PriorityState) (c : Cursor) : SelectResult PriorityState :=
  let r := flatSelect H E s.deadline priorityCompare s.queue c
  ⟨r.rc, r.taskId, { s with queue := r.state }, r.cursor⟩

/-- `priority_on_task_priority_changed`. -/
def priorityOnTaskPriorityChanged (s : PriorityState) (id : TaskId) (priority : Int64) (c : Cursor) :
    HookResult PriorityState :=
  let r := flatPriorityChanged H E s.deadline priorityCompare s.queue id priority c
  ⟨r.rc, { s with queue := r.state }, r.cursor⟩

/-- `priority_on_task_finished`. -/
def priorityOnTaskFinished (s : PriorityState) (id : TaskId) (c : Cursor) :
    HookResult PriorityState :=
  let r := flatFinished H priorityCompare s.queue id c
  ⟨r.rc, { s with queue := r.state }, r.cursor⟩

end

/-- `priority_desc`. -/
def priorityPlugin (H : HeapOps) : PluginDesc PriorityState where
  init := fun E options c => priorityInit E options c
  onTaskSubmit := fun E s task c => priorityOnTaskSubmit H E s task c
  selectNext := fun E s c => prioritySelectNext H E s c
  getSplitConfig := fun _ s => ⟨.ok, s.splitConfig, s⟩
  onTaskPriorityChanged := fun E s id priority c => priorityOnTaskPriorityChanged H E s id priority c
  onTaskStarted := fun _ s _ c => ⟨.ok, s, c⟩
  onTaskFinished := fun _ s id _ c => priorityOnTaskFinished H s id c

/-! ## The comparison -/

/-- The key list the comparison amounts to. -/
def priorityKeys : List OrderKey := [.priority, .fifo]

theorem priorityCompare_eq : priorityCompare = orderCompare ⟨priorityKeys, {}⟩ := by
  funext a b
  simp only [priorityCompare, orderCompare, orderCompareGroups, priorityKeys, orderCompareLoop,
    OrderKey.compare, compareI64Desc, compareAsc]
  by_cases he : a.effectivePriority = b.effectivePriority
  · by_cases hs : a.seq = b.seq
    · simp [he, hs]
    · by_cases hlt : a.seq < b.seq <;> simp [he, hs, hlt]
  · by_cases hlt : a.effectivePriority > b.effectivePriority <;> simp [he, hlt]

/-- The clock settings do not take part in the comparison. -/
theorem orderCompare_priorityKeys (deadline : DeadlineSettings) :
    orderCompare ⟨priorityKeys, deadline⟩ = priorityCompare := by
  rw [priorityCompare_eq]
  rfl

instance priorityCompare_transCmp : TransCmp priorityCompare := by
  rw [priorityCompare_eq]
  infer_instance

theorem priorityCompare_reads : ReadyCompare.Reads priorityCompare := by
  rw [priorityCompare_eq]
  exact orderCompare_reads _

/-! ## The invariant -/

/-- The heap holds exactly the waiting tasks; with `G` their priorities are fresh. -/
structure PriorityInv (G : Prop) (t : UInt64) (s : PriorityState) (l : List TaskDesc) : Prop where
  flat : FlatOk s.deadline priorityCompare false G t s.queue l
  thresholds : s.deadline.boost.thresholdsRejected = false

theorem priorityParseNowOption_boost {deadline deadline' : DeadlineSettings} {options : KvArray}
    (h : priorityParseNowOption deadline options = some deadline') :
    deadline'.boost = deadline.boost := by
  unfold priorityParseNowOption at h
  split at h
  · simp at h
  · next kvs =>
    induction kvs generalizing deadline with
    | nil =>
      rw [List.foldlM_nil] at h
      rw [← Option.some.inj h]
    | cons kv kvs ih =>
      rw [List.foldlM_cons] at h
      obtain ⟨mid, hmid, h⟩ := Option.bind_eq_some_iff.1 h
      rw [ih h]
      split at hmid
      · rw [← Option.some.inj hmid]
      · unfold parseNowOption at hmid
        split at hmid
        · rw [← Option.some.inj hmid]
        · simp at hmid

theorem priorityInit_inv {G : Prop} {t : UInt64} {E : Env} {options : KvArray} {c : Cursor}
    {s : PriorityState} (h : (priorityInit E options c).outcome = .ok s) : PriorityInv G t s [] := by
  unfold priorityInit at h
  split at h
  · simp at h
  · split at h
    · simp at h
    · split at h
      · simp at h
      · next boost hboost =>
        split at h
        · simp at h
        · next deadline hnow =>
          split at h
          · simp at h
          · next hready =>
            split at h
            · simp at h
            · next hrefresh =>
              simp only [Except.ok.injEq] at h
              rw [← h]
              refine ⟨flatOk_nil hready hrefresh, ?_⟩
              show deadline.boost.thresholdsRejected = false
              rw [priorityParseNowOption_boost hnow]
              exact deadlineBoostConfigParseOptions_thresholds hboost

/-- The priority plugin keeps its heap, whatever the allocator and the clock do;
with a clock that does not run backwards its priorities stay fresh. -/
theorem priority_policyInv {H : HeapOps} (hH : H.Lawful) (G : Prop) :
    PolicyInv (priorityPlugin H) (fun τ E t => G → Within τ E t) (PriorityInv G) where
  mono hE h := ⟨h.flat.mono fun hG => (hE hG).mono, h.thresholds⟩
  nodup h := h.flat.tracked.nodup
  init _ h := priorityInit_inv h
  submit hE h := by
    rcases flatSubmit_submits hH priorityCompare_reads hE h.flat _ _ with ⟨hrc, hnew, hf⟩ | ⟨hrc, hf⟩
    · exact Or.inl ⟨hrc, hnew, hf, h.thresholds⟩
    · exact Or.inr ⟨hrc, hf, h.thresholds⟩
  select hE h := by
    rcases flatSelect_spec hH priorityCompare_reads hE (h.flat.mono fun hG => (hE hG).mono) _
      with ⟨hrc, hnil, hf⟩ | ⟨d, hd, hrc, hid, hf, -⟩
    · exact Or.inl ⟨hrc, hnil, hf, h.thresholds⟩
    · exact Or.inr ⟨d, hd, hrc, hid, hf, h.thresholds⟩
  config h := ⟨rfl, h⟩
  priorityChanged hE h := by
    rcases flatPriorityChanged_reprioritizes hH priorityCompare_reads h.thresholds hE h.flat _ _ _
      with ⟨hrc, hf⟩ | ⟨hrc, hf⟩
    · exact Or.inl ⟨hrc, hf, h.thresholds⟩
    · exact Or.inr ⟨hrc, hf, h.thresholds⟩
  started _ h := ⟨rfl, h⟩
  finished := by
    intro τ t E s l id state c _ h
    obtain ⟨hrc, hf⟩ := flatFinished_finishes hH priorityCompare_reads h.flat id c
    exact ⟨hrc, hf, h.thresholds⟩

end QhwScheduler
