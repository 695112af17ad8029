import QhwScheduler.Core.Follows
import QhwScheduler.Plugins.Reference

/-!
# The policies with one queue

The fifo plugin, the priority plugin and the ordered plugin without a round_robin key
answer as their reference policies do, at a steady clock and with memory.

* `ReferenceSelects` — a selection takes the candidate that comes first.
* `queue_submit`, `queue_select`, `queue_priorityChanged`, `queue_finished` — what it takes
  to answer as a reference policy with one queue.
* `flatSelect_reference` — the heap with its cached priorities finds the first candidate.
* `fifo_follows`, `priority_follows` — the two plugins.
-/

namespace QhwScheduler

open Foundations DeadlineQueue

/-! ## Answering as a reference queue -/

section Queue

variable {σ : Type} {R : σ → List TaskDesc → Prop} {l : List TaskDesc} {E : Env} {t : UInt64}

/-- A selection takes the candidate that comes first, or finds none. -/
def ReferenceSelects (R : σ → List TaskDesc → Prop) (order : OrderConfig) (u : UInt64)
    (l : List TaskDesc) (r : SelectResult σ) : Prop :=
  (r.rc = .errNotFound ∧ l = [] ∧ R r.state l) ∨
    ∃ a, leastBy (Candidate.compare order u) (ReferenceReady.queue l).candidates = some a ∧
      r.rc = .ok ∧ r.taskId = a.task.taskId ∧ R r.state (withoutTask a.task.taskId l)

theorem queue_submit (n : Builtin) (order : OrderConfig) (splitConfig : SplitConfig)
    {task : TaskDesc} {r : HookResult σ} (h : Submits R l task r)
    (hrc : task.taskId ∈ taskIds l → r.rc = .errExists) (hok : task.taskId ∉ taskIds l → r.rc = .ok)
    (c : Cursor) :
    let r' := (referencePlugin n).onTaskSubmit E ⟨order, splitConfig, .queue l⟩ task c
    r.rc = r'.rc ∧ ∃ l', r'.state = ⟨order, splitConfig, .queue l'⟩ ∧ R r.state l' := by
  dsimp only [referencePlugin]
  split
  · next hin =>
    rcases h with ⟨-, hnew, -⟩ | ⟨-, hR⟩
    · exact absurd hin hnew
    · exact ⟨hrc hin, l, rfl, hR⟩
  · next hnot =>
    rcases h with ⟨-, -, hR⟩ | ⟨hfail, -⟩
    · exact ⟨hok hnot, _, rfl, hR⟩
    · exact absurd (hok hnot) hfail

theorem queue_select (n : Builtin) (order : OrderConfig) (splitConfig : SplitConfig)
    (hE : Steady E t) {r : SelectResult σ}
    (h : ReferenceSelects R order (clockValue order.deadline t) l r) (c : Cursor) :
    let r' := (referencePlugin n).selectNext E ⟨order, splitConfig, .queue l⟩ c
    r.rc = r'.rc ∧ (r.rc = .ok → r.taskId = r'.taskId) ∧
      ∃ l', r'.state = ⟨order, splitConfig, .queue l'⟩ ∧ R r.state l' := by
  have hnow : (deadlineNow order.deadline E c).1 = clockValue order.deadline t :=
    deadlineNow_clockValue hE.clock
  dsimp only [referencePlugin]
  rw [hnow]
  rcases h with ⟨hrc, hnil, hR⟩ | ⟨a, ha, hrc, hid, hR⟩
  · subst hnil
    exact ⟨hrc, fun hok => by simp [hrc] at hok, [], rfl, hR⟩
  · rw [ReferenceState.first, ha]
    exact ⟨hrc, fun _ => hid, _, rfl, hR⟩

theorem queue_priorityChanged (n : Builtin) (order : OrderConfig) (splitConfig : SplitConfig)
    {id : TaskId} {priority : Int64} {r : HookResult σ}
    (h : Reprioritizes R l id priority r)
    (hrc : r.rc = if n.looksUp ∧ id ∉ taskIds l then .errNotFound else .ok) (c : Cursor) :
    let r' := (referencePlugin n).onTaskPriorityChanged E ⟨order, splitConfig, .queue l⟩ id priority c
    r.rc = r'.rc ∧ ∃ l', r'.state = ⟨order, splitConfig, .queue l'⟩ ∧ R r.state l' := by
  dsimp only [referencePlugin]
  split
  · next hmissing =>
    have hmissing : n.looksUp ∧ id ∉ taskIds l := hmissing
    rw [if_pos hmissing] at hrc
    rcases h with ⟨hok, -⟩ | ⟨-, hR⟩
    · simp [hok] at hrc
    · exact ⟨hrc, l, rfl, hR⟩
  · next hfound =>
    have hfound : ¬ (n.looksUp ∧ id ∉ taskIds l) := hfound
    rw [if_neg hfound] at hrc
    rcases h with ⟨-, hR⟩ | ⟨hfail, -⟩
    · exact ⟨hrc, _, rfl, hR⟩
    · exact absurd hrc hfail

theorem queue_finished (n : Builtin) (order : OrderConfig) (splitConfig : SplitConfig)
    {id : TaskId} {r : HookResult σ} (h : Finishes R l id r)
    (state : TaskState) (c : Cursor) :
    let r' := (referencePlugin n).onTaskFinished E ⟨order, splitConfig, .queue l⟩ id state c
    r.rc = r'.rc ∧ ∃ l', r'.state = ⟨order, splitConfig, .queue l'⟩ ∧ R r.state l' :=
  ⟨h.1, _, rfl, h.2⟩

/-- The candidates of a queue are its tasks with their positions. -/
theorem mem_queue_candidates {a : Candidate} :
    a ∈ (ReferenceReady.queue l).candidates ↔ l[a.number]? = some a.task ∧ a.turn = 0 := by
  unfold ReferenceReady.candidates
  rw [List.mem_map]
  constructor
  · rintro ⟨⟨d, i⟩, he, rfl⟩
    exact ⟨List.mem_zipIdx_iff_getElem?.1 he, rfl⟩
  · rintro ⟨hget, hturn⟩
    refine ⟨(a.task, a.number), List.mem_zipIdx_iff_getElem?.2 hget, ?_⟩
    rw [← hturn]

/-- With distinct ids a candidate of a queue is known by its task. -/
theorem queue_candidates_distinct (hnd : (taskIds l).Nodup) {a b : Candidate}
    (ha : a ∈ (ReferenceReady.queue l).candidates) (hb : b ∈ (ReferenceReady.queue l).candidates)
    (h : a.task.taskId = b.task.taskId) : a = b := by
  obtain ⟨hget, hturn⟩ := mem_queue_candidates.1 ha
  obtain ⟨hget', hturn'⟩ := mem_queue_candidates.1 hb
  have hids : ∀ {i : ℕ} {d : TaskDesc}, l[i]? = some d → (taskIds l)[i]? = some d.taskId := by
    intro i d hi
    rw [taskIds, List.getElem?_map, hi]
    rfl
  have hi : a.number < (taskIds l).length := (List.getElem?_eq_some_iff.1 (hids hget)).1
  have hnumber : a.number = b.number :=
    (List.getElem?_inj hi hnd).1 ((hids hget).trans (h ▸ (hids hget').symm))
  rw [hnumber] at hget
  cases a
  cases b
  simp_all

end Queue

/-! ## One heap -/

section Flat

variable {H : HeapOps} {E : Env} {order : OrderConfig} {t : UInt64}
  {q : DeadlineQueue ReadyQueue} {l : List TaskDesc}

/-- With memory a submission fails for a task only that waits already. -/
theorem flatSubmit_memory (hH : H.Lawful) {settings : DeadlineSettings} {cmp : ReadyCompare}
    [Std.TransCmp cmp] (hcmp : cmp.Reads) {estimateCost : Bool} {G : Prop}
    (hE : ∀ n, E.alloc n = true) (hq : FlatOk settings cmp estimateCost G t q l) (task : TaskDesc)
    (c : Cursor) :
    (task.taskId ∈ taskIds l → (flatSubmit H E settings cmp q task c).rc = .errExists) ∧
      (task.taskId ∉ taskIds l → (flatSubmit H E settings cmp q task c).rc = .ok) := by
  obtain ⟨ht, hr, -⟩ := hq
  have hinsert : (readyQueueInsert H E cmp q.mem q.ready task c).rc =
      if task.taskId ∈ q.ready.byId then .errExists else .ok :=
    ReadyQueue.insert_alloc hE q.ready q.mem task c
  have hids : task.taskId ∈ q.ready.byId ↔ task.taskId ∈ taskIds l := hr.heap.byId task.taskId
  obtain ⟨hoff, hins⟩ := hr.insert hH E task c
  unfold flatSubmit
  dsimp only
  generalize readyQueueInsert H E cmp q.mem q.ready task c = r at hinsert hoff hins ⊢
  simp only [hids] at hinsert
  constructor
  · intro hin
    rw [if_pos hin] at hinsert
    rw [hinsert]
    simp
  · intro hnot
    rw [if_neg hnot] at hinsert
    rcases hins with ⟨-, -, hitem, hready⟩ | ⟨hrc, -⟩
    · have hid : task.taskId ∈ taskIds (l ++ [task]) := by simp
      have hfind : readyQueueFind r.queue task.taskId = true := hready.heap.find_iff.2 hid
      have hto := flat_touches estimateCost (l ++ [task]) hH hcmp
      have hok : (refreshTask H E settings (flatTouch H cmp)
          ⟨r.mem, q.refresh.setIndex task.taskId none, r.queue⟩ task.taskId r.cursor).rc = .ok := by
        obtain ⟨-, -, -, -, hrc⟩ := refreshTask_spec
          (q := ⟨r.mem, q.refresh.setIndex task.taskId none, r.queue⟩) hH E settings r.cursor
          (FlatReady cmp estimateCost (l ++ [task])) (ht.arrive hnot _ hoff hitem) hid
          fun mem' hm hs => hto.touch hready hid hm hs
        exact (hrc.resolve_right fun h => h.2.2.2.1 hE).1
      rw [hinsert, hfind]
      simp [hok]
    · exact absurd hinsert hrc

/-- **The heap finds the first candidate**, though its priorities are cached. -/
theorem flatSelect_reference (hH : H.Lawful) (hconfig : order.deadline.boost.thresholdsRejected = false)
    (hrr : OrderKey.roundRobin ∉ order.keys) (hE : Steady E t)
    (hq : FlatOk order.deadline (orderCompare order) (orderConfigUsesCost order) True t q l)
    (c : Cursor) :
    ReferenceSelects (FlatOk order.deadline (orderCompare order) (orderConfigUsesCost order) True t)
      order (clockValue order.deadline t) l
      (flatSelect H E order.deadline (orderCompare order) q c) := by
  have hcur := flatRefreshed_current hH (orderCompare_reads order) hconfig hE hq c
  rcases flatSelect_spec hH (orderCompare_reads order) (fun _ => hE.within (UInt64.le_refl t)) hq c
    with hnone | ⟨d, hd, hrc, hid, hR, hleast⟩
  · exact Or.inl hnone
  · generalize flatRefreshed H E order.deadline (orderCompare order) q c = m at hcur hleast
    obtain ⟨i, hi⟩ := List.mem_iff_getElem?.1 hd
    have hmem : ∀ a ∈ (ReferenceReady.queue l).candidates, a.task ∈ l := fun a ha =>
      List.mem_of_getElem? (mem_queue_candidates.1 ha).1
    refine Or.inr ⟨⟨d, i, 0⟩, ?_, hrc, hid, hR⟩
    refine leastBy_of_items (show Shows order _ m (fun _ => 0) _ from ⟨?_, ?_, ?_, ?_⟩) ?_
      (mem_queue_candidates.2 ⟨hi, rfl⟩) fun b hb => hleast _ (hmem b hb)
    · exact fun _ a ha => (hcur _ (hmem a ha)).1
    · exact fun a ha => (hcur _ (hmem a ha)).2.1
    · intro _ a ha b hb
      rw [(hcur _ (hmem a ha)).2.2, (hcur _ (hmem b hb)).2.2]
      exact compareAsc_positions (f := fun d : TaskDesc => (q.mem d.taskId).seq)
        hq.ready.numbered.growing (mem_queue_candidates.1 ha).1 (mem_queue_candidates.1 hb).1
    · exact fun h => absurd h hrr
    · exact fun a ha b hb => queue_candidates_distinct hq.tracked.nodup ha hb

/-- At a steady clock a priority change fails for a task only that does not wait. -/
theorem flatPriorityChanged_rc (hH : H.Lawful) {settings : DeadlineSettings} {cmp : ReadyCompare}
    [Std.TransCmp cmp] (hcmp : cmp.Reads) {estimateCost : Bool}
    (hconfig : settings.boost.thresholdsRejected = false) (hE : Steady E t)
    (hq : FlatOk settings cmp estimateCost True t q l) (id : TaskId) (priority : Int64) (c : Cursor) :
    (flatPriorityChanged H E settings cmp q id priority c).rc =
      if id ∉ taskIds l then .errNotFound else .ok := by
  obtain ⟨ht, hr, hf⟩ := hq
  unfold flatPriorityChanged
  by_cases hid : id ∈ taskIds l
  · rw [if_neg (not_not.2 hid)]
    exact (priorityChanged_fresh hH (hE.within (UInt64.le_refl t)) c hconfig
      (flat_touches estimateCost l hH hcmp) ht hr readyQueueFind (hr.heap.find_iff.2 hid) hid priority
      (hf trivial)).1
  · have hfind : readyQueueFind q.ready id = false := by
      rw [← Bool.not_eq_true, hr.heap.find_iff]
      exact hid
    simp [priorityChanged, hfind, hid]

end Flat

/-! ## The fifo plugin -/

/-- A fifo policy and the reference policy over the same tasks. -/
def FifoMatches (s : FifoState) (r : ReferenceState) : Prop :=
  ∃ l, r = ⟨fifoOrder, s.splitConfig, .queue l⟩ ∧ FifoInv s l

section Fifo

variable {H : HeapOps} {E : Env} {s : FifoState} {l : List TaskDesc} {u : UInt64} {c : Cursor}

theorem fifoSelectNext_splitConfig : (fifoSelectNext H s c).state.splitConfig = s.splitConfig := by
  unfold fifoSelectNext
  split <;> rfl

/-- The task that waits longest comes first. -/
theorem fifoSelectNext_reference (hs : FifoInv s l) (u : UInt64) (c : Cursor) :
    ReferenceSelects FifoInv fifoOrder u l (fifoSelectNext H s c) := by
  cases l with
  | nil =>
    rw [hs.select_nil]
    exact Or.inl ⟨rfl, rfl, hs⟩
  | cons d rest =>
    obtain ⟨s', hselect, hs'⟩ := hs.select_cons (H := H) c
    rw [hselect]
    refine Or.inr ⟨⟨d, 0, 0⟩, leastBy_eq_some ?_ ?_, rfl, rfl, ?_⟩
    · exact mem_queue_candidates.2 ⟨rfl, rfl⟩
    · intro b hb hne
      have hpos : b.number ≠ 0 := by
        intro h0
        refine hne (queue_candidates_distinct hs.nodup hb (mem_queue_candidates.2 ⟨rfl, rfl⟩) ?_)
        have hget := (mem_queue_candidates.1 hb).1
        rw [h0] at hget
        rw [← Option.some.inj hget]
      have hlt : compareAsc 0 b.number = .lt := by
        rw [compareAsc, if_neg (Ne.symm hpos), if_pos (Nat.pos_of_ne_zero hpos)]
      simp [Candidate.compare, fifoOrder, lexCompare, OrderKey.compareCandidates, hlt]
    · rw [withoutTask_cons_self hs.nodup]
      exact hs'

theorem fifoOnTaskSubmit_memory (hE : ∀ n, E.alloc n = true) (hs : FifoInv s l) (task : TaskDesc)
    (c : Cursor) : (fifoOnTaskSubmit H E s task c).rc =
      if task.taskId ∈ taskIds l then .errExists else .ok := by
  have hids : task.taskId ∈ s.ready.byId ↔ task.taskId ∈ taskIds l := hs.ready.byId task.taskId
  have hinsert : (readyQueueInsert H E noCompare s.mem s.ready task c).rc =
      if task.taskId ∈ s.ready.byId then .errExists else .ok :=
    ReadyQueue.insert_alloc hE s.ready s.mem task c
  simp only [hids] at hinsert
  exact hinsert

end Fifo

/-- **The fifo plugin follows its reference**, at a steady clock and with memory. -/
theorem fifo_follows (H : HeapOps) (t : UInt64) :
    Follows (fifoPlugin H) (referencePlugin .fifo) (fun E => Steady E t) FifoMatches where
  init := by
    intro E options c c' hE
    show (∃ rc, (fifoInit E options c).outcome = .error rc ∧ _) ∨
      ∃ s s', (fifoInit E options c).outcome = .ok s ∧ _
    dsimp only [referencePlugin, referenceInit, referenceOrder]
    unfold fifoInit readyQueueInit
    simp only [hE.alloc, Bool.not_true, Bool.false_eq_true, if_false]
    cases splitConfigParseOptions splitConfigInit options with
    | none => exact Or.inl ⟨_, rfl, rfl⟩
    | some splitConfig =>
      refine Or.inr ⟨_, _, rfl, rfl, [], rfl, ?_⟩
      exact ⟨List.nodup_nil, ⟨rfl, by simp, rfl⟩, by simp⟩
  submit := by
    rintro E s _ task c c' hE ⟨l, rfl, hs⟩
    have hrc := fifoOnTaskSubmit_memory (H := H) hE.alloc hs task c
    obtain ⟨hsame, l', hr, hs'⟩ := queue_submit (E := E) .fifo fifoOrder s.splitConfig
      (hs.submit (H := H) (E := E) task c) (fun hin => by rw [hrc, if_pos hin])
      (fun hnot => by rw [hrc, if_neg hnot]) c'
    exact ⟨hsame, l', hr, hs'⟩
  select := by
    rintro E s _ c c' hE ⟨l, rfl, hs⟩
    obtain ⟨hrc, hid, l', hr, hs'⟩ := queue_select .fifo fifoOrder s.splitConfig hE
      (fifoSelectNext_reference (H := H) hs _ c) c'
    refine ⟨hrc, hid, l', ?_, hs'⟩
    rw [hr]
    exact congrArg (fun split => (⟨fifoOrder, split, .queue l'⟩ : ReferenceState))
      (fifoSelectNext_splitConfig (H := H) (s := s) (c := c)).symm
  config := by
    rintro s _ config ⟨l, rfl, hs⟩
    exact ⟨rfl, rfl, l, rfl, hs⟩
  priorityChanged := by
    rintro E s _ id priority c c' hE ⟨l, rfl, hs⟩
    have hchanged : Reprioritizes FifoInv l id priority ⟨.ok, s, c⟩ :=
      (fifo_policyInv H fun _ _ _ => True).priorityChanged (τ := t) (t := t) (E := E) trivial hs
    obtain ⟨hrc, l', hr, hs'⟩ := queue_priorityChanged (E := E) .fifo fifoOrder s.splitConfig
      hchanged rfl c'
    exact ⟨hrc, l', hr, hs'⟩
  started := by
    rintro E s _ id c c' hE ⟨l, rfl, hs⟩
    exact ⟨rfl, l, rfl, hs⟩
  finished := by
    rintro E s _ id state c c' hE ⟨l, rfl, hs⟩
    obtain ⟨hrc, l', hr, hs'⟩ := queue_finished (E := E) .fifo fifoOrder s.splitConfig
      (hs.finished (H := H) id c) state c'
    exact ⟨hrc, l', hr, hs'⟩

/-! ## The priority plugin -/

/-- A priority policy and the reference policy over the same tasks. -/
def PriorityMatches (t : UInt64) (s : PriorityState) (r : ReferenceState) : Prop :=
  ∃ l, r = ⟨⟨priorityKeys, s.deadline⟩, s.splitConfig, .queue l⟩ ∧ PriorityInv True t s l

/-- The priority policy searches the queue of an ordered policy with its keys. -/
theorem prioritySelectNext_reference {H : HeapOps} (hH : H.Lawful) {E : Env} {t : UInt64}
    (hE : Steady E t) {s : PriorityState} {l : List TaskDesc} (hs : PriorityInv True t s l)
    (c : Cursor) :
    ReferenceSelects (fun q => PriorityInv True t { s with queue := q }) ⟨priorityKeys, s.deadline⟩
      (clockValue s.deadline t) l (flatSelect H E s.deadline priorityCompare s.queue c) := by
  have hflat := hs.flat
  rw [← orderCompare_priorityKeys s.deadline] at hflat
  have hkeys : OrderKey.roundRobin ∉ (⟨priorityKeys, s.deadline⟩ : OrderConfig).keys := by
    simp [priorityKeys]
  have hselect := flatSelect_reference hH hs.thresholds hkeys hE hflat c
  rw [orderCompare_priorityKeys] at hselect
  rcases hselect with ⟨hrc, hnil, hq⟩ | ⟨a, ha, hrc, hid, hq⟩
  · exact Or.inl ⟨hrc, hnil, hq, hs.thresholds⟩
  · exact Or.inr ⟨a, ha, hrc, hid, hq, hs.thresholds⟩

/-- **The priority plugin follows its reference**, at a steady clock and with memory. -/
theorem priority_follows {H : HeapOps} (hH : H.Lawful) (t : UInt64) :
    Follows (priorityPlugin H) (referencePlugin .priority) (fun E => Steady E t)
      (PriorityMatches t) where
  init := by
    intro E options c c' hE
    show (∃ rc, (priorityInit E options c).outcome = .error rc ∧ _) ∨
      ∃ s s', (priorityInit E options c).outcome = .ok s ∧ _
    cases hsplit : splitConfigParseOptions splitConfigInit options with
    | none =>
      exact Or.inl ⟨.errInvalidArg, by simp [priorityInit, hE.alloc, hsplit],
        by simp [referencePlugin, referenceInit, hsplit]⟩
    | some splitConfig =>
      cases hboost : deadlineBoostConfigParseOptions deadlineBoostConfigInit options with
      | none =>
        exact Or.inl ⟨.errInvalidArg, by simp [priorityInit, hE.alloc, hsplit, hboost],
          by simp [referencePlugin, referenceInit, referenceOrder, hboost]⟩
      | some boost =>
        cases hnow : priorityParseNowOption { boost := boost } options with
        | none =>
          exact Or.inl ⟨.errInvalidArg, by simp [priorityInit, hE.alloc, hsplit, hboost, hnow],
            by simp [referencePlugin, referenceInit, referenceOrder, hboost, hnow]⟩
        | some deadline =>
          have hinit : (priorityInit E options c).outcome = .ok ⟨freshQueue Heap.empty
              ⟨.heap, false, [], Heap.empty, ∅, 1⟩, deadline, splitConfig⟩ := by
            simp [priorityInit, readyQueueInit, deadlineRefreshInit, hE.alloc, hsplit, hboost, hnow]
          refine Or.inr ⟨_, ⟨⟨priorityKeys, deadline⟩, splitConfig, .queue []⟩, hinit, ?_, [], rfl,
            priorityInit_inv hinit⟩
          simp [referencePlugin, referenceInit, referenceOrder, hsplit, hboost, hnow,
            ReferenceReady.init, priorityKeys]
  submit := by
    rintro E s _ task c c' hE ⟨l, rfl, hs⟩
    have hP := priority_policyInv hH True
    have hsubmit : Submits (PriorityInv True t) l task (priorityOnTaskSubmit H E s task c) :=
      hP.submit (fun _ => hE.within (UInt64.le_refl t)) hs
    obtain ⟨hold, hnew⟩ := flatSubmit_memory hH priorityCompare_reads hE.alloc hs.flat task c
    obtain ⟨hrc, l', hr, hs'⟩ := queue_submit (E := E) .priority ⟨priorityKeys, s.deadline⟩
      s.splitConfig hsubmit hold hnew c'
    exact ⟨hrc, l', hr, hs'⟩
  select := by
    rintro E s _ c c' hE ⟨l, rfl, hs⟩
    obtain ⟨hrc, hid, l', hr, hs'⟩ := queue_select .priority ⟨priorityKeys, s.deadline⟩ s.splitConfig
      hE (prioritySelectNext_reference hH hE hs c) c'
    exact ⟨hrc, hid, l', hr, hs'⟩
  config := by
    rintro s _ config ⟨l, rfl, hs⟩
    exact ⟨rfl, rfl, l, rfl, hs⟩
  priorityChanged := by
    rintro E s _ id priority c c' hE ⟨l, rfl, hs⟩
    have hP := priority_policyInv hH True
    have hchanged : Reprioritizes (PriorityInv True t) l id priority
        (priorityOnTaskPriorityChanged H E s id priority c) :=
      hP.priorityChanged (fun _ => hE.within (UInt64.le_refl t)) hs
    have hrc : (priorityOnTaskPriorityChanged H E s id priority c).rc =
        if id ∉ taskIds l then .errNotFound else .ok :=
      flatPriorityChanged_rc hH priorityCompare_reads hs.thresholds hE hs.flat id priority c
    have hcode : (priorityOnTaskPriorityChanged H E s id priority c).rc =
        if Builtin.priority.looksUp ∧ id ∉ taskIds l then .errNotFound else .ok := by
      simpa only [Builtin.looksUp, true_and] using hrc
    obtain ⟨hsame, l', hr, hs'⟩ := queue_priorityChanged (E := E) .priority
      ⟨priorityKeys, s.deadline⟩ s.splitConfig hchanged hcode c'
    exact ⟨hsame, l', hr, hs'⟩
  started := by
    rintro E s _ id c c' hE ⟨l, rfl, hs⟩
    exact ⟨rfl, l, rfl, hs⟩
  finished := by
    rintro E s _ id state c c' hE ⟨l, rfl, hs⟩
    have hfinished : Finishes (PriorityInv True t) l id (priorityOnTaskFinished H s id c) :=
      ⟨(flatFinished_finishes hH priorityCompare_reads hs.flat id c).1,
        (flatFinished_finishes hH priorityCompare_reads hs.flat id c).2, hs.thresholds⟩
    obtain ⟨hrc, l', hr, hs'⟩ := queue_finished (E := E) .priority ⟨priorityKeys, s.deadline⟩
      s.splitConfig hfinished state c'
    exact ⟨hrc, l', hr, hs'⟩

end QhwScheduler
