import QhwScheduler.Policy.Contract
import QhwScheduler.Policy.DeadlineQueue

/-!
# Policies over one heap

The hooks that the priority plugin and the ordered plugin without a round-robin
key share: one ready queue of the heap kind with a refresh queue beside it.

* `flatSubmit`, `flatSelect`, `flatPriorityChanged`, `flatFinished` — the hooks.
* `FlatOk` — the invariant; with `G` it also says that the priorities are fresh,
  which takes a clock that does not run backwards.
* `flatSubmit_submits`, `flatSelect_selects`, `flatPriorityChanged_spec`,
  `flatFinished_finishes` — the hooks keep it.
* `flatSelect_least` — the task taken is least after the refresh pass.
-/

namespace QhwScheduler

open Foundations DeadlineQueue
open Std (TransCmp)

/-! ## The hooks -/

section Hooks

variable (H : HeapOps) (E : Env) (settings : DeadlineSettings) (cmp : ReadyCompare)

/-- A task is reordered when its effective priority changed. -/
def flatTouch : Touch ReadyQueue := fun mem ready id changed =>
  if changed then readyQueueReorder H cmp mem ready id else (.ok, ready)

/-- `priority_on_task_submit`, `ordered_on_task_submit`. -/
def flatSubmit (q : DeadlineQueue ReadyQueue) (task : TaskDesc) (c : Cursor) :
    HookResult (DeadlineQueue ReadyQueue) :=
  let r := readyQueueInsert H E cmp q.mem q.ready task c
  if r.rc ≠ .ok then ⟨r.rc, { q with mem := r.mem, ready := r.queue }, r.cursor⟩
  else
    -- the new item is marked as not waiting for a refresh
    let q := ⟨r.mem, q.refresh.setIndex task.taskId none, r.queue⟩
    if !readyQueueFind q.ready task.taskId then ⟨.errState, q, r.cursor⟩
    else
      let f := refreshTask H E settings (flatTouch H cmp) q task.taskId r.cursor
      if f.rc ≠ .ok then
        let (mem, refresh) := deadlineRefreshRemove H f.state.mem f.state.refresh task.taskId
        let (_, ready) := readyQueueRemove H cmp mem f.state.ready task.taskId
        ⟨f.rc, ⟨mem, refresh, ready⟩, f.cursor⟩
      else ⟨.ok, f.state, f.cursor⟩

/-- `priority_select_next`, `ordered_select_next`. -/
def flatSelect (q : DeadlineQueue ReadyQueue) (c : Cursor) :
    SelectResult (DeadlineQueue ReadyQueue) :=
  let r := refreshExpired H E settings (flatTouch H cmp) q c
  if r.rc ≠ .ok then ⟨r.rc, invalidTaskId, r.state, r.cursor⟩
  else
    let (mem, refresh) :=
      match readyQueuePeek r.state.ready with
      | none => (r.state.mem, r.state.refresh)
      | some id => deadlineRefreshRemove H r.state.mem r.state.refresh id
    match readyQueuePop H cmp mem r.state.ready with
    | none => ⟨.errNotFound, invalidTaskId, ⟨mem, refresh, r.state.ready⟩, r.cursor⟩
    | some (id, ready) => ⟨.ok, id, ⟨mem, refresh, ready⟩, r.cursor⟩

/-- `priority_on_task_priority_changed`, `ordered_on_task_priority_changed`. -/
def flatPriorityChanged (q : DeadlineQueue ReadyQueue) (id : TaskId) (priority : Int64)
    (c : Cursor) : HookResult (DeadlineQueue ReadyQueue) :=
  priorityChanged H E settings (flatTouch H cmp) readyQueueFind q id priority c

/-- `priority_on_task_finished`, `ordered_on_task_finished`. -/
def flatFinished (q : DeadlineQueue ReadyQueue) (id : TaskId) (c : Cursor) :
    HookResult (DeadlineQueue ReadyQueue) :=
  let (mem, refresh) :=
    if readyQueueFind q.ready id then deadlineRefreshRemove H q.mem q.refresh id
    else (q.mem, q.refresh)
  let (rc, ready) := readyQueueRemove H cmp mem q.ready id
  ⟨if rc = .errNotFound then .ok else rc, ⟨mem, refresh, ready⟩, c⟩

end Hooks

/-! ## The invariant -/

/-- The ready queue holds exactly the waiting tasks, in order, numbered as they came. -/
structure FlatReady (cmp : ReadyCompare) (estimateCost : Bool) (l : List TaskDesc) (mem : Memory)
    (ready : ReadyQueue) : Prop where
  heap : ready.HeapOk cmp mem {x | x ∈ taskIds l}
  numbered : Numbered mem l ready.nextSeq
  estimateCost_eq : ready.estimateCost = estimateCost

/-- The invariant of a policy over one heap. -/
structure FlatOk (settings : DeadlineSettings) (cmp : ReadyCompare) (estimateCost : Bool)
    (G : Prop) (t : UInt64) (q : DeadlineQueue ReadyQueue) (l : List TaskDesc) : Prop where
  tracked : Tracked estimateCost q.mem q.refresh l
  ready : FlatReady cmp estimateCost l q.mem q.ready
  fresh : G → Fresh settings t q.mem q.refresh l

section Spec

variable {H : HeapOps} {E : Env} {settings : DeadlineSettings} {cmp : ReadyCompare}
  {estimateCost : Bool} {G : Prop} {t : UInt64} {q : DeadlineQueue ReadyQueue} {l : List TaskDesc}
  {mem mem' : Memory} {ready : ReadyQueue} {id : TaskId} {task : TaskDesc} {c : Cursor}

theorem FlatReady.frame (hcmp : cmp.Reads) (hr : FlatReady cmp estimateCost l mem ready)
    (hmem : ∀ x ∈ taskIds l, SameOrder (mem x) (mem' x)) :
    FlatReady cmp estimateCost l mem' ready :=
  ⟨hr.heap.congr fun x hx y hy => hcmp _ _ _ _ (hmem x hx) (hmem y hy),
    hr.numbered.congr fun _ hd => (hmem _ (mem_taskIds_of_mem hd)).seq, hr.estimateCost_eq⟩

/-- The invariant of the queue depends on the ids only. -/
theorem FlatReady.of_ids {l' : List TaskDesc} (hr : FlatReady cmp estimateCost l mem ready)
    (hids : taskIds l' = taskIds l) : FlatReady cmp estimateCost l' mem ready :=
  ⟨hids ▸ hr.heap, hr.numbered.of_ids hids, hr.estimateCost_eq⟩

variable [TransCmp cmp]

theorem flat_touches (estimateCost : Bool) (l : List TaskDesc) (hH : H.Lawful) (hcmp : cmp.Reads) :
    Touches (flatTouch H cmp) (FlatReady cmp estimateCost l) l where
  frame := FlatReady.frame hcmp
  touch := by
    intro mem mem' ready id hr hid hoff hsame
    unfold flatTouch
    by_cases heff : (mem id).effectivePriority = (mem' id).effectivePriority
    · refine ⟨ready, by simp [heff], hr.frame hcmp fun x _ => ?_⟩
      by_cases hx : x = id
      · rw [hx]
        exact ⟨hsame.desc, heff.symm, hsame.estimatedCost, hsame.seq⟩
      · rw [hoff x hx]
        exact SameOrder.refl _
    · obtain ⟨ready', hreorder, hheap, hflag, hseq⟩ := hr.heap.reorder hH hid hoff
      refine ⟨ready', by simp [heff, hreorder], hheap, ?_, hflag.trans hr.estimateCost_eq⟩
      rw [hseq]
      refine hr.numbered.congr fun d _ => ?_
      by_cases hx : d.taskId = id
      · rw [hx]
        exact hsame.seq
      · rw [hoff _ hx]

omit [TransCmp cmp] in
theorem setOf_withoutTask (l : List TaskDesc) (id : TaskId) :
    {x | x ∈ taskIds l} \ {id} = {x | x ∈ taskIds (withoutTask id l)} := by
  ext x
  exact mem_taskIds_withoutTask.symm

omit [TransCmp cmp] in
/-- The queue after a task left it. -/
theorem FlatReady.without {ready' : ReadyQueue} (hr : FlatReady cmp estimateCost l mem ready)
    (hheap : ready'.HeapOk cmp mem ({x | x ∈ taskIds l} \ {id}))
    (hflag : ready'.estimateCost = ready.estimateCost) (hseq : ready'.nextSeq = ready.nextSeq) :
    FlatReady cmp estimateCost (withoutTask id l) mem ready' := by
  refine ⟨setOf_withoutTask l id ▸ hheap, ?_, hflag.trans hr.estimateCost_eq⟩
  rw [hseq]
  exact hr.numbered.sublist withoutTask_sublist

/-- A task leaves both queues. -/
theorem flat_leave (hH : H.Lawful) (hcmp : cmp.Reads)
    (ht : Tracked estimateCost q.mem q.refresh l) (hr : FlatReady cmp estimateCost l q.mem q.ready)
    (hid : id ∈ taskIds l) :
    let m := deadlineRefreshRemove H q.mem q.refresh id
    let r := readyQueueRemove H cmp m.1 q.ready id
    r.1 = .ok ∧ Tracked estimateCost m.1 m.2 (withoutTask id l) ∧
      FlatReady cmp estimateCost (withoutTask id l) m.1 r.2 := by
  obtain ⟨htr, hsame⟩ := ht.leave hH id
  have hr' := hr.frame hcmp fun x _ => hsame x
  obtain ⟨ready', hrem, hheap, hflag, hseq⟩ := hr'.heap.remove hH hid
  dsimp only
  rw [hrem]
  exact ⟨rfl, htr, hr'.without hheap hflag hseq⟩

/-- A task enters the queue, or nothing changes but counters and an unused item. -/
theorem FlatReady.insert (hH : H.Lawful) (hr : FlatReady cmp estimateCost l mem ready) (E : Env)
    (task : TaskDesc) (c : Cursor) :
    let r := readyQueueInsert H E cmp mem ready task c
    (∀ x, x ≠ task.taskId → r.mem x = mem x) ∧
    ((r.rc = .ok ∧ task.taskId ∉ taskIds l ∧
        r.mem task.taskId = newReadyTask estimateCost ready.nextSeq task ∧
        FlatReady cmp estimateCost (l ++ [task]) r.mem r.queue) ∨
      (r.rc ≠ .ok ∧ (∀ x ∈ taskIds l, r.mem x = mem x) ∧ FlatReady cmp estimateCost l r.mem r.queue ∧
        readyQueuePeek r.queue = readyQueuePeek ready)) := by
  obtain ⟨hflag, hle, hoff, hins⟩ := hr.heap.insert hH task E c
  dsimp only
  generalize readyQueueInsert H E cmp mem ready task c = r at hflag hle hoff hins ⊢
  refine ⟨hoff, ?_⟩
  rcases hins with ⟨hrc, hnot, hitem, hseq, hheap⟩ | ⟨hrc, hon, hheap, hpeek⟩
  · rw [hr.estimateCost_eq] at hitem
    have hset : Insert.insert task.taskId {x | x ∈ taskIds l} = {x | x ∈ taskIds (l ++ [task])} := by
      ext x
      simp [or_comm]
    refine Or.inl ⟨hrc, hnot, hitem, hset ▸ hheap, ?_, hflag.trans hr.estimateCost_eq⟩
    rw [hseq]
    exact hr.numbered.insert hnot hoff (by rw [hitem]; rfl)
  · refine Or.inr ⟨hrc, hon, ⟨hheap, ?_, hflag.trans hr.estimateCost_eq⟩, hpeek⟩
    exact (hr.numbered.congr fun _ hd =>
      congrArg ReadyTask.seq (hon _ (mem_taskIds_of_mem hd))).mono hle

/-! ## The hooks keep the invariant -/

end Spec

theorem flatOk_nil {settings : DeadlineSettings} {cmp : ReadyCompare} {estimateCost : Bool} {G : Prop}
    {t : UInt64} {E : Env} {ready : ReadyQueue} {c c' c₁ c₁' : Cursor} {refresh : Heap TaskId}
    (hready : readyQueueInit E .heap estimateCost c = (some ready, c'))
    (hrefresh : deadlineRefreshInit E c₁ = (some refresh, c₁')) :
    FlatOk settings cmp estimateCost G t (freshQueue refresh ready) [] := by
  have hempty : refresh = Heap.empty := by
    unfold deadlineRefreshInit at hrefresh
    split at hrefresh
    · simp at hrefresh
    · simp only [Prod.mk.injEq, Option.some.injEq] at hrefresh
      exact hrefresh.1.symm
  obtain ⟨hheap, hflag, -⟩ := ReadyQueue.init_heap hready cmp (freshQueue refresh ready).mem
  refine ⟨⟨mirrored_nil _ _, ∅, ?_, by simp⟩, ⟨?_, numbered_nil _ _, hflag⟩, fun _ d hd => ?_⟩
  · rw [freshQueue, hempty]
    exact refreshOk_empty _
  · have hset : ({x | x ∈ taskIds []} : Set TaskId) = ∅ := by
      ext x
      simp
    rw [hset]
    exact hheap
  · simp at hd

theorem FlatOk.mono {settings : DeadlineSettings} {cmp : ReadyCompare} {estimateCost : Bool}
    {G : Prop} {τ t : UInt64} {q : DeadlineQueue ReadyQueue} {l : List TaskDesc}
    (h : FlatOk settings cmp estimateCost G τ q l) (hle : G → τ ≤ t) :
    FlatOk settings cmp estimateCost G t q l :=
  ⟨h.tracked, h.ready, fun hG => (h.fresh hG).mono (hle hG)⟩

section Spec

variable {H : HeapOps} {E : Env} {settings : DeadlineSettings} {cmp : ReadyCompare}
  {estimateCost : Bool} {G : Prop} {τ t : UInt64} {q : DeadlineQueue ReadyQueue}
  {l : List TaskDesc} [TransCmp cmp]

/-- A submission appends the task or changes nothing. -/
theorem flatSubmit_submits (hH : H.Lawful) (hcmp : cmp.Reads) (hE : G → Within τ E t)
    (hq : FlatOk settings cmp estimateCost G t q l) (task : TaskDesc) (c : Cursor) :
    Submits (FlatOk settings cmp estimateCost G t) l task (flatSubmit H E settings cmp q task c) := by
  obtain ⟨ht, hr, hf⟩ := hq
  obtain ⟨hoff, hins⟩ := hr.insert hH E task c
  unfold flatSubmit
  dsimp only
  generalize readyQueueInsert H E cmp q.mem q.ready task c = r at hoff hins ⊢
  rcases hins with ⟨hrc, hnot, hitem, hready⟩ | ⟨hrc, hon, hready, -⟩
  · rw [if_neg (by rw [hrc]; simp)]
    have htr := ht.arrive hnot _ hoff hitem
    have hid : task.taskId ∈ taskIds (l ++ [task]) := by simp
    have hfind : readyQueueFind r.queue task.taskId = true := hready.heap.find_iff.2 hid
    rw [hfind]
    simp only [Bool.not_true, Bool.false_eq_true, if_false]
    have hto := flat_touches estimateCost (l ++ [task]) hH hcmp
    have hbut : G → ∀ d ∈ l ++ [task], d.taskId ≠ task.taskId →
        FreshTask settings t r.mem (q.refresh.setIndex task.taskId none) d := by
      intro hG d hd hne
      have hdl : d ∈ l := by
        rcases List.mem_append.1 hd with h | h
        · exact h
        · exact absurd (by rw [List.mem_singleton.1 h]) hne
      exact (hf hG d hdl).congr (hoff _ hne) Iff.rfl
    generalize hq₁ : (⟨r.mem, q.refresh.setIndex task.taskId none, r.queue⟩ :
      DeadlineQueue ReadyQueue) = q₁
    rw [show r.mem = q₁.mem by rw [← hq₁],
      show q.refresh.setIndex task.taskId none = q₁.refresh by rw [← hq₁]] at htr hbut
    rw [show r.mem = q₁.mem by rw [← hq₁], show r.queue = q₁.ready by rw [← hq₁]] at hready
    obtain ⟨-, -, htf, hrf, -⟩ := refreshTask_spec hH E settings r.cursor
      (FlatReady cmp estimateCost (l ++ [task])) htr hid fun mem' hm hs => hto.touch hready hid hm hs
    have hfresh := fun hG => refreshTask_fresh hH (hE hG) r.cursor
      (FlatReady cmp estimateCost (l ++ [task])) htr hid
      (fun mem' hm hs => hto.touch hready hid hm hs) (hbut hG)
    generalize refreshTask H E settings (flatTouch H cmp) q₁ task.taskId r.cursor = f
      at htf hrf hfresh ⊢
    split
    · next hfail =>
      obtain ⟨-, htl, hrl⟩ := flat_leave (q := f.state) hH hcmp htf hrf hid
      rw [withoutTask_append_self hnot] at htl hrl
      refine Or.inr ⟨hfail, htl, hrl, fun hG d hd => ?_⟩
      have hne : d.taskId ≠ task.taskId := fun h => hnot (h ▸ mem_taskIds_of_mem hd)
      exact (hfresh hG d (List.mem_append_left _ hd) (Or.inr hne)).leave hH htf hne
    · next hok =>
      exact Or.inl ⟨rfl, hnot, htf, hrf, fun hG d hd => hfresh hG d hd (Or.inl (not_not.1 hok))⟩
  · rw [if_pos hrc]
    exact Or.inr ⟨hrc, ht.congr hon, hready, fun hG => (hf hG).congr hon⟩

/-- A priority change takes effect, or nothing changed. -/
theorem flatPriorityChanged_reprioritizes (hH : H.Lawful) (hcmp : cmp.Reads)
    (hconfig : settings.boost.thresholdsRejected = false) (hE : G → Within τ E t)
    (hq : FlatOk settings cmp estimateCost G τ q l) (id : TaskId) (priority : Int64) (c : Cursor) :
    Reprioritizes (FlatOk settings cmp estimateCost G t) l id priority
      (flatPriorityChanged H E settings cmp q id priority c) := by
  obtain ⟨ht, hr, hf⟩ := hq
  have hids : taskIds (reprioritize id priority l) = taskIds l := taskIds_reprioritize
  have hto := flat_touches estimateCost l hH hcmp
  unfold flatPriorityChanged
  by_cases hid : id ∈ taskIds l
  · have hfind : readyQueueFind q.ready id = true := hr.heap.find_iff.2 hid
    obtain ⟨hI, hcase⟩ := priorityChanged_spec hH E settings c hto ht hr readyQueueFind hfind hid
      priority
    have hfresh := fun hG => priorityChanged_fresh hH (hE hG) c hconfig hto ht hr readyQueueFind
      hfind hid priority (hf hG)
    rcases hcase with ⟨hrc, htr⟩ | ⟨hrc, htr, -⟩
    · exact Or.inl ⟨hrc, htr, hI.of_ids hids, fun hG => (hfresh hG).2⟩
    · refine Or.inr ⟨by simp [hrc], htr, hI, fun hG => ?_⟩
      have hok := (hfresh hG).1
      rw [hrc] at hok
      simp at hok
  · have hfind : readyQueueFind q.ready id = false := by
      rw [← Bool.not_eq_true, hr.heap.find_iff]
      exact hid
    simp only [priorityChanged, hfind, Bool.not_false, if_true]
    exact Or.inr ⟨by simp, ht, hr, fun hG => (hf hG).mono (hE hG).mono⟩

/-- A finished task leaves, if it is there. -/
theorem flatFinished_finishes (hH : H.Lawful) (hcmp : cmp.Reads)
    (hq : FlatOk settings cmp estimateCost G t q l) (id : TaskId) (c : Cursor) :
    Finishes (FlatOk settings cmp estimateCost G t) l id (flatFinished H cmp q id c) := by
  obtain ⟨ht, hr, hf⟩ := hq
  unfold flatFinished
  by_cases hid : id ∈ taskIds l
  · have hfind : readyQueueFind q.ready id = true := hr.heap.find_iff.2 hid
    obtain ⟨hrc, htl, hrl⟩ := flat_leave hH hcmp ht hr hid
    rw [if_pos hfind]
    dsimp only
    rw [hrc]
    exact ⟨by simp, htl, hrl, fun hG => (hf hG).leave hH ht id⟩
  · have hfind : readyQueueFind q.ready id = false := by
      rw [← Bool.not_eq_true, hr.heap.find_iff]
      exact hid
    rw [if_neg (by simp [hfind])]
    dsimp only
    rw [hr.heap.remove_absent hid]
    refine ⟨by simp, ?_⟩
    rw [withoutTask_of_not_mem hid]
    exact ⟨ht, hr, hf⟩

/-- The items as the refresh pass of a selection leaves them. -/
def flatRefreshed (H : HeapOps) (E : Env) (settings : DeadlineSettings) (cmp : ReadyCompare)
    (q : DeadlineQueue ReadyQueue) (c : Cursor) : Memory :=
  (refreshExpired H E settings (flatTouch H cmp) q c).state.mem

/-- **A selection takes a task that is least after the refresh pass**; it fails
exactly when no task waits. -/
theorem flatSelect_spec (hH : H.Lawful) (hcmp : cmp.Reads) (hE : G → Within τ E t)
    (hq : FlatOk settings cmp estimateCost G t q l) (c : Cursor) :
    let r := flatSelect H E settings cmp q c
    let m := flatRefreshed H E settings cmp q c
    (r.rc = .errNotFound ∧ l = [] ∧ FlatOk settings cmp estimateCost G t r.state l) ∨
      ∃ d ∈ l, r.rc = .ok ∧ r.taskId = d.taskId ∧
        FlatOk settings cmp estimateCost G t r.state (withoutTask d.taskId l) ∧
        ∀ e ∈ l, (cmp (m d.taskId) (m e.taskId)).isLE := by
  obtain ⟨ht, hr, hf⟩ := hq
  have hto := flat_touches estimateCost l hH hcmp
  obtain ⟨hrc, htr, hrr, -⟩ := refreshExpired_spec hH E settings c hto ht hr
  have hfresh := fun hG => refreshExpired_fresh hH (hE hG) c hto ht hr (hf hG)
  dsimp only
  unfold flatSelect flatRefreshed
  generalize refreshExpired H E settings (flatTouch H cmp) q c = r at hrc htr hrr hfresh ⊢
  dsimp only
  rw [if_neg (by rw [hrc]; simp)]
  cases hpeek : readyQueuePeek r.state.ready with
  | none =>
    have hempty := hrr.heap.peek_none_iff.1 hpeek
    dsimp only
    rw [hrr.heap.pop_none hempty]
    have hnil : l = [] := by
      rw [List.eq_nil_iff_forall_not_mem]
      intro d hd
      have : d.taskId ∈ ({x | x ∈ taskIds l} : Set TaskId) := mem_taskIds_of_mem hd
      rw [hempty] at this
      exact this
    exact Or.inl ⟨rfl, hnil, htr, hrr, hfresh⟩
  | some id =>
    have hid : id ∈ taskIds l := hrr.heap.peek_mem hpeek
    obtain ⟨htl, hsame⟩ := htr.leave hH id
    have hrr' := hrr.frame hcmp fun x _ => hsame x
    have hids : ∀ x ∈ {x | x ∈ taskIds l},
        ((deadlineRefreshRemove H r.state.mem r.state.refresh id).1 x).desc.taskId = x := by
      intro x hx
      rw [(hsame x).desc]
      exact htr.taskId_eq x hx
    obtain ⟨ready', hpop, hheap, hflag, hseq⟩ := hrr'.heap.pop hH hids hpeek
    obtain ⟨d, hd, rfl⟩ := mem_taskIds.1 hid
    dsimp only
    rw [hpop]
    refine Or.inr ⟨d, hd, rfl, rfl, ⟨htl, hrr'.without hheap hflag hseq, ?_⟩, ?_⟩
    · exact fun hG => (hfresh hG).leave hH htr _
    · exact fun e he => hrr.heap.peek_le hpeek _ (mem_taskIds_of_mem he)

/-- With memory and a steady clock the items carry the boost of the clock value
when the selection looks at them, and otherwise what the tasks say. -/
theorem flatRefreshed_current (hH : H.Lawful) (hcmp : cmp.Reads)
    (hconfig : settings.boost.thresholdsRejected = false) (hE : Steady E t)
    (hq : FlatOk settings cmp estimateCost True t q l) (c : Cursor) :
    ∀ d ∈ l,
      (flatRefreshed H E settings cmp q c d.taskId).effectivePriority =
        (d.boosted settings.boost (clockValue settings t)).effectivePriority ∧
      Mirrors estimateCost (flatRefreshed H E settings cmp q c d.taskId) d ∧
      (flatRefreshed H E settings cmp q c d.taskId).seq = (q.mem d.taskId).seq := by
  obtain ⟨ht, hr, hf⟩ := hq
  have hto := flat_touches estimateCost l hH hcmp
  obtain ⟨-, htr, -, hsame⟩ := refreshExpired_spec hH E settings c hto ht hr
  have hcur := (refreshExpired_current hH hE c hconfig hto ht hr (hf trivial)).2
  exact fun d hd => ⟨hcur d hd, htr.mirrored.mirrors d hd, (hsame d.taskId).2.2.2⟩

end Spec

end QhwScheduler
