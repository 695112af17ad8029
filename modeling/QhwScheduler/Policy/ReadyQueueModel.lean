import QhwScheduler.Foundations.BinaryHeap
import QhwScheduler.Foundations.Run
import QhwScheduler.Policy.OrderKey

/-!
# Ready queues as priority queues

What a ready queue is for: a priority queue whose entries are also found by id.

* `ReadyOp`, `readyNext`, `readyAnswer` — the operations of `qhw_ready_queue.c` as one step.
* `ReadyModel`, `ReadySpec` — the priority queue: the items in the order of their
  insertion, and what each operation may answer.
* `StrictTotal` — the comparisons for which it is one; `orderCompare_strictTotal`.
* `Represents` — how the heap or the list, the hash table and the items stand for them.
* `ready_queue_refines` — every run of a ready queue is one of the priority queue.
-/

namespace QhwScheduler

open Foundations
open Std (TransCmp OrientedCmp)

/-! ## The operations -/

/-- Items and queue. -/
structure ReadyState where
  mem : Memory
  queue : ReadyQueue

/-- A call, and for `change` what the caller writes into the item before it reorders. -/
inductive ReadyOp where
  | insert (E : Env) (c : Cursor) (task : TaskDesc)
  | pop
  | peek
  | find (id : TaskId)
  | remove (id : TaskId)
  | change (id : TaskId) (item : ReadyTask)

/-- A result code, a task or none, or whether a task was found. -/
inductive ReadyAnswer where
  | code (rc : Rc)
  | task (id : Option TaskId)
  | found (b : Bool)
  deriving DecidableEq

/-- The item with everything rewritten but the id and the number. -/
def ReadyTask.rewritten (t item : ReadyTask) : ReadyTask :=
  { item with desc := { item.desc with taskId := t.desc.taskId }, seq := t.seq }

/-- The items while none has been made: each is found under its id. -/
def keyedMemory : Memory := fun x => { (default : ReadyTask) with desc := { taskId := x } }

section Code

variable (H : HeapOps) (cmp : ReadyCompare)

/-- One call. -/
def readyStep (s : ReadyState) : ReadyOp → ReadyAnswer × ReadyState
  | .insert E c task =>
    let r := readyQueueInsert H E cmp s.mem s.queue task c
    (.code r.rc, ⟨r.mem, r.queue⟩)
  | .pop =>
    match readyQueuePop H cmp s.mem s.queue with
    | none => (.task none, s)
    | some (id, queue) => (.task (some id), { s with queue := queue })
  | .peek => (.task (readyQueuePeek s.queue), s)
  | .find id => (.found (readyQueueFind s.queue id), s)
  | .remove id =>
    let r := readyQueueRemove H cmp s.mem s.queue id
    (.code r.1, { s with queue := r.2 })
  | .change id item =>
    if !readyQueueFind s.queue id then (.code .errNotFound, s)
    else
      let mem := Function.update s.mem id ((s.mem id).rewritten item)
      let r := readyQueueReorder H cmp mem s.queue id
      (.code r.1, ⟨mem, r.2⟩)

/-- What the call answers. -/
def readyAnswer (s : ReadyState) (op : ReadyOp) : ReadyAnswer := (readyStep H cmp s op).1

/-- What it leaves. -/
def readyNext (s : ReadyState) (op : ReadyOp) : ReadyState := (readyStep H cmp s op).2

end Code

/-! ## The priority queue -/

/-- The items in the order of their insertion, and a bound of their numbers. -/
structure ReadyModel where
  items : List ReadyTask
  nextSeq : ℕ

namespace ReadyModel

/-- The ids of the items. -/
def ids (m : ReadyModel) : List TaskId := m.items.map fun t => t.desc.taskId

/-- An item is taken out. -/
def without (m : ReadyModel) (id : TaskId) : ReadyModel :=
  { m with items := m.items.filter fun t => t.desc.taskId ≠ id }

/-- An item is rewritten. -/
def changed (m : ReadyModel) (id : TaskId) (item : ReadyTask) : ReadyModel :=
  { m with items := m.items.map fun t => if t.desc.taskId = id then t.rewritten item else t }

end ReadyModel

/-- The item to be served: with a heap the one that comes before all others, with a list
the one that was inserted first. -/
def IsFirst (cmp : ReadyCompare) : ReadyQueueKind → List ReadyTask → ReadyTask → Prop
  | .heap, items, t => t ∈ items ∧ ∀ u ∈ items, u ≠ t → cmp t u = .lt
  | .fifo, items, t => items.head? = some t

/-- What the operations of a priority queue with ids may do and answer. -/
inductive ReadySpec (cmp : ReadyCompare) (kind : ReadyQueueKind) (estimateCost : Bool) :
    ReadyModel → ReadyOp → ReadyAnswer → ReadyModel → Prop where
  | insertPresent {m E c task} (hin : task.taskId ∈ m.ids) :
      ReadySpec cmp kind estimateCost m (.insert E c task) (.code .errExists) m
  /-- A new item gets a number above all earlier ones. -/
  | insert {m E c task} (hnew : task.taskId ∉ m.ids) :
      ReadySpec cmp kind estimateCost m (.insert E c task) (.code .ok)
        ⟨m.items ++ [newReadyTask estimateCost m.nextSeq task], m.nextSeq + 1⟩
  /-- Without memory a number may be lost. -/
  | insertFailed {m E c task nextSeq} (hnew : task.taskId ∉ m.ids)
      (halloc : ¬ ∀ n, E.alloc n = true) (hle : m.nextSeq ≤ nextSeq) :
      ReadySpec cmp kind estimateCost m (.insert E c task) (.code .errNoMemory) ⟨m.items, nextSeq⟩
  | popEmpty {m} (hnil : m.items = []) : ReadySpec cmp kind estimateCost m .pop (.task none) m
  | pop {m t} (hfirst : IsFirst cmp kind m.items t) :
      ReadySpec cmp kind estimateCost m .pop (.task (some t.desc.taskId)) (m.without t.desc.taskId)
  | peekEmpty {m} (hnil : m.items = []) : ReadySpec cmp kind estimateCost m .peek (.task none) m
  | peek {m t} (hfirst : IsFirst cmp kind m.items t) :
      ReadySpec cmp kind estimateCost m .peek (.task (some t.desc.taskId)) m
  | find {m id} : ReadySpec cmp kind estimateCost m (.find id) (.found (decide (id ∈ m.ids))) m
  | removeAbsent {m id} (hout : id ∉ m.ids) :
      ReadySpec cmp kind estimateCost m (.remove id) (.code .errNotFound) m
  | remove {m id} (hin : id ∈ m.ids) :
      ReadySpec cmp kind estimateCost m (.remove id) (.code .ok) (m.without id)
  | changeAbsent {m id item} (hout : id ∉ m.ids) :
      ReadySpec cmp kind estimateCost m (.change id item) (.code .errNotFound) m
  | change {m id item} (hin : id ∈ m.ids) :
      ReadySpec cmp kind estimateCost m (.change id item) (.code .ok) (m.changed id item)

/-! ## Comparisons -/

/-- A strict total order on tasks with distinct ids. -/
structure StrictTotal (cmp : ReadyCompare) : Prop where
  self : ∀ a, cmp a a = .eq
  swap : ∀ a b, a.desc.taskId ≠ b.desc.taskId → cmp a b = (cmp b a).swap
  total : ∀ a b, a.desc.taskId ≠ b.desc.taskId → cmp a b ≠ .eq
  trans : ∀ a b c, a.desc.taskId ≠ b.desc.taskId → b.desc.taskId ≠ c.desc.taskId →
    a.desc.taskId ≠ c.desc.taskId → cmp a b = .lt → cmp b c = .lt → cmp a c = .lt

/-- On items that are found under their ids it is a total preorder. -/
theorem StrictTotal.transCmp {cmp : ReadyCompare} (h : StrictTotal cmp) {mem : Memory}
    (hkeyed : ∀ x, (mem x).desc.taskId = x) : TransCmp (onMemory cmp mem) where
  eq_swap := by
    intro a b
    by_cases hab : a = b
    · subst hab
      rw [onMemory, h.self]
      rfl
    · exact h.swap _ _ (by rwa [hkeyed, hkeyed])
  isLE_trans := by
    intro a b c hle hle'
    by_cases hab : a = b
    · exact hab ▸ hle'
    by_cases hbc : b = c
    · exact hbc ▸ hle
    by_cases hac : a = c
    · subst hac
      rw [onMemory, h.self]
      rfl
    have hlt : ∀ {x y : TaskId}, x ≠ y → (onMemory cmp mem x y).isLE → cmp (mem x) (mem y) = .lt := by
      intro x y hne hle
      have htotal := h.total (mem x) (mem y) (by rwa [hkeyed, hkeyed])
      rw [onMemory] at hle
      cases ho : cmp (mem x) (mem y) with
      | lt => rfl
      | eq => exact absurd ho htotal
      | gt => simp [ho] at hle
    have := h.trans (mem a) (mem b) (mem c) (by rwa [hkeyed, hkeyed]) (by rwa [hkeyed, hkeyed])
      (by rwa [hkeyed, hkeyed]) (hlt hab hle) (hlt hbc hle')
    rw [onMemory, this]
    rfl

/-- Every comparison by keys ends with the ids. -/
theorem orderCompare_strictTotal (config : OrderConfig) : StrictTotal (orderCompare config) where
  self _ := Std.ReflCmp.compare_self
  swap _ _ _ := OrientedCmp.eq_swap
  total := by
    intro a b hne heq
    refine hne ?_
    have hloop : orderCompareLoop config.keys ⟨a, 0⟩ ⟨b, 0⟩ = .eq := heq
    rw [orderCompareLoop_eq_lex, lexCompare_eq_iff] at hloop
    have hid := hloop compareTaskIds (by simp)
    by_contra hid'
    unfold compareTaskIds compareAsc at hid
    rw [if_neg hid'] at hid
    split at hid <;> simp at hid
  trans _ _ _ _ _ _ hlt hlt' := TransCmp.lt_trans hlt hlt'

/-! ## The representation -/

/-- The heap or the list, and the hash table, hold exactly these tasks. -/
def ReadyQueue.Lists (cmp : ReadyCompare) (mem : Memory) (queue : ReadyQueue) (ids : List TaskId) :
    ReadyQueueKind → Prop
  | .heap => queue.HeapOk cmp mem {x | x ∈ ids}
  | .fifo => queue.FifoOk ids

/-- The queue stands for these items: each is found under its id, the containers hold
exactly their ids, and their numbers grow in the order of insertion. -/
structure Represents (cmp : ReadyCompare) (kind : ReadyQueueKind) (estimateCost : Bool)
    (s : ReadyState) (m : ReadyModel) : Prop where
  keyed : ∀ x, (s.mem x).desc.taskId = x
  items : ∀ t ∈ m.items, s.mem t.desc.taskId = t
  nodup : m.ids.Nodup
  lists : s.queue.Lists cmp s.mem m.ids kind
  growing : m.items.Pairwise fun t u => t.seq < u.seq
  below : ∀ t ∈ m.items, t.seq < m.nextSeq
  nextSeq : s.queue.nextSeq = m.nextSeq
  estimateCost_eq : s.queue.estimateCost = estimateCost

section Steps

variable {H : HeapOps} {E : Env} {cmp : ReadyCompare} {kind : ReadyQueueKind} {estimateCost : Bool}
  {s : ReadyState} {m : ReadyModel} {mem mem' : Memory} {queue : ReadyQueue} {ids : List TaskId}
  {id : TaskId} {task : TaskDesc} {c : Cursor} {t : ReadyTask}

theorem ReadyQueue.Lists.byId (hl : queue.Lists cmp mem ids kind) :
    ∀ x, x ∈ queue.byId ↔ x ∈ ids := by
  cases kind with
  | heap => exact ReadyQueue.HeapOk.byId hl
  | fifo => exact ReadyQueue.FifoOk.byId hl

theorem ReadyModel.mem_ids (ht : t ∈ m.items) : t.desc.taskId ∈ m.ids := List.mem_map_of_mem ht

theorem ReadyModel.append_ids (m : ReadyModel) (seq n : ℕ) :
    ReadyModel.ids ⟨m.items ++ [newReadyTask estimateCost seq task], n⟩ = m.ids ++ [task.taskId] :=
  List.map_append

theorem ReadyModel.without_ids (m : ReadyModel) (id : TaskId) :
    (m.without id).ids = m.ids.filter (· ≠ id) := by
  rw [ReadyModel.ids, ReadyModel.ids, List.filter_map]
  rfl

theorem ReadyModel.changed_ids (m : ReadyModel) (id : TaskId) (item : ReadyTask) :
    (m.changed id item).ids = m.ids := by
  rw [ReadyModel.ids, ReadyModel.changed, List.map_map]
  refine List.map_congr_left fun t _ => ?_
  simp only [Function.comp_apply]
  split <;> rfl

/-- The id of an item leads back to the item. -/
theorem Represents.item (hr : Represents cmp kind estimateCost s m) (hid : id ∈ m.ids) :
    s.mem id ∈ m.items := by
  obtain ⟨t, ht, rfl⟩ := List.mem_map.1 hid
  rw [hr.items t ht]
  exact ht

theorem Represents.find (hr : Represents cmp kind estimateCost s m) (id : TaskId) :
    readyQueueFind s.queue id = decide (id ∈ m.ids) := by
  rw [readyQueueFind, decide_eq_decide]
  exact hr.lists.byId id

/-- The first item of the containers is the item to be served. -/
theorem Represents.peek (hcmp : StrictTotal cmp) (hr : Represents cmp kind estimateCost s m) :
    (readyQueuePeek s.queue = none ∧ m.items = []) ∨
      ∃ t, readyQueuePeek s.queue = some t.desc.taskId ∧ IsFirst cmp kind m.items t := by
  have hids : m.ids = [] → m.items = [] := List.map_eq_nil_iff.1
  have hlists := hr.lists
  cases kind with
  | heap =>
    have := hcmp.transCmp hr.keyed
    have hq : s.queue.HeapOk cmp s.mem {x | x ∈ m.ids} := hlists
    cases hpeek : readyQueuePeek s.queue with
    | none =>
      refine Or.inl ⟨rfl, hids (List.eq_nil_iff_forall_not_mem.2 fun x hx => ?_)⟩
      have hin : x ∈ {x | x ∈ m.ids} := hx
      rw [hq.peek_none_iff.1 hpeek] at hin
      exact hin
    | some id =>
      have hid : id ∈ m.ids := hq.peek_mem hpeek
      refine Or.inr ⟨s.mem id, by rw [hr.keyed], hr.item hid, fun u hu hne => ?_⟩
      have hle := hq.peek_le hpeek u.desc.taskId (ReadyModel.mem_ids hu)
      rw [hr.items u hu] at hle
      have htotal := hcmp.total (s.mem id) u fun he => hne (by
        rw [← hr.items u hu, ← he, hr.keyed])
      cases ho : cmp (s.mem id) u with
      | lt => rfl
      | eq => exact absurd ho htotal
      | gt => simp [ho] at hle
  | fifo =>
    have hq : s.queue.FifoOk m.ids := hlists
    rw [hq.peek, ReadyModel.ids, List.head?_map]
    cases hhead : m.items.head? with
    | none => exact Or.inl ⟨rfl, List.head?_eq_none_iff.1 hhead⟩
    | some t => exact Or.inr ⟨t, rfl, hhead⟩

/-- What is left after one item is gone. -/
theorem Represents.without (hr : Represents cmp kind estimateCost s m) {queue : ReadyQueue}
    (hlists : queue.Lists cmp s.mem (m.ids.filter (· ≠ id)) kind)
    (hflag : queue.estimateCost = s.queue.estimateCost) (hseq : queue.nextSeq = s.queue.nextSeq) :
    Represents cmp kind estimateCost { s with queue := queue } (m.without id) := by
  have hsub : (m.without id).items.Sublist m.items := List.filter_sublist
  refine ⟨hr.keyed, fun t ht => hr.items t (hsub.subset ht), ?_, ?_, hr.growing.sublist hsub,
    fun t ht => hr.below t (hsub.subset ht), hseq.trans hr.nextSeq, hflag.trans hr.estimateCost_eq⟩
  · rw [ReadyModel.without_ids]
    exact hr.nodup.filter _
  · rw [ReadyModel.without_ids]
    exact hlists

/-! ## One operation -/

/-- What an insertion of a new task does to the items and the counter. -/
theorem readyQueueInsert_new (hnew : task.taskId ∉ queue.byId) (H : HeapOps) (E : Env)
    (cmp : ReadyCompare) (mem : Memory) (c : Cursor) :
    let r := readyQueueInsert H E cmp mem queue task c
    r.queue.estimateCost = queue.estimateCost ∧
    (r.mem = mem ∨ r.mem = Function.update mem task.taskId
      (newReadyTask queue.estimateCost queue.nextSeq task)) ∧
    ((r.rc = .ok ∧ r.queue.nextSeq = queue.nextSeq + 1 ∧
        r.mem task.taskId = newReadyTask queue.estimateCost queue.nextSeq task) ∨
      (r.rc = .errNoMemory ∧ queue.nextSeq ≤ r.queue.nextSeq ∧ ¬ ∀ n, E.alloc n = true)) := by
  dsimp only
  unfold readyQueueInsert
  rw [if_neg hnew]
  split
  · next ha => exact ⟨rfl, Or.inl rfl, Or.inr ⟨rfl, le_rfl, fun h => by simp [h] at ha⟩⟩
  · dsimp only
    split
    · next ha => exact ⟨rfl, Or.inr rfl, Or.inr ⟨rfl, Nat.le_succ _, fun h => by simp [h] at ha⟩⟩
    · cases queue.kind with
      | fifo => exact ⟨rfl, Or.inr rfl, Or.inl ⟨rfl, rfl, Function.update_self _ _ _⟩⟩
      | heap =>
        dsimp only
        split
        · next hp =>
          refine ⟨rfl, Or.inr rfl, Or.inr ⟨rfl, Nat.le_succ _, fun h => ?_⟩⟩
          simp [heapPush_alloc h] at hp
        · exact ⟨rfl, Or.inr rfl, Or.inl ⟨rfl, rfl, Function.update_self _ _ _⟩⟩

theorem newReadyTask_keyed (hkeyed : ∀ x, (mem x).desc.taskId = x) (estimateCost : Bool) (seq : ℕ)
    (task : TaskDesc) (x : TaskId) :
    (Function.update mem task.taskId (newReadyTask estimateCost seq task) x).desc.taskId = x := by
  by_cases hx : x = task.taskId
  · rw [hx, Function.update_self]
    rfl
  · rw [Function.update_of_ne hx, hkeyed]

/-- An insertion appends the task to the containers or leaves them. -/
theorem ReadyQueue.Lists.insert (hH : H.Lawful) (hcmp : StrictTotal cmp)
    (hkeyed : ∀ x, (mem x).desc.taskId = x) (hl : queue.Lists cmp mem ids kind) (E : Env)
    (task : TaskDesc) (c : Cursor) :
    let r := readyQueueInsert H E cmp mem queue task c
    (r.rc = .ok ∧ r.queue.Lists cmp r.mem (ids ++ [task.taskId]) kind) ∨
      (r.rc ≠ .ok ∧ r.queue.Lists cmp r.mem ids kind) := by
  cases kind with
  | heap =>
    have hq : queue.HeapOk cmp mem {x | x ∈ ids} := hl
    have := hcmp.transCmp (newReadyTask_keyed hkeyed queue.estimateCost queue.nextSeq task)
    obtain ⟨-, -, -, ⟨hrc, -, -, -, hok⟩ | ⟨hrc, -, hok, -⟩⟩ := hq.insert hH task E c
    · refine Or.inl ⟨hrc, ?_⟩
      have hset : Insert.insert task.taskId {x | x ∈ ids} = {x | x ∈ ids ++ [task.taskId]} := by
        ext x
        simp [or_comm]
      rw [hset] at hok
      exact hok
    · exact Or.inr ⟨hrc, hok⟩
  | fifo =>
    have hq : queue.FifoOk ids := hl
    obtain ⟨-, ⟨hrc, -, -, hok⟩ | ⟨hrc, -, hok⟩⟩ := hq.insert H E cmp mem task c
    · exact Or.inl ⟨hrc, hok⟩
    · exact Or.inr ⟨hrc, hok⟩

/-- **An insertion** is one of the priority queue. -/
theorem represents_insert (hH : H.Lawful) (hcmp : StrictTotal cmp)
    (hr : Represents cmp kind estimateCost s m) (E : Env) (task : TaskDesc) (c : Cursor) :
    ∃ m', ReadySpec cmp kind estimateCost m (.insert E c task)
        (readyAnswer H cmp s (.insert E c task)) m' ∧
      Represents cmp kind estimateCost (readyNext H cmp s (.insert E c task)) m' := by
  by_cases hin : task.taskId ∈ m.ids
  · have hr' : readyQueueInsert H E cmp s.mem s.queue task c = ⟨.errExists, s.mem, s.queue, c⟩ := by
      rw [readyQueueInsert, if_pos ((hr.lists.byId _).2 hin)]
    refine ⟨m, ?_, ?_⟩
    · rw [readyAnswer, readyStep, hr']
      exact .insertPresent hin
    · rw [readyNext, readyStep, hr']
      exact hr
  · have hnew : task.taskId ∉ s.queue.byId := fun h => hin ((hr.lists.byId _).1 h)
    obtain ⟨hflag, hmem, hcase⟩ := readyQueueInsert_new hnew H E cmp s.mem c
    have hlists := hr.lists.insert hH hcmp hr.keyed E task c
    rw [readyAnswer, readyNext, readyStep]
    dsimp only
    generalize readyQueueInsert H E cmp s.mem s.queue task c = r at hflag hmem hcase hlists ⊢
    have hkeyed : ∀ x, (r.mem x).desc.taskId = x := by
      rcases hmem with h | h
      · rw [h]
        exact hr.keyed
      · rw [h]
        exact newReadyTask_keyed hr.keyed _ _ _
    have hoff : ∀ t ∈ m.items, r.mem t.desc.taskId = t := by
      intro t ht
      have hne : t.desc.taskId ≠ task.taskId := fun h => hin (h ▸ ReadyModel.mem_ids ht)
      rcases hmem with h | h
      · rw [h, hr.items t ht]
      · rw [h, Function.update_of_ne hne, hr.items t ht]
    rw [hr.estimateCost_eq, hr.nextSeq] at hcase
    rcases hcase with ⟨hrc, hseq, hitem⟩ | ⟨hrc, hseq, halloc⟩
    · have hlists := (hlists.resolve_right fun h => h.1 hrc).2
      rw [hrc]
      refine ⟨_, .insert hin, hkeyed, ?_, ?_, ?_, ?_, ?_, hseq, hflag.trans hr.estimateCost_eq⟩
      · rw [List.forall_mem_append]
        exact ⟨hoff, by simpa [newReadyTask] using hitem⟩
      · rw [ReadyModel.append_ids, List.nodup_append]
        refine ⟨hr.nodup, by simp, ?_⟩
        rintro x hx y hy rfl
        exact hin (List.mem_singleton.1 hy ▸ hx)
      · rw [ReadyModel.append_ids]
        exact hlists
      · rw [List.pairwise_append]
        refine ⟨hr.growing, List.pairwise_singleton _ _, fun t ht u hu => ?_⟩
        rw [List.mem_singleton.1 hu]
        exact hr.below t ht
      · rw [List.forall_mem_append]
        refine ⟨fun t ht => Nat.lt_succ_of_lt (hr.below t ht), ?_⟩
        simp [newReadyTask]
    · have hfail : r.rc ≠ .ok := by simp [hrc]
      have hlists := (hlists.resolve_left fun h => hfail h.1).2
      rw [hrc]
      refine ⟨⟨m.items, r.queue.nextSeq⟩, .insertFailed hin halloc hseq, hkeyed, hoff, hr.nodup,
        hlists, hr.growing, fun t ht => lt_of_lt_of_le (hr.below t ht) hseq, rfl,
        hflag.trans hr.estimateCost_eq⟩

theorem setOf_filter_ne (ids : List TaskId) (id : TaskId) :
    {x | x ∈ ids} \ {id} = {x | x ∈ ids.filter (· ≠ id)} := by
  ext x
  simp

/-- The first task leaves the containers. -/
theorem ReadyQueue.Lists.pop (hH : H.Lawful) (hcmp : StrictTotal cmp)
    (hkeyed : ∀ x, (mem x).desc.taskId = x) (hl : queue.Lists cmp mem ids kind) (hnd : ids.Nodup)
    (hp : readyQueuePeek queue = some id) :
    ∃ q', readyQueuePop H cmp mem queue = some (id, q') ∧
      q'.Lists cmp mem (ids.filter (· ≠ id)) kind ∧
      q'.estimateCost = queue.estimateCost ∧ q'.nextSeq = queue.nextSeq := by
  cases kind with
  | heap =>
    have hq : queue.HeapOk cmp mem {x | x ∈ ids} := hl
    have := hcmp.transCmp hkeyed
    obtain ⟨q', hpop, hok, hcounters⟩ := hq.pop hH (fun x _ => hkeyed x) hp
    rw [setOf_filter_ne] at hok
    exact ⟨q', hpop, hok, hcounters⟩
  | fifo =>
    have hq : queue.FifoOk ids := hl
    rw [hq.peek] at hp
    obtain ⟨rest, rfl⟩ := List.head?_eq_some_iff.1 hp
    obtain ⟨q', hpop, hok, hcounters⟩ := hq.pop H cmp hnd (hkeyed id)
    refine ⟨q', hpop, ?_, hcounters⟩
    have hrest : (id :: rest).filter (· ≠ id) = rest := by
      rw [List.filter_cons_of_neg (by simp), List.filter_eq_self]
      intro x hx
      have hne : x ≠ id := fun h => (List.nodup_cons.1 hnd).1 (h ▸ hx)
      simpa using hne
    rw [hrest]
    exact hok

/-- A task leaves the containers, wherever it stands. -/
theorem ReadyQueue.Lists.remove (hH : H.Lawful) (hcmp : StrictTotal cmp)
    (hkeyed : ∀ x, (mem x).desc.taskId = x) (hl : queue.Lists cmp mem ids kind) (hnd : ids.Nodup)
    (hid : id ∈ ids) :
    ∃ q', readyQueueRemove H cmp mem queue id = (.ok, q') ∧
      q'.Lists cmp mem (ids.filter (· ≠ id)) kind ∧
      q'.estimateCost = queue.estimateCost ∧ q'.nextSeq = queue.nextSeq := by
  cases kind with
  | heap =>
    have hq : queue.HeapOk cmp mem {x | x ∈ ids} := hl
    have := hcmp.transCmp hkeyed
    obtain ⟨q', hrem, hok, hcounters⟩ := hq.remove hH hid
    rw [setOf_filter_ne] at hok
    exact ⟨q', hrem, hok, hcounters⟩
  | fifo => exact ReadyQueue.FifoOk.remove H cmp mem hl hnd hid

/-- A task whose item was rewritten is put in its place. -/
theorem ReadyQueue.Lists.reorder (hH : H.Lawful) (hcmp : StrictTotal cmp)
    (hkeyed : ∀ x, (mem' x).desc.taskId = x) (hl : queue.Lists cmp mem ids kind) (hid : id ∈ ids)
    (hmem : ∀ x, x ≠ id → mem' x = mem x) :
    ∃ q', readyQueueReorder H cmp mem' queue id = (.ok, q') ∧ q'.Lists cmp mem' ids kind ∧
      q'.estimateCost = queue.estimateCost ∧ q'.nextSeq = queue.nextSeq := by
  cases kind with
  | heap =>
    have hq : queue.HeapOk cmp mem {x | x ∈ ids} := hl
    have := hcmp.transCmp hkeyed
    exact hq.reorder hH hid hmem
  | fifo =>
    have hq : queue.FifoOk ids := hl
    exact ⟨queue, by rw [readyQueueReorder, hq.kind], hq, rfl, rfl⟩

theorem represents_pop (hH : H.Lawful) (hcmp : StrictTotal cmp)
    (hr : Represents cmp kind estimateCost s m) :
    ∃ m', ReadySpec cmp kind estimateCost m .pop (readyAnswer H cmp s .pop) m' ∧
      Represents cmp kind estimateCost (readyNext H cmp s .pop) m' := by
  rw [readyAnswer, readyNext, readyStep]
  rcases hr.peek hcmp with ⟨hnone, hnil⟩ | ⟨t, hsome, hfirst⟩
  · have hpop : readyQueuePop H cmp s.mem s.queue = none := by rw [readyQueuePop, hnone]
    rw [hpop]
    exact ⟨m, .popEmpty hnil, hr⟩
  · obtain ⟨queue, hpop, hlists, hflag, hseq⟩ :=
      hr.lists.pop hH hcmp hr.keyed hr.nodup hsome
    rw [hpop]
    exact ⟨_, .pop hfirst, hr.without hlists hflag hseq⟩

theorem represents_peek (H : HeapOps) (hcmp : StrictTotal cmp)
    (hr : Represents cmp kind estimateCost s m) :
    ∃ m', ReadySpec cmp kind estimateCost m .peek (readyAnswer H cmp s .peek) m' ∧
      Represents cmp kind estimateCost (readyNext H cmp s .peek) m' := by
  rw [readyAnswer, readyNext, readyStep]
  rcases hr.peek hcmp with ⟨hnone, hnil⟩ | ⟨t, hsome, hfirst⟩
  · rw [hnone]
    exact ⟨m, .peekEmpty hnil, hr⟩
  · rw [hsome]
    exact ⟨m, .peek hfirst, hr⟩

theorem represents_remove (hH : H.Lawful) (hcmp : StrictTotal cmp)
    (hr : Represents cmp kind estimateCost s m) (id : TaskId) :
    ∃ m', ReadySpec cmp kind estimateCost m (.remove id) (readyAnswer H cmp s (.remove id)) m' ∧
      Represents cmp kind estimateCost (readyNext H cmp s (.remove id)) m' := by
  rw [readyAnswer, readyNext, readyStep]
  by_cases hin : id ∈ m.ids
  · obtain ⟨queue, hrem, hlists, hflag, hseq⟩ :=
      hr.lists.remove hH hcmp hr.keyed hr.nodup hin
    rw [hrem]
    exact ⟨_, .remove hin, hr.without hlists hflag hseq⟩
  · have hrem : readyQueueRemove H cmp s.mem s.queue id = (.errNotFound, s.queue) := by
      rw [readyQueueRemove, if_pos fun h => hin ((hr.lists.byId id).1 h)]
    rw [hrem]
    exact ⟨m, .removeAbsent hin, hr⟩

/-- **A change in place** followed by a reordering is one of the priority queue. -/
theorem represents_change (hH : H.Lawful) (hcmp : StrictTotal cmp)
    (hr : Represents cmp kind estimateCost s m) (id : TaskId) (item : ReadyTask) :
    ∃ m', ReadySpec cmp kind estimateCost m (.change id item)
        (readyAnswer H cmp s (.change id item)) m' ∧
      Represents cmp kind estimateCost (readyNext H cmp s (.change id item)) m' := by
  rw [readyAnswer, readyNext, readyStep, hr.find]
  by_cases hin : id ∈ m.ids
  · rw [decide_eq_true hin]
    simp only [Bool.not_true, Bool.false_eq_true, if_false]
    generalize hmem' : Function.update s.mem id ((s.mem id).rewritten item) = mem'
    have hoff : ∀ x, x ≠ id → mem' x = s.mem x := by
      intro x hx
      rw [← hmem', Function.update_of_ne hx]
    have hself : mem' id = (s.mem id).rewritten item := by rw [← hmem', Function.update_self]
    have hkeyed : ∀ x, (mem' x).desc.taskId = x := by
      intro x
      by_cases hx : x = id
      · rw [hx, hself]
        exact hr.keyed id
      · rw [hoff x hx, hr.keyed]
    obtain ⟨queue, hre, hlists, hflag, hseq⟩ := hr.lists.reorder hH hcmp hkeyed hin hoff
    rw [hre]
    have hnumber : ∀ t : ReadyTask,
        (if t.desc.taskId = id then t.rewritten item else t).seq = t.seq := by
      intro t
      split <;> rfl
    refine ⟨_, .change hin, hkeyed, ?_, ?_, ?_, ?_, ?_, hseq.trans hr.nextSeq,
      hflag.trans hr.estimateCost_eq⟩
    · intro u hu
      obtain ⟨t, ht, rfl⟩ := List.mem_map.1 hu
      have hitem := hr.items t ht
      by_cases hid : t.desc.taskId = id
      · rw [if_pos hid]
        show mem' t.desc.taskId = _
        rw [hid] at hitem ⊢
        rw [hself, hitem]
      · rw [if_neg hid]
        show mem' t.desc.taskId = _
        rw [hoff _ hid, hitem]
    · rw [ReadyModel.changed_ids]
      exact hr.nodup
    · rw [ReadyModel.changed_ids]
      exact hlists
    · refine List.pairwise_map.2 (hr.growing.imp fun {t u} hlt => ?_)
      rw [hnumber, hnumber]
      exact hlt
    · intro u hu
      obtain ⟨t, ht, rfl⟩ := List.mem_map.1 hu
      rw [hnumber]
      exact hr.below t ht
  · rw [decide_eq_false hin]
    exact ⟨m, .changeAbsent hin, hr⟩

/-- **One operation** of a ready queue is one of the priority queue it stands for. -/
theorem represents_step (hH : H.Lawful) (hcmp : StrictTotal cmp) (s : ReadyState) (m : ReadyModel)
    (op : ReadyOp) (hr : Represents cmp kind estimateCost s m) :
    ∃ m', ReadySpec cmp kind estimateCost m op (readyAnswer H cmp s op) m' ∧
      Represents cmp kind estimateCost (readyNext H cmp s op) m' := by
  cases op with
  | insert E c task => exact represents_insert hH hcmp hr E task c
  | pop => exact represents_pop hH hcmp hr
  | peek => exact represents_peek H hcmp hr
  | find id =>
    rw [readyAnswer, readyNext, readyStep, hr.find]
    exact ⟨m, .find, hr⟩
  | remove id => exact represents_remove hH hcmp hr id
  | change id item => exact represents_change hH hcmp hr id item

/-- A queue that was just initialised stands for no items. -/
theorem represents_init {queue : ReadyQueue}
    (hinit : (readyQueueInit E kind estimateCost c).1 = some queue) (cmp : ReadyCompare) :
    Represents cmp kind estimateCost ⟨keyedMemory, queue⟩ ⟨[], 1⟩ := by
  have hqueue : queue = ⟨kind, estimateCost, [], Heap.empty, ∅, 1⟩ := by
    unfold readyQueueInit at hinit
    dsimp only at hinit
    split at hinit
    · simp at hinit
    · cases kind with
      | fifo => exact (Option.some.inj hinit).symm
      | heap =>
        dsimp only at hinit
        split at hinit
        · simp at hinit
        · exact (Option.some.inj hinit).symm
  rw [hqueue]
  refine ⟨fun _ => rfl, by simp, List.nodup_nil, ?_, List.Pairwise.nil, by simp, rfl, rfl⟩
  cases kind with
  | heap =>
    have hset : ({x | x ∈ ReadyModel.ids ⟨[], 1⟩} : Set TaskId) = ∅ := by
      ext x
      simp [ReadyModel.ids]
    show ReadyQueue.HeapOk _ _ _ {x | x ∈ ReadyModel.ids ⟨[], 1⟩}
    rw [hset]
    exact ⟨rfl, by simp, Heap.holds_empty _⟩
  | fifo => exact ⟨rfl, by simp [ReadyModel.ids], rfl⟩

end Steps

/-! ## All operations -/

/-- **A ready queue refines a priority queue with ids**: for a comparison that is a strict
total order on tasks with distinct ids, for both kinds of queue, and for any operations with
memory failing anywhere, the answers are those of a run of the priority queue, and the
containers stand for its items.  The insertion of a task that is there changes nothing. -/
theorem ready_queue_refines {H : HeapOps} (hH : H.Lawful) {cmp : ReadyCompare}
    (hcmp : StrictTotal cmp) {kind : ReadyQueueKind} {estimateCost : Bool} {E : Env} {c : Cursor}
    {queue : ReadyQueue} (hinit : (readyQueueInit E kind estimateCost c).1 = some queue)
    (ops : List ReadyOp) :
    let s₀ : ReadyState := ⟨keyedMemory, queue⟩
    let s := run (readyNext H cmp) s₀ ops
    (∃ m, Runs (ReadySpec cmp kind estimateCost) ⟨[], 1⟩ ops
        (outputs (readyNext H cmp) (readyAnswer H cmp) s₀ ops) m ∧
      Represents cmp kind estimateCost s m) ∧
    ∀ E task c, task.taskId ∈ s.queue.byId →
      readyQueueInsert H E cmp s.mem s.queue task c = ⟨.errExists, s.mem, s.queue, c⟩ := by
  intro s₀ s
  refine ⟨run_refines (fun s m op hr => represents_step hH hcmp s m op hr)
    (represents_init hinit cmp) ops, fun E task c hin => ?_⟩
  rw [readyQueueInsert, if_pos hin]

/-- By priority: two tasks come, one of them once more, and the later one overtakes. -/
def overtaking : List ReadyOp :=
  [.insert (.still 0) .start { taskId := 1, priority := 5 },
    .insert (.still 0) .start { taskId := 2, priority := 4 },
    .insert (.still 0) .start { taskId := 2, priority := 9 },
    .change 2 (newReadyTask false 0 { taskId := 2, priority := 6 }), .pop, .remove 2, .pop, .remove 2]

theorem ready_queue_refines_overtaking :
    let cmp := orderCompare ⟨[.priority], {}⟩
    let s₀ : ReadyState := ⟨keyedMemory, ⟨.heap, false, [], Heap.empty, ∅, 1⟩⟩
    ∃ m, Runs (ReadySpec cmp .heap false) ⟨[], 1⟩ overtaking
        [.code .ok, .code .ok, .code .errExists, .code .ok, .task (some 2), .code .errNotFound,
          .task (some 1), .code .errNotFound] m ∧
      Represents cmp .heap false (run (readyNext binaryHeap cmp) s₀ overtaking) m := by
  intro cmp s₀
  have hinit : (readyQueueInit (.still 0) .heap false .start).1 =
      some ⟨.heap, false, [], Heap.empty, ∅, 1⟩ := rfl
  have hanswers : outputs (readyNext binaryHeap cmp) (readyAnswer binaryHeap cmp) s₀ overtaking =
      [.code .ok, .code .ok, .code .errExists, .code .ok, .task (some 2), .code .errNotFound,
        .task (some 1), .code .errNotFound] := by decide +kernel
  rw [← hanswers]
  exact (ready_queue_refines binaryHeap_lawful (orderCompare_strictTotal ⟨[.priority], {}⟩) hinit
    overtaking).1

end QhwScheduler
