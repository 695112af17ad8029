import QhwScheduler.Policy.OrderKey

/-!
# The refresh queue

`qhw_deadline_refresh.c`: a heap over the ready tasks whose effective priority
will change at a known time, the soonest first.

* `deadlineRefreshInsert`, `deadlineRefreshRemove`, `deadlineRefreshPopExpired` —
  the operations; the last two also write the refresh time of the item.
* `RefreshOk` — which tasks the heap holds; each operation keeps it.
* `RefreshOk.popExpired_none` — when nothing has expired at the root, nothing has.
-/

namespace QhwScheduler

open Foundations
open Std (TransCmp ReflCmp)

/-- `refresh_compare`. -/
def refreshCompare (left right : ReadyTask) : Ordering :=
  (compareAsc left.nextRefreshNs right.nextRefreshNs).then
    ((compareAsc left.seq right.seq).then (compareAsc left.desc.taskId right.desc.taskId))

/-- `qhw_deadline_refresh_init`; `none` is `QHW_SCHED_ERR_NO_MEMORY`. -/
def deadlineRefreshInit (E : Env) (c : Cursor) : Option (Heap TaskId) × Cursor :=
  if !E.alloc c.allocs then (none, c.alloc) else (some Heap.empty, c.alloc)

/-- Result code, heap and cursor after an insertion. -/
structure RefreshResult where
  rc : Rc
  heap : Heap TaskId
  cursor : Cursor

/-- `qhw_deadline_refresh_insert`. -/
def deadlineRefreshInsert (H : HeapOps) (E : Env) (mem : Memory) (heap : Heap TaskId) (id : TaskId)
    (c : Cursor) : RefreshResult :=
  let heap := heap.setIndex id none
  if (mem id).nextRefreshNs = deadlineBoostNever then ⟨.ok, heap, c⟩
  else
    let r := heapPush H E (onMemory refreshCompare mem) heap id c
    if !r.ok then ⟨.errNoMemory, r.heap.setIndex id none, r.cursor⟩ else ⟨.ok, r.heap, r.cursor⟩

/-- An item that waits for no refresh. -/
def ReadyTask.unscheduled (t : ReadyTask) : ReadyTask := { t with nextRefreshNs := deadlineBoostNever }

/-- `qhw_deadline_refresh_remove`. -/
def deadlineRefreshRemove (H : HeapOps) (mem : Memory) (heap : Heap TaskId) (id : TaskId) :
    Memory × Heap TaskId :=
  match heap.index id with
  | none => (mem, heap)
  | some _ =>
    (Function.update mem id (mem id).unscheduled,
      (heap.remove H (onMemory refreshCompare mem) id).2.setIndex id none)

/-- `qhw_deadline_refresh_pop_expired`. -/
def deadlineRefreshPopExpired (H : HeapOps) (mem : Memory) (heap : Heap TaskId) (nowNs : UInt64) :
    Option (TaskId × Memory × Heap TaskId) :=
  match heap.items.head? with
  | none => none
  | some id =>
    if (mem id).nextRefreshNs > nowNs then none
    else
      some (id, Function.update mem id (mem id).unscheduled,
        (heap.pop H (onMemory refreshCompare mem)).setIndex id none)

/-! ## What the heap holds -/

instance refreshCompare_transCmp : TransCmp refreshCompare := by
  have hlex : refreshCompare = lexCompare
      [fun a b => compareAsc a.nextRefreshNs b.nextRefreshNs, fun a b => compareAsc a.seq b.seq,
        fun a b => compareAsc a.desc.taskId b.desc.taskId] := by
    funext a b
    rw [lexCompare_cons, lexCompare_cons, lexCompare_cons]
    show refreshCompare a b = _
    rw [show lexCompare [] a b = Ordering.eq from rfl, Ordering.then_eq]
    rfl
  rw [hlex]
  refine lexCompare_transCmp _ ?_
  intro c hc
  simp only [List.mem_cons, List.not_mem_nil, or_false] at hc
  rcases hc with rfl | rfl | rfl
  · exact transCmp_comap compareAsc ReadyTask.nextRefreshNs
  · exact transCmp_comap compareAsc ReadyTask.seq
  · exact transCmp_comap compareAsc fun t : ReadyTask => t.desc.taskId

theorem refreshCompare_le {a b : ReadyTask} (h : (refreshCompare a b).isLE) :
    a.nextRefreshNs ≤ b.nextRefreshNs := by
  by_contra hlt
  have hlt := UInt64.not_le.1 hlt
  have hne : a.nextRefreshNs ≠ b.nextRefreshNs := by
    intro he
    rw [he] at hlt
    exact UInt64.lt_irrefl _ hlt
  have hgt : compareAsc a.nextRefreshNs b.nextRefreshNs = .gt := by
    rw [compareAsc, if_neg hne, if_neg fun hab => UInt64.lt_irrefl _ (UInt64.lt_trans hlt hab)]
  rw [refreshCompare, hgt] at h
  simp at h

/-- The heap holds exactly these tasks, and every other one is marked as not in it. -/
structure RefreshOk (mem : Memory) (heap : Heap TaskId) (S : Set TaskId) : Prop where
  holds : heap.Holds (onMemory refreshCompare mem) S
  exact : heap.Exact

section Ops

variable {H : HeapOps} {E : Env} {mem mem' : Memory} {heap : Heap TaskId} {S : Set TaskId}
  {id : TaskId} {c : Cursor} {nowNs : UInt64}

theorem refreshOk_empty (mem : Memory) : RefreshOk mem Heap.empty ∅ :=
  ⟨Heap.holds_empty _, Heap.exact_empty⟩

/-- Items that are not in the heap can be written. -/
theorem RefreshOk.congr (hr : RefreshOk mem heap S) (hmem : ∀ x ∈ S, mem' x = mem x) :
    RefreshOk mem' heap S :=
  ⟨hr.holds.congr fun x hx y hy => by rw [onMemory, onMemory, hmem x hx, hmem y hy], hr.exact⟩

/-- The refresh times decide where a task stands. -/
theorem RefreshOk.congr_next (hr : RefreshOk mem heap S)
    (hmem : ∀ x ∈ S, (mem' x).nextRefreshNs = (mem x).nextRefreshNs ∧ (mem' x).seq = (mem x).seq ∧
      (mem' x).desc = (mem x).desc) : RefreshOk mem' heap S := by
  refine ⟨hr.holds.congr fun x hx y hy => ?_, hr.exact⟩
  obtain ⟨hxn, hxs, hxd⟩ := hmem x hx
  obtain ⟨hyn, hys, hyd⟩ := hmem y hy
  rw [onMemory, onMemory, refreshCompare, refreshCompare, hxn, hxs, hxd, hyn, hys, hyd]

theorem RefreshOk.setIndex (hr : RefreshOk mem heap S) (hid : id ∉ S) :
    RefreshOk mem (heap.setIndex id none) S := by
  refine ⟨hr.holds.setIndex hid none, ?_⟩
  intro x hx
  rw [Heap.setIndex_index]
  split
  · rfl
  · exact hr.exact x hx

variable (hH : H.Lawful)

include hH

/-- A removal takes the task out, wherever it stands. -/
theorem RefreshOk.remove (hr : RefreshOk mem heap S) (id : TaskId) :
    let r := deadlineRefreshRemove H mem heap id
    RefreshOk r.1 r.2 (S \ {id}) ∧ (∀ x, x ≠ id → r.1 x = mem x) ∧
      (r.1 id = mem id ∨ r.1 id = (mem id).unscheduled) ∧
      (id ∈ S → r.2.items.length < r.2.peak) := by
  have hmem := (hr.exact.mem_iff hr.holds.sound id).symm.trans (hr.holds.mem id)
  dsimp only
  unfold deadlineRefreshRemove
  cases hidx : heap.index id with
  | none =>
    have hid : id ∉ S := fun h => (hmem.2 h) hidx
    rw [Set.sdiff_singleton_eq_self hid]
    exact ⟨hr, fun _ _ => rfl, Or.inl rfl, fun h => absurd h hid⟩
  | some p =>
    have hid : id ∈ S := hmem.1 (by simp [hidx])
    obtain ⟨-, hholds, hroom⟩ := (hr.holds.loose id).remove hH hid
    have hnot : id ∉ S \ {id} := by simp
    have hout : RefreshOk mem
        ((heap.remove H (onMemory refreshCompare mem) id).2.setIndex id none) (S \ {id}) :=
      ⟨hholds.setIndex hnot none, hr.exact.remove hH hr.holds.sound ((hr.holds.mem id).2 hid)⟩
    exact ⟨hout.congr fun x hx => Function.update_of_ne hx.2 _ _,
      fun x hx => Function.update_of_ne hx _ _, Or.inr (Function.update_self _ _ _), fun _ => hroom⟩

/-- An insertion adds the task unless it waits for no refresh, and fails only
when the heap has to outgrow its largest size. -/
theorem RefreshOk.insert (hr : RefreshOk mem heap S) (hid : id ∉ S) (E : Env) (c : Cursor) :
    let r := deadlineRefreshInsert H E mem heap id c
    (r.rc = .ok ∧ RefreshOk mem r.heap
        {x | x ∈ S ∨ x = id ∧ (mem id).nextRefreshNs ≠ deadlineBoostNever}) ∨
      (r.rc = .errNoMemory ∧ RefreshOk mem r.heap S ∧ ¬ heap.items.length < heap.peak ∧
        (¬ ∀ n, E.alloc n = true) ∧ (mem id).nextRefreshNs ≠ deadlineBoostNever) := by
  have hset := hr.setIndex hid
  dsimp only
  unfold deadlineRefreshInsert
  dsimp only
  split
  · next hnever =>
    refine Or.inl ⟨rfl, ?_⟩
    simpa [hnever] using hset
  · next hnext =>
    split
    · next hpush =>
      have hpush : (heapPush H E (onMemory refreshCompare mem) (heap.setIndex id none) id c).ok =
          false := by simpa using hpush
      refine Or.inr ⟨rfl, ?_, ?_, ?_, hnext⟩
      · rw [heapPush_failed hpush]
        exact hset.setIndex hid
      · intro hroom
        have hroom : (heap.setIndex id none).items.length < (heap.setIndex id none).peak := hroom
        rw [heapPush_room hroom] at hpush
        simp at hpush
      · intro ha
        rw [heapPush_alloc ha] at hpush
        simp at hpush
    · next hpush =>
      refine Or.inl ⟨rfl, ?_⟩
      rw [heapPush_ok (by simpa using hpush)]
      have heq : {x | x ∈ S ∨ x = id ∧ (mem id).nextRefreshNs ≠ deadlineBoostNever} =
          Insert.insert id S := by
        ext x
        simp [hnext, or_comm]
      rw [heq]
      exact ⟨hset.holds.push hH hid, hset.exact.push hH⟩

omit hH in
/-- When the root has not expired, nothing has. -/
theorem RefreshOk.popExpired_none (hr : RefreshOk mem heap S)
    (hp : deadlineRefreshPopExpired H mem heap nowNs = none) :
    ∀ x ∈ S, nowNs < (mem x).nextRefreshNs := by
  intro x hx
  unfold deadlineRefreshPopExpired at hp
  split at hp
  · next hnil =>
    rw [hr.holds.empty_iff] at hnil
    simp [hnil] at hx
  · next root hroot =>
    split at hp
    · next hlater =>
      exact UInt64.lt_of_lt_of_le hlater (refreshCompare_le (hr.holds.root_le hroot x hx))
    · simp at hp

theorem RefreshOk.popExpired_some {mem' : Memory} {heap' : Heap TaskId} (hr : RefreshOk mem heap S)
    (hp : deadlineRefreshPopExpired H mem heap nowNs = some (id, mem', heap')) :
    id ∈ S ∧ (mem id).nextRefreshNs ≤ nowNs ∧ RefreshOk mem' heap' (S \ {id}) ∧
      (∀ x, x ≠ id → mem' x = mem x) ∧ mem' id = (mem id).unscheduled ∧
      heap'.items.length < heap'.peak := by
  unfold deadlineRefreshPopExpired at hp
  split at hp
  · simp at hp
  · next root hroot =>
    split at hp
    · simp at hp
    · next hdue =>
      simp only [Option.some.injEq, Prod.mk.injEq] at hp
      obtain ⟨rfl, rfl, rfl⟩ := hp
      obtain ⟨rest, hrest⟩ := List.head?_eq_some_iff.1 hroot
      have hnot : root ∉ S \ {root} := by simp
      have hout : RefreshOk mem
          ((heap.pop H (onMemory refreshCompare mem)).setIndex root none) (S \ {root}) :=
        ⟨(hr.holds.pop hH hroot).setIndex hnot none, hr.exact.pop hH hrest⟩
      exact ⟨hr.holds.root_mem hroot, UInt64.not_lt.1 hdue,
        hout.congr fun x hx => Function.update_of_ne hx.2 _ _,
        fun x hx => Function.update_of_ne hx _ _, Function.update_self _ _ _,
        Heap.pop_room hH hr.holds.sound hrest⟩

end Ops

end QhwScheduler
