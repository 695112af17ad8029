import QhwScheduler.Core.Lifecycle

/-!
# QPU accounting

The counters of the QPU against the task table, for one scheduler that is alone
on its QPU.

* `Accounted` — the counters are the numbers of records in the states they
  count, and the slot holds the running task.
* `Accounted.apply` — every event keeps it.
* `qpu_accounting` — it holds in every state of every run, with any plugins.
-/

namespace QhwScheduler

/-- The record of a task that was split. -/
def TaskRecord.IsSplitParent (r : TaskRecord) : Prop := r.childCount ≠ 0

/-- A task that ended in this state, and not by being split. -/
def TaskRecord.EndedAs (state : TaskState) (r : TaskRecord) : Prop :=
  r.state = state ∧ ¬ r.IsSplitParent

instance (state : TaskState) : DecidablePred (TaskRecord.EndedAs state) := fun r =>
  inferInstanceAs (Decidable (r.state = state ∧ ¬ r.childCount ≠ 0))

/-- The QPU counts the records of the table. -/
structure Accounted (L : Ledger) : Prop where
  queued : L.qpu.runtime.queuedCount = L.tasks.number fun r => r.state = .queued
  completed : L.qpu.runtime.completedCount = L.tasks.number (TaskRecord.EndedAs .completed)
  failed : L.qpu.runtime.failedCount = L.tasks.number (TaskRecord.EndedAs .failed)
  cancelled : L.qpu.runtime.cancelledCount = L.tasks.number (TaskRecord.EndedAs .cancelled)
  /-- The slot holds the running task. -/
  slot : ∀ id, (∃ r, taskTableFind L.tasks id = some r ∧ r.state = .running) ↔
    id = L.qpu.runtime.runningTaskId ∧ id ≠ invalidTaskId
  /-- Split parents wait or have ended, and only they wait. -/
  waiting : ∀ id r, taskTableFind L.tasks id = some r → r.state = .waiting → r.IsSplitParent
  parent : ∀ id r, taskTableFind L.tasks id = some r → r.IsSplitParent →
    r.state = .waiting ∨ taskStateIsTerminal r.state

namespace Accounted

variable {L : Ledger} {id : TaskId} {r r' : TaskRecord} {qpu : Qpu}

/-- A new record, with the counters moved by what it counts for. -/
theorem insert (h : Accounted L) (hok : L.tasks.Ok)
    (hnew : taskTableFind L.tasks r.desc.taskId = none)
    (hstate : r.state = .queued ∧ ¬ r.IsSplitParent ∨ r.state = .waiting ∧ r.IsSplitParent)
    (hqpu : qpu.runtime = { L.qpu.runtime with
      queuedCount := L.qpu.runtime.queuedCount + if r.state = .queued then 1 else 0 }) :
    Accounted ⟨L.tasks.insert r, qpu⟩ := by
  have hended : ∀ state, taskStateIsTerminal state → ¬ r.EndedAs state := by
    rintro state hterm ⟨rfl, -⟩
    rcases hstate with ⟨hs, -⟩ | ⟨hs, -⟩ <;> simp [hs, taskStateIsTerminal] at hterm
  have hrun : r.state ≠ .running := by
    rcases hstate with ⟨hs, -⟩ | ⟨hs, -⟩ <;> simp [hs]
  refine ⟨?_, ?_, ?_, ?_, ?_, ?_, ?_⟩
  · rw [hok.number_insert hnew, ← h.queued, hqpu]
  · rw [hok.number_insert hnew, ← h.completed, hqpu, if_neg (hended _ rfl)]
    rfl
  · rw [hok.number_insert hnew, ← h.failed, hqpu, if_neg (hended _ rfl)]
    rfl
  · rw [hok.number_insert hnew, ← h.cancelled, hqpu, if_neg (hended _ rfl)]
    rfl
  · intro x
    rw [hqpu, ← h.slot x]
    simp only [find_insert]
    split
    · next hx => simp [hx, hnew, hrun]
    · rfl
  · intro x y hy hw
    rw [find_insert] at hy
    split at hy
    · obtain rfl := Option.some.inj hy
      rcases hstate with ⟨hs, -⟩ | ⟨-, hp⟩
      · simp [hs] at hw
      · exact hp
    · exact h.waiting x y hy hw
  · intro x y hy hp
    rw [find_insert] at hy
    split at hy
    · obtain rfl := Option.some.inj hy
      rcases hstate with ⟨-, hn⟩ | ⟨hs, -⟩
      · exact absurd hp hn
      · exact Or.inl hs
    · exact h.parent x y hy hp

/-- A counter moves by what a changed record newly and no longer counts for. -/
def Moves (p : TaskRecord → Prop) [DecidablePred p] (r r' : TaskRecord) (before after : ℕ) : Prop :=
  after + (if p r then 1 else 0) = before + if p r' then 1 else 0

theorem Moves.number {p : TaskRecord → Prop} [DecidablePred p] {before after : ℕ} {t : TaskTable}
    (h : Moves p r r' before after) (hok : t.Ok) (hr : taskTableFind t id = some r)
    (hb : before = t.number p) : after = (t.update id r').number p := by
  have hn := TaskTable.Ok.number_update p hok r' hr
  unfold Moves at h
  omega

/-- A changed record, with the counters moved by what it no longer and what it
newly counts for. -/
theorem update (h : Accounted L) (hok : L.tasks.Ok) (hr : taskTableFind L.tasks id = some r)
    (hqueued : Moves (fun r => r.state = .queued) r r' L.qpu.runtime.queuedCount
      qpu.runtime.queuedCount)
    (hcompleted : Moves (TaskRecord.EndedAs .completed) r r' L.qpu.runtime.completedCount
      qpu.runtime.completedCount)
    (hfailed : Moves (TaskRecord.EndedAs .failed) r r' L.qpu.runtime.failedCount
      qpu.runtime.failedCount)
    (hcancelled : Moves (TaskRecord.EndedAs .cancelled) r r' L.qpu.runtime.cancelledCount
      qpu.runtime.cancelledCount)
    (hslot : r'.state = .running ↔ id = qpu.runtime.runningTaskId)
    (hothers : ∀ x, x ≠ id → x ≠ invalidTaskId →
      (x = qpu.runtime.runningTaskId ↔ x = L.qpu.runtime.runningTaskId))
    (hwaiting : r'.state = .waiting → r'.IsSplitParent)
    (hparent : r'.IsSplitParent → r'.state = .waiting ∨ taskStateIsTerminal r'.state) :
    Accounted ⟨L.tasks.update id r', qpu⟩ := by
  have hvalid := hok.valid id r hr
  refine ⟨hqueued.number hok hr h.queued, hcompleted.number hok hr h.completed,
    hfailed.number hok hr h.failed, hcancelled.number hok hr h.cancelled, ?_, ?_, ?_⟩
  · intro x
    by_cases hxid : x = id
    · subst hxid
      simp [hslot, hvalid]
    · by_cases hx0 : x = invalidTaskId
      · subst hx0
        simp only [find_update, if_neg hxid]
        constructor
        · rintro ⟨y, hy, -⟩
          exact absurd rfl (hok.valid _ y hy)
        · exact fun h => absurd rfl h.2
      · simp only [find_update, if_neg hxid, hothers x hxid hx0]
        exact h.slot x
  · intro x y hy hw
    rw [find_update] at hy
    split at hy
    · obtain rfl := Option.some.inj hy
      exact hwaiting hw
    · exact h.waiting x y hy hw
  · intro x y hy hp
    rw [find_update] at hy
    split at hy
    · obtain rfl := Option.some.inj hy
      exact hparent hp
    · exact h.parent x y hy hp

/-- A task with a record runs exactly when the slot holds its id. -/
theorem running_iff (h : Accounted L) (hok : L.tasks.Ok) (hr : taskTableFind L.tasks id = some r) :
    r.state = .running ↔ id = L.qpu.runtime.runningTaskId := by
  have hslot := h.slot id
  simp only [hr, Option.some.injEq, exists_eq_left'] at hslot
  simp [hslot, hok.valid id r hr]

/-- A task that neither waits nor has ended was not split. -/
theorem not_isSplitParent (h : Accounted L) (hr : taskTableFind L.tasks id = some r)
    (hw : r.state ≠ .waiting) (hterm : taskStateIsTerminal r.state = false) : ¬ r.IsSplitParent := by
  intro hp
  rcases h.parent id r hr hp with hs | hs
  · exact hw hs
  · simp [hterm] at hs

theorem queuedCount_pos (h : Accounted L) (hok : L.tasks.Ok)
    (hr : taskTableFind L.tasks id = some r) (hq : r.state = .queued) :
    0 < L.qpu.runtime.queuedCount := by
  rw [h.queued]
  exact TaskTable.number_pos (p := fun r => r.state = .queued) hok hr hq

end Accounted

/-! ## The events -/

theorem Accounted.acceptAll {L : Ledger} {seq : ℕ} {children : List TaskDesc} (h : Accounted L)
    (hok : L.tasks.Ok) (hnd : (children.map TaskDesc.taskId).Nodup)
    (hnew : ∀ d ∈ children, taskTableFind L.tasks d.taskId = none)
    (hid : ∀ d ∈ children, d.taskId ≠ invalidTaskId) : Accounted (L.acceptAll seq children) := by
  induction children generalizing L seq with
  | nil => exact h
  | cons x xs ih =>
    rw [List.map_cons, List.nodup_cons] at hnd
    have hx := hnew x (by simp)
    refine ih ?_ (accept_ok hok hx (hid x (by simp))) hnd.2 ?_ fun d hd => hid d (by simp [hd])
    · exact h.insert hok hx (Or.inl ⟨rfl, by simp [TaskRecord.IsSplitParent]⟩) rfl
    · intro d hd
      have hne : d.taskId ≠ x.taskId := fun h => hnd.1 (h ▸ List.mem_map_of_mem hd)
      simp [Ledger.accept, hne, hnew d (by simp [hd])]

/-- A counted child changes the state of its parent only. -/
theorem Accounted.updateParent {L : Ledger} {child : TaskRecord} {state : TaskState}
    (h : Accounted L) (hok : L.tasks.Ok) :
    Accounted ⟨updateParentAfterChildLocked L.tasks child state, L.qpu⟩ := by
  unfold updateParentAfterChildLocked
  split
  · exact h
  · split
    · exact h
    · next p hp =>
      split
      · exact h
      · next hw =>
        have hw' : p.state = .waiting := not_not.1 hw
        have hsplit := h.waiting _ p hp hw'
        have hcount : ∀ q : TaskRecord, q.childCount = p.childCount → q.IsSplitParent := by
          intro q hq
          rw [TaskRecord.IsSplitParent, hq]
          exact hsplit
        have hchild : (p.countChild state).childCount = p.childCount := by
          cases state <;> rfl
        have hended : ∀ st, ¬ TaskRecord.EndedAs st p := fun st he => he.2 hsplit
        have hended' : ∀ st, ¬ TaskRecord.EndedAs st
            { p.countChild state with state := (p.countChild state).parentState } :=
          fun st he => he.2 (hcount _ hchild)
        have hslot : child.desc.parentTaskId ≠ L.qpu.runtime.runningTaskId := by
          rw [ne_eq, ← h.running_iff hok hp, hw']
          simp
        refine h.update hok hp ?_ ?_ ?_ ?_ ?_ (fun _ _ _ => Iff.rfl) (fun _ => hcount _ hchild)
          (fun _ => parentState_cases _)
        · simp [Accounted.Moves, hw', parentState_ne _ .queued nofun rfl]
        · simp [Accounted.Moves, hended, hended']
        · simp [Accounted.Moves, hended, hended']
        · simp [Accounted.Moves, hended, hended']
        · simp [parentState_ne _ .running nofun rfl, hslot]

/-- **Events keep the accounts.** -/
theorem Accounted.apply {L : Ledger} {e : Event} (hok : L.tasks.Ok) (h : Accounted L)
    (hallowed : e.Allowed L) : Accounted (e.apply L) := by
  cases e with
  | idle => exact h
  | accept task seq =>
    exact h.insert hok hallowed.1 (Or.inl ⟨rfl, by simp [TaskRecord.IsSplitParent]⟩) rfl
  | acceptSplit parent children seq =>
    obtain ⟨hnew, hid, hfresh, hne⟩ := hallowed
    have hlen : children.length ≠ 0 := fun h0 => hne (List.length_eq_zero_iff.1 h0)
    refine Accounted.acceptAll (h.insert hok hnew (Or.inr ⟨rfl, hlen⟩) (by simp [parentRecord]))
      (hok.insert (parentRecord parent seq children.length) hnew hid) hfresh.nodup ?_
      hfresh.valid
    intro d hd
    rw [find_insert, if_neg (by exact hfresh.not_parent d hd)]
    exact hfresh.fresh d hd
  | assign id =>
    obtain ⟨r, hr, hq⟩ := hallowed
    have hnp := h.not_isSplitParent hr (by simp [hq]) (by simp [hq, taskStateIsTerminal])
    have hslot := h.running_iff hok hr
    have hpos := h.queuedCount_pos hok hr hq
    rw [Event.apply, on_of_find hr]
    refine h.update hok hr ?_ ?_ ?_ ?_ ?_ ?_ ?_ fun hp => absurd hp hnp
    · simp [Accounted.Moves, hq]
      omega
    · simp [Accounted.Moves, TaskRecord.EndedAs, hq]
    · simp [Accounted.Moves, TaskRecord.EndedAs, hq]
    · simp [Accounted.Moves, TaskRecord.EndedAs, hq]
    · simpa [hq] using hslot
    · simp
    · simp
  | reprioritize id priority =>
    obtain ⟨r, hr, hq⟩ := hallowed
    have hnp := h.not_isSplitParent hr (by simp [hq]) (by simp [hq, taskStateIsTerminal])
    have hslot := h.running_iff hok hr
    rw [Event.apply, on_of_find hr]
    refine h.update hok hr ?_ ?_ ?_ ?_ ?_ ?_ ?_ fun hp => absurd hp hnp
    · simp [Accounted.Moves, hq]
    · simp [Accounted.Moves, TaskRecord.EndedAs, hq]
    · simp [Accounted.Moves, TaskRecord.EndedAs, hq]
    · simp [Accounted.Moves, TaskRecord.EndedAs, hq]
    · exact hslot
    · simp
    · simp [hq]
  | start id =>
    obtain ⟨hfree, r, hr, hstate⟩ := hallowed
    have hnp := h.not_isSplitParent hr (by rcases hstate with hs | hs <;> simp [hs])
      (by rcases hstate with hs | hs <;> simp [hs, taskStateIsTerminal])
    have hstarted : (qpuRuntimeTaskStarted L.qpu id).2 =
        { L.qpu with runtime := { L.qpu.runtime with runningTaskId := id } } := by
      simp [qpuRuntimeTaskStarted, hfree]
    rw [Event.apply, on_of_find hr, hstarted]
    refine h.update hok hr ?_ ?_ ?_ ?_ ?_ ?_ ?_ fun hp => absurd hp hnp
    · rcases hstate with hs | hs
      · simp [Accounted.Moves, qpuLeave, hs]
      · have hpos := h.queuedCount_pos hok hr hs
        simp [Accounted.Moves, qpuLeave, hs]
        omega
    · rcases hstate with hs | hs <;> simp [Accounted.Moves, TaskRecord.EndedAs, qpuLeave, hs]
    · rcases hstate with hs | hs <;> simp [Accounted.Moves, TaskRecord.EndedAs, qpuLeave, hs]
    · rcases hstate with hs | hs <;> simp [Accounted.Moves, TaskRecord.EndedAs, qpuLeave, hs]
    · rcases hstate with hs | hs <;> simp [qpuLeave, hs]
    · intro x hx hx0
      rw [hfree]
      rcases hstate with hs | hs <;> simp [qpuLeave, hs, hx, hx0]
    · simp
  | finish id state =>
    obtain ⟨hterm, r, hr, hlive, hw, -⟩ := hallowed
    have hnp := h.not_isSplitParent hr hw hlive
    have hslot := h.running_iff hok hr
    have hid := hok.desc_id id r hr
    rw [Event.apply, on_of_find hr]
    have hupdated : Accounted ⟨L.tasks.update id { r with state := state },
        qpuRuntimeTaskFinished (qpuLeave L.qpu r) id state⟩ := by
      have hended : ∀ st, taskStateIsTerminal st → ¬ r.EndedAs st := by
        rintro st hst ⟨rfl, -⟩
        simp [hlive] at hst
      have hended' : ∀ st, TaskRecord.EndedAs st { r with state := state } ↔ state = st :=
        fun st => ⟨fun he => he.1, fun he => ⟨he, hnp⟩⟩
      have hne : state ≠ .queued ∧ state ≠ .running ∧ state ≠ .waiting := by
        refine ⟨?_, ?_, ?_⟩ <;> rintro rfl <;> simp [taskStateIsTerminal] at hterm
      refine h.update hok hr ?_ ?_ ?_ ?_ ?_ ?_ ?_ fun hp => absurd hp hnp
      · have hpos := h.queuedCount_pos hok hr
        simp only [Accounted.Moves, qpuFinished_queuedCount, qpuLeave, hne.1, if_false]
        split
        · next hq =>
          have := hpos hq
          rw [qpuUnqueued_queuedCount]
          omega
        · rfl
      · simp [Accounted.Moves, qpuFinished_completedCount, hended .completed rfl, hended']
      · simp [Accounted.Moves, qpuFinished_failedCount, hended .failed rfl, hended']
      · simp [Accounted.Moves, qpuFinished_cancelledCount, hended .cancelled rfl, hended']
      · have hvalid := hok.valid id r hr
        simp only [hne.2.1, qpuFinished_runningTaskId, qpuLeave_runningTaskId, false_iff]
        split
        · exact hvalid
        · next hother => exact fun he => hother he.symm
      · intro x hx hx0
        rw [qpuFinished_runningTaskId, qpuLeave_runningTaskId]
        split
        · next hself => simp [hself, hx, hx0]
        · rfl
      · exact fun hw => absurd hw hne.2.2
    exact hupdated.updateParent (hok.update hr hid)

/-! ## Runs -/

theorem accounted_create (metadata : KvArray) :
    Accounted ⟨TaskTable.empty, qpuRetain (qpuCreate metadata)⟩ := by
  have hnone : ∀ id, taskTableFind TaskTable.empty id = none := fun _ => rfl
  refine ⟨?_, ?_, ?_, ?_, ?_, ?_, ?_⟩
  · exact (TaskTable.number_empty _).symm
  · exact (TaskTable.number_empty _).symm
  · exact (TaskTable.number_empty _).symm
  · exact (TaskTable.number_empty _).symm
  · intro id
    simp [hnone, qpuRetain, qpuCreate, invalidTaskId]
  · simp [hnone]
  · simp [hnone]

/-- **The QPU's accounts match the task table**, in every state a scheduler that
is alone on its QPU reaches, with any plugins, any environments and any
operations. -/
theorem qpu_accounting {ν : Type} [DecidableEq ν] {σ : ν → Type} (P : ∀ n, PluginDesc (σ n))
    (metadata : KvArray) (is : List (Env × Op ν)) :
    let s := Foundations.run (nextState P) (schedCreate (qpuCreate metadata)) is
    s.qpu.runtime.queuedCount = s.tasks.number (fun r => r.state = .queued) ∧
    s.qpu.runtime.completedCount = s.tasks.number
      (fun r => r.state = .completed ∧ ¬ r.IsSplitParent) ∧
    s.qpu.runtime.failedCount = s.tasks.number (fun r => r.state = .failed ∧ ¬ r.IsSplitParent) ∧
    s.qpu.runtime.cancelledCount = s.tasks.number
      (fun r => r.state = .cancelled ∧ ¬ r.IsSplitParent) ∧
    s.tasks.number (fun r => r.state = .running) ≤ 1 ∧
    (∀ id r, taskTableFind s.tasks id = some r → r.state = .running →
      s.qpu.runtime.runningTaskId = id) ∧
    ((∀ id r, taskTableFind s.tasks id = some r → r.state ≠ .running) →
      s.qpu.runtime.runningTaskId = invalidTaskId) := by
  intro s
  obtain ⟨hok, h⟩ := run_event_invariant P (motive := Accounted)
    (fun L e hok h hallowed => h.apply hok hallowed) (s := schedCreate (qpuCreate metadata))
    TaskTable.ok_empty (accounted_create metadata) is
  refine ⟨h.queued, h.completed, h.failed, h.cancelled, ?_, ?_, ?_⟩
  · refine (Set.ncard_le_one (hok.finite _)).2 ?_
    rintro a ⟨r, hr, hrun⟩ b ⟨r', hr', hrun'⟩
    rw [((h.slot a).1 ⟨r, hr, hrun⟩).1, ((h.slot b).1 ⟨r', hr', hrun'⟩).1]
  · intro id r hr hrun
    exact ((h.running_iff hok hr).1 hrun).symm
  · intro hnone
    by_contra hne
    obtain ⟨r, hr, hrun⟩ := (h.slot _).2 ⟨rfl, hne⟩
    exact hnone _ r hr hrun

end QhwScheduler
