import QhwScheduler.Core.Lifecycle

/-!
# Schedulers that share a QPU

Any number of schedulers on one QPU handle, with their operations in any order;
each operation runs as a whole.

* `Shared`, `sharedNext` — the schedulers that are alive, and their operations.
* `Exclusive` — one running task at most over all schedulers, and the slot is
  its.
* `LeavesSlot` — the operation does not finish a task that is not running under
  the id of a task running elsewhere.
* `shared_slot` — along every run of such operations the slot is exclusive;
  `shared_slot_released` — without the condition it is not.
-/

namespace QhwScheduler

variable {ν : Type} {σ : ν → Type}

/-- The QPU and the schedulers bound to it, by handle. -/
structure Shared (σ : ν → Type) where
  qpu : Qpu
  scheds : ℕ → Option (Sched σ)

/-- What can happen next: a scheduler is created, destroyed or called. -/
inductive SharedOp (ν : Type) where
  | create (handle : ℕ) (E : Env)
  | destroy (handle : ℕ)
  | call (handle : ℕ) (E : Env) (op : Op ν)

/-- A new QPU without schedulers. -/
def sharedCreate (metadata : KvArray) : Shared σ := ⟨qpuCreate metadata, fun _ => none⟩

/-- The scheduler as it finds the QPU. -/
def Sched.at (s : Sched σ) (qpu : Qpu) : Sched σ := { s with qpu := qpu }

/-- A scheduler writes itself and the QPU back. -/
def Shared.put (w : Shared σ) (handle : ℕ) (s : Sched σ) : Shared σ :=
  ⟨s.qpu, Function.update w.scheds handle (some s)⟩

section Next

variable [DecidableEq ν] (P : ∀ n, PluginDesc (σ n))

/-- One operation.  `qhw_sched_create` needs memory for the scheduler and for its
table; `qhw_sched_destroy` leaves the runtime of the QPU as it is. -/
def sharedNext (w : Shared σ) : SharedOp ν → Shared σ
  | .create handle E =>
    match w.scheds handle with
    | some _ => w
    | none =>
      if E.alloc 0 && E.alloc 1 then
        ⟨qpuRetain w.qpu, Function.update w.scheds handle (some (schedCreate w.qpu))⟩
      else w
  | .destroy handle =>
    match w.scheds handle with
    | none => w
    | some _ => ⟨qpuRelease w.qpu, Function.update w.scheds handle none⟩
  | .call handle E op =>
    match w.scheds handle with
    | none => w
    | some s => w.put handle (step P (s.at w.qpu) E op).sched

end Next

/-- A task of this table is running. -/
def RunningIn (table : TaskTable) (id : TaskId) : Prop :=
  ∃ r, taskTableFind table id = some r ∧ r.state = .running

/-- A task of this scheduler is running. -/
def RunningAt (w : Shared σ) (handle : ℕ) (id : TaskId) : Prop :=
  ∃ s, w.scheds handle = some s ∧ RunningIn s.tasks id

/-- The slot is the running task's, and there is one running task at most over
all schedulers. -/
structure Exclusive (w : Shared σ) : Prop where
  holds_slot : ∀ handle id, RunningAt w handle id → w.qpu.runtime.runningTaskId = id
  unique : ∀ handle handle' id id', RunningAt w handle id → RunningAt w handle' id' →
    handle = handle' ∧ id = id'

/-- A call that finishes a task which is not running does so under an id that no
other scheduler's running task has. -/
def LeavesSlot (w : Shared σ) : SharedOp ν → Prop
  | .call handle _ op =>
    ∀ s id state, w.scheds handle = some s → op.finishes = some (id, state) →
      Event.Allowed (s.at w.qpu).ledger (.finish id state) → ¬ RunningIn s.tasks id →
      ∀ other, other ≠ handle → ¬ RunningAt w other id
  | _ => True

/-! ## The slot and the events -/

section Events

variable {L : Ledger}

theorem runningIn_insert {table : TaskTable} {r : TaskRecord} {x : TaskId}
    (hnew : taskTableFind table r.desc.taskId = none) (hr : r.state ≠ .running) :
    RunningIn (table.insert r) x ↔ RunningIn table x := by
  simp only [RunningIn, find_insert]
  split
  · next hx => simp [hx, hnew, hr]
  · rfl

theorem runningIn_update {table : TaskTable} {r' : TaskRecord} {id x : TaskId} :
    RunningIn (table.update id r') x ↔
      (x = id ∧ r'.state = .running) ∨ (x ≠ id ∧ RunningIn table x) := by
  simp only [RunningIn, find_update]
  by_cases hx : x = id <;> simp [hx]

theorem runningIn_acceptAll {seq : ℕ} {children : List TaskDesc} {x : TaskId}
    (hnd : (children.map TaskDesc.taskId).Nodup)
    (hnew : ∀ d ∈ children, taskTableFind L.tasks d.taskId = none) :
    RunningIn (L.acceptAll seq children).tasks x ↔ RunningIn L.tasks x := by
  unfold RunningIn
  by_cases hx : x ∈ children.map TaskDesc.taskId
  · obtain ⟨d, hd, rfl⟩ := List.mem_map.1 hx
    obtain ⟨n, hn⟩ := acceptAll_find_of_mem (L := L) seq hnd hd
    simp [hn, hnew d hd]
  · rw [acceptAll_find_of_not_mem hx]

theorem runningIn_updateParent {table : TaskTable} {child : TaskRecord} {state : TaskState}
    {x : TaskId} :
    RunningIn (updateParentAfterChildLocked table child state) x ↔ RunningIn table x := by
  unfold updateParentAfterChildLocked
  split
  · rfl
  · split
    · rfl
    · next p hp =>
      split
      · rfl
      · next hw =>
        have hne : (p.countChild state).parentState ≠ .running := parentState_ne _ _ nofun rfl
        dsimp only
        rw [runningIn_update]
        simp only [hne, and_false, false_or]
        refine ⟨fun h => h.2, fun h => ⟨?_, h⟩⟩
        rintro rfl
        obtain ⟨q, hq, hrun⟩ := h
        rw [hp] at hq
        rw [Option.some.inj hq, hrun] at hw
        simp at hw

/-- What an event does to the running tasks of its scheduler and to the slot. -/
theorem Event.slot_cases {e : Event} (hallowed : e.Allowed L) :
    ((e.apply L).qpu.runtime.runningTaskId = L.qpu.runtime.runningTaskId ∧
      ∀ x, RunningIn (e.apply L).tasks x ↔ RunningIn L.tasks x) ∨
    (∃ id, L.qpu.runtime.runningTaskId = invalidTaskId ∧
      (e.apply L).qpu.runtime.runningTaskId = id ∧ RunningIn (e.apply L).tasks id ∧
      ∀ x, RunningIn (e.apply L).tasks x → x = id ∨ RunningIn L.tasks x) ∨
    (∃ id state, e = .finish id state ∧
      (e.apply L).qpu.runtime.runningTaskId =
        (if L.qpu.runtime.runningTaskId = id then invalidTaskId
          else L.qpu.runtime.runningTaskId) ∧
      ∀ x, RunningIn (e.apply L).tasks x ↔ x ≠ id ∧ RunningIn L.tasks x) := by
  cases e with
  | idle => exact Or.inl ⟨rfl, fun _ => Iff.rfl⟩
  | accept task seq => exact Or.inl ⟨rfl, fun x => runningIn_insert hallowed.1 (by simp)⟩
  | acceptSplit parent children seq =>
    obtain ⟨hnew, hid, hfresh, -⟩ := hallowed
    refine Or.inl ⟨?_, fun x => ?_⟩
    · simp [Event.apply, acceptAll_queuedCount]
    · rw [Event.apply, runningIn_acceptAll hfresh.nodup, runningIn_insert hnew (by simp [parentRecord])]
      intro d hd
      rw [find_insert, if_neg (by exact hfresh.not_parent d hd)]
      exact hfresh.fresh d hd
  | assign id =>
    obtain ⟨r, hr, hq⟩ := hallowed
    have hnot : ¬ RunningIn L.tasks id := by simp [RunningIn, hr, hq]
    rw [Event.apply, on_of_find hr]
    refine Or.inl ⟨by simp, fun x => ?_⟩
    rw [runningIn_update]
    by_cases hx : x = id <;> simp [hx, hnot]
  | reprioritize id priority =>
    obtain ⟨r, hr, hq⟩ := hallowed
    have hnot : ¬ RunningIn L.tasks id := by simp [RunningIn, hr, hq]
    rw [Event.apply, on_of_find hr]
    refine Or.inl ⟨rfl, fun x => ?_⟩
    rw [runningIn_update]
    by_cases hx : x = id <;> simp [hx, hnot, hq]
  | start id =>
    obtain ⟨hfree, r, hr, -⟩ := hallowed
    rw [Event.apply, on_of_find hr]
    refine Or.inr (Or.inl ⟨id, hfree, by simp [qpuRuntimeTaskStarted, hfree], ?_, fun x hx => ?_⟩)
    · rw [runningIn_update]
      exact Or.inl ⟨rfl, rfl⟩
    · rw [runningIn_update] at hx
      exact hx.imp (fun h => h.1) fun h => h.2
  | finish id state =>
    obtain ⟨hterm, r, hr, -⟩ := hallowed
    rw [Event.apply, on_of_find hr]
    refine Or.inr (Or.inr ⟨id, state, rfl, ?_, fun x => ?_⟩)
    · rw [qpuFinished_runningTaskId, qpuLeave_runningTaskId]
    · rw [runningIn_updateParent, runningIn_update]
      have hne : state ≠ .running := by
        rintro rfl
        simp [taskStateIsTerminal] at hterm
      simp [hne]

end Events

/-! ## Runs -/

/-- The tables of all schedulers are in order. -/
def SharedOk (w : Shared σ) : Prop := ∀ handle s, w.scheds handle = some s → s.tasks.Ok

/-- Any operation keeps the tables in order. -/
theorem SharedOk.next [DecidableEq ν] (P : ∀ n, PluginDesc (σ n)) {w : Shared σ} (h : SharedOk w)
    (i : SharedOp ν) : SharedOk (sharedNext P w i) := by
  have hput : ∀ handle (s : Option (Sched σ)) (w' : Shared σ),
      w'.scheds = Function.update w.scheds handle s → (∀ t, s = some t → t.tasks.Ok) →
      SharedOk w' := by
    intro handle s w' hw hs other t ht
    rw [hw, Function.update_apply] at ht
    split at ht
    · exact hs t ht
    · exact h other t ht
  cases i with
  | create handle E =>
    simp only [sharedNext]
    split
    · exact h
    · split
      · refine hput handle _ _ rfl ?_
        intro t ht
        obtain rfl := Option.some.inj ht
        exact TaskTable.ok_empty
      · exact h
  | destroy handle =>
    simp only [sharedNext]
    split
    · exact h
    · exact hput handle _ _ rfl (by simp)
  | call handle E op =>
    simp only [sharedNext]
    split
    · exact h
    · next s hs =>
      refine hput handle _ _ rfl ?_
      intro t ht
      obtain rfl := Option.some.inj ht
      obtain ⟨e, -, hallowed, hled⟩ := step_event P E op (s := s.at w.qpu) (h handle s hs)
      exact ok_of_ledger hled (Event.ok_apply (h handle s hs) hallowed)

/-- In every state of every run all tables are in order. -/
theorem shared_ok [DecidableEq ν] (P : ∀ n, PluginDesc (σ n)) (metadata : KvArray)
    (is : List (SharedOp ν)) :
    SharedOk (Foundations.run (sharedNext P) (sharedCreate metadata) is) :=
  Foundations.run_invariant (motive := SharedOk) (fun _ i h => SharedOk.next P h i)
    (fun _ _ hs => by simp [sharedCreate] at hs) is

/-- The invariant of the runs. -/
structure SharedInv (w : Shared σ) : Prop where
  ok : ∀ handle s, w.scheds handle = some s → s.tasks.Ok
  exclusive : Exclusive w

section Steps

variable {w : Shared σ}

theorem runningAt_update {w' : Shared σ} {handle other : ℕ} {s : Option (Sched σ)} {id : TaskId}
    (hw : w'.scheds = Function.update w.scheds handle s) :
    RunningAt w' other id ↔
      (other = handle ∧ ∃ s', s = some s' ∧ RunningIn s'.tasks id) ∨
        (other ≠ handle ∧ RunningAt w other id) := by
  unfold RunningAt
  rw [hw]
  by_cases h : other = handle
  · subst h
    simp
  · simp [h]

/-- Schedulers that come and go without running tasks leave the slot alone. -/
theorem Exclusive.congr {w' : Shared σ} (h : Exclusive w)
    (hslot : w'.qpu.runtime.runningTaskId = w.qpu.runtime.runningTaskId)
    (hrun : ∀ handle id, RunningAt w' handle id → RunningAt w handle id) : Exclusive w' where
  holds_slot handle id hr := hslot.trans (h.holds_slot handle id (hrun handle id hr))
  unique handle handle' id id' hr hr' :=
    h.unique handle handle' id id' (hrun handle id hr) (hrun handle' id' hr')

theorem SharedInv.valid {handle : ℕ} {id : TaskId} (h : SharedInv w) (hr : RunningAt w handle id) :
    id ≠ invalidTaskId := by
  obtain ⟨s, hs, r, hfind, -⟩ := hr
  exact (h.ok handle s hs).valid id r hfind

/-- A call that amounts to an event, under the condition. -/
theorem SharedInv.put {handle : ℕ} {s s' : Sched σ} {e : Event} (h : SharedInv w)
    (hs : w.scheds handle = some s) (hallowed : e.Allowed (s.at w.qpu).ledger)
    (hled : s'.ledger = e.apply (s.at w.qpu).ledger)
    (hleaves : ∀ id state, e = .finish id state → ¬ RunningIn s.tasks id →
      ∀ other, other ≠ handle → ¬ RunningAt w other id) : SharedInv (w.put handle s') := by
  have hok : (s.at w.qpu).ledger.tasks.Ok := h.ok handle s hs
  have hhere : ∀ id, RunningIn (s.at w.qpu).ledger.tasks id → RunningAt w handle id :=
    fun id hr => ⟨s, hs, hr⟩
  have hrunning : ∀ other id, RunningAt (w.put handle s') other id →
      (other = handle ∧ RunningIn (e.apply (s.at w.qpu).ledger).tasks id) ∨
        (other ≠ handle ∧ RunningAt w other id) := by
    intro other id hr
    rw [runningAt_update (w := w) (s := some s') rfl] at hr
    rw [← hled]
    simpa [Sched.ledger] using hr
  have hslot : (w.put handle s').qpu.runtime.runningTaskId =
      (e.apply (s.at w.qpu).ledger).qpu.runtime.runningTaskId :=
    congrArg (fun L : Ledger => L.qpu.runtime.runningTaskId) hled
  refine ⟨?_, ?_⟩
  · intro other t ht
    simp only [Shared.put, Function.update_apply] at ht
    split at ht
    · obtain rfl := Option.some.inj ht
      exact ok_of_ledger hled (Event.ok_apply hok hallowed)
    · exact h.ok other t ht
  · rcases Event.slot_cases hallowed with ⟨hsame, hrun⟩ | ⟨id, hfree, htaken, -, hrun⟩ |
      ⟨id, state, rfl, hgiven, hrun⟩
    · refine h.exclusive.congr (hslot.trans hsame) ?_
      intro other id hr
      rcases hrunning other id hr with ⟨rfl, hin⟩ | ⟨-, hat⟩
      · exact hhere id ((hrun id).1 hin)
      · exact hat
    · -- The slot was free, so nothing ran before.
      have hidle : ∀ other x, ¬ RunningAt w other x := by
        intro other x hr
        exact h.valid hr ((h.exclusive.holds_slot other x hr).symm.trans hfree)
      have honly : ∀ other x, RunningAt (w.put handle s') other x → other = handle ∧ x = id := by
        intro other x hr
        rcases hrunning other x hr with ⟨hother, hr⟩ | ⟨-, hr⟩
        · refine ⟨hother, (hrun x hr).resolve_right fun hold => ?_⟩
          exact hidle handle x (hhere x hold)
        · exact absurd hr (hidle other x)
      refine ⟨fun other x hr => ?_, fun other other' x x' hr hr' => ?_⟩
      · rw [(honly other x hr).2]
        exact hslot.trans htaken
      · obtain ⟨rfl, rfl⟩ := honly other x hr
        obtain ⟨rfl, rfl⟩ := honly other' x' hr'
        exact ⟨rfl, rfl⟩
    · -- The finished task gives the slot back only if it is its own.
      have hkeep : ∀ other x, RunningAt (w.put handle s') other x → RunningAt w other x ∧ x ≠ id := by
        intro other x hr
        rcases hrunning other x hr with ⟨rfl, hin⟩ | ⟨hother, hat⟩
        · exact ⟨hhere x ((hrun x).1 hin).2, ((hrun x).1 hin).1⟩
        · refine ⟨hat, ?_⟩
          rintro rfl
          by_cases hown : RunningIn s.tasks x
          · exact hother (h.exclusive.unique other handle x x hat ⟨s, hs, hown⟩).1
          · exact hleaves x state rfl hown other hother hat
      refine ⟨fun other x hr => ?_, fun other other' x x' hr hr' => ?_⟩
      · obtain ⟨hold, hne⟩ := hkeep other x hr
        have hx : (s.at w.qpu).ledger.qpu.runtime.runningTaskId = x :=
          h.exclusive.holds_slot other x hold
        rw [hslot, hgiven, hx, if_neg hne]
      · exact h.exclusive.unique other other' x x' (hkeep other x hr).1 (hkeep other' x' hr').1

variable [DecidableEq ν] (P : ∀ n, PluginDesc (σ n))

/-- **One operation**, under the condition. -/
theorem SharedInv.next {i : SharedOp ν} (h : SharedInv w) (hleaves : LeavesSlot w i) :
    SharedInv (sharedNext P w i) := by
  cases i with
  | create handle E =>
    simp only [sharedNext]
    split
    · exact h
    · next hnone =>
      split
      · refine ⟨?_, h.exclusive.congr rfl ?_⟩
        · intro other t ht
          simp only [Function.update_apply] at ht
          split at ht
          · obtain rfl := Option.some.inj ht
            exact TaskTable.ok_empty
          · exact h.ok other t ht
        · intro other id hr
          rw [runningAt_update (w := w) rfl] at hr
          rcases hr with ⟨-, t, ht, r, hr, -⟩ | ⟨-, hr⟩
          · obtain rfl := Option.some.inj ht
            simp [schedCreate, TaskTable.empty, taskTableFind] at hr
          · exact hr
      · exact h
  | destroy handle =>
    simp only [sharedNext]
    split
    · exact h
    · refine ⟨?_, h.exclusive.congr rfl ?_⟩
      · intro other t ht
        simp only [Function.update_apply] at ht
        split at ht
        · simp at ht
        · exact h.ok other t ht
      · intro other id hr
        rw [runningAt_update (w := w) rfl] at hr
        rcases hr with ⟨-, t, ht, -⟩ | ⟨-, hr⟩
        · simp at ht
        · exact hr
  | call handle E op =>
    simp only [sharedNext]
    split
    · exact h
    · next s hs =>
      obtain ⟨e, hby, hallowed, hled⟩ := step_event P E op (s := s.at w.qpu) (h.ok handle s hs)
      refine h.put hs hallowed hled ?_
      rintro id state rfl hown
      exact hleaves s id state hs hby hallowed hown

/-- A start is refused while the slot is taken. -/
theorem taskStarted_refused {s : Sched σ} {E : Env} {id : TaskId}
    (h : s.qpu.runtime.runningTaskId ≠ invalidTaskId) :
    (step P s E (.taskStarted id)).rc ≠ .ok := by
  simp only [step, taskStarted]
  split
  · simp
  · split
    · simp
    · simp [qpuRuntimeTaskStarted, h]

end Steps

/-- **The execution slot is exclusive** along every run of create, destroy and
call operations that meets `LeavesSlot` at each step: one task at most runs over
all schedulers and the slot is its; while it runs no start succeeds on any
scheduler; and a call on another scheduler that meets the condition leaves it the
slot. -/
theorem shared_slot [DecidableEq ν] (P : ∀ n, PluginDesc (σ n)) (metadata : KvArray)
    (is : List (SharedOp ν))
    (hleaves : Foundations.Along (sharedNext P) LeavesSlot (sharedCreate metadata) is) :
    let w := Foundations.run (sharedNext P) (sharedCreate metadata) is
    Exclusive w ∧
    (∀ handle id, RunningAt w handle id → ∀ other s E id', w.scheds other = some s →
      (step P (s.at w.qpu) E (.taskStarted id')).rc ≠ .ok) ∧
    (∀ handle id, RunningAt w handle id → ∀ other E op, other ≠ handle →
      LeavesSlot w (.call other E op) →
      (sharedNext P w (.call other E op)).qpu.runtime.runningTaskId = id) := by
  intro w
  have hinit : SharedInv (sharedCreate metadata : Shared σ) := by
    refine ⟨by simp [sharedCreate], ?_, ?_⟩
    · rintro handle id ⟨s, hs, -⟩
      simp [sharedCreate] at hs
    · rintro handle - id - ⟨s, hs, -⟩
      simp [sharedCreate] at hs
  have h : SharedInv w :=
    Foundations.run_invariant_along (fun w i h hok => SharedInv.next P h hok) hinit hleaves
  refine ⟨h.exclusive, ?_, ?_⟩
  · intro handle id hr other s E id' hs
    refine taskStarted_refused P ?_
    show w.qpu.runtime.runningTaskId ≠ invalidTaskId
    rw [h.exclusive.holds_slot handle id hr]
    exact h.valid hr
  · intro handle id hr other E op hother hcond
    refine (SharedInv.next P h hcond).exclusive.holds_slot handle id ?_
    simp only [sharedNext]
    split
    · exact hr
    · rw [Shared.put, runningAt_update (w := w) rfl]
      exact Or.inr ⟨hother.symm, hr⟩

/-! ## Without the condition -/

/-- Two schedulers with a task 7 each; the first runs its own, and the second
has another task 8. -/
def sharedIds : List (SharedOp Empty) :=
  [.create 0 (.still 0), .create 1 (.still 0),
    .call 0 (.still 0) (.submitTask { taskId := 7 } {}),
    .call 1 (.still 0) (.submitTask { taskId := 7 } {}),
    .call 1 (.still 0) (.submitTask { taskId := 8 } {}),
    .call 0 (.still 0) (.taskStarted 7)]

theorem runningAt_iff {w : Shared σ} {handle : ℕ} {id : TaskId} :
    RunningAt w handle id ↔ ((w.scheds handle).bind fun s => taskTableFind s.tasks id).map
      TaskRecord.state = some .running := by
  simp only [RunningAt, RunningIn, Option.map_eq_some_iff, Option.bind_eq_some_iff]
  constructor
  · rintro ⟨s, hs, r, hr, hrun⟩
    exact ⟨r, ⟨s, hs, hr⟩, hrun⟩
  · rintro ⟨r, ⟨s, hs, hr⟩, hrun⟩
    exact ⟨s, hs, r, hr, hrun⟩

/-- The second scheduler cancels its task 8, the first one finishes its task 7, and the
second one starts its own. -/
def slotHandedOn : List (SharedOp Empty) :=
  [.call 1 (.still 0) (.taskCancelled 8), .call 0 (.still 0) (.taskCompleted 7),
    .call 1 (.still 0) (.taskStarted 7)]

/-- The slot is exclusive after `sharedIds` and `slotHandedOn`: no other scheduler runs a
task 8 when one is cancelled, and the task 7 that is finished runs. -/
theorem shared_slot_slotHandedOn :
    Exclusive (Foundations.run (sharedNext noPlugins) (sharedCreate (some []))
      (sharedIds ++ slotHandedOn)) := by
  have hids : Foundations.Along (sharedNext noPlugins) LeavesSlot (sharedCreate (some []))
      sharedIds := by
    simp [sharedIds, Foundations.Along, LeavesSlot, Op.finishes]
  refine (shared_slot noPlugins (some []) (sharedIds ++ slotHandedOn)
    (Foundations.along_append.2 ⟨hids, ?_, ?_, ?_, trivial⟩)).1
  · rintro s id state hs hid - - other - hrun
    obtain ⟨rfl, -⟩ := Prod.mk.inj (Option.some.inj hid)
    have hslot := (shared_slot noPlugins (some []) sharedIds hids).1.holds_slot other 8 hrun
    exact absurd hslot (by decide +kernel)
  · rintro s id state hs hid - hidle
    obtain ⟨rfl, -⟩ := Prod.mk.inj (Option.some.inj hid)
    obtain ⟨s', hs', hrun⟩ : RunningAt (sharedNext noPlugins (Foundations.run
        (sharedNext noPlugins) (sharedCreate (some [])) sharedIds)
        (.call 1 (.still 0) (.taskCancelled 8))) 0 7 := runningAt_iff.2 (by decide +kernel)
    obtain rfl := Option.some.inj (hs.symm.trans hs')
    exact absurd hrun hidle
  · rintro s id state - hid
    exact absurd hid (by simp [Op.finishes])

/-- The second scheduler cancels its queued task 7, and the slot that the first
one's task 7 holds is free: task 8 starts beside it. -/
theorem shared_slot_released :
    ¬ Exclusive (Foundations.run (sharedNext noPlugins) (sharedCreate (some []))
      (sharedIds ++ [.call 1 (.still 0) (.taskCancelled 7), .call 1 (.still 0) (.taskStarted 8)])) := by
  intro h
  have h7 := h.holds_slot 0 7 (runningAt_iff.2 (by decide +kernel))
  have h8 := h.holds_slot 1 8 (runningAt_iff.2 (by decide +kernel))
  exact absurd (h7.symm.trans h8) (by decide)

end QhwScheduler
