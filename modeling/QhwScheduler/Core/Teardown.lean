import QhwScheduler.Core.Conformance
import QhwScheduler.Core.SharedQpu

/-!
# Destroying a scheduler

What the runtime of a QPU still says of a scheduler that is gone.

* `Settled` — the queue counter counts the QUEUED records of the schedulers that
  are alive, and the slot holds nothing but a task that runs on one of them.
* `QueuedBeside.apply` — an event moves the counter as it moves its own records.
* `LeavesNothing` — the destroyed scheduler has no queued record, and the slot is
  not left to a task of its own.
* `destroyed_share` — along every run of such operations the QPU is settled, and
  a destroy keeps it so exactly then; `destroyed_share_stranded` — without the
  condition the QPU is lost to the schedulers that follow.
-/

namespace QhwScheduler

variable {ν : Type} {σ : ν → Type}

/-! ## The queue counter and the events -/

/-- The QPU counts the queued records of the table, beside `k` others. -/
def QueuedBeside (k : ℕ) (L : Ledger) : Prop :=
  L.qpu.runtime.queuedCount = k + L.tasks.number fun r => r.state = .queued

section Events

variable {k : ℕ} {L : Ledger} {e : Event}

theorem QueuedBeside.accept {task : TaskDesc} {seq : ℕ} (h : QueuedBeside k L) (hok : L.tasks.Ok)
    (hnew : taskTableFind L.tasks task.taskId = none) : QueuedBeside k (L.accept task seq) := by
  unfold QueuedBeside at h ⊢
  simp only [Ledger.accept, qpuRuntimeTaskQueued]
  rw [hok.number_insert hnew, h, if_pos rfl, Nat.add_assoc]

theorem QueuedBeside.acceptAll {children : List TaskDesc} {seq : ℕ} (h : QueuedBeside k L)
    (hok : L.tasks.Ok) (hnd : (taskIds children).Nodup)
    (hnew : ∀ d ∈ children, taskTableFind L.tasks d.taskId = none)
    (hid : ∀ d ∈ children, d.taskId ≠ invalidTaskId) :
    QueuedBeside k (L.acceptAll seq children) := by
  induction children generalizing L seq with
  | nil => exact h
  | cons x xs ih =>
    rw [taskIds_cons, List.nodup_cons] at hnd
    have hx := hnew x (by simp)
    refine ih (h.accept hok hx) (accept_ok hok hx (hid x (by simp))) hnd.2 ?_
      fun d hd => hid d (by simp [hd])
    intro d hd
    have hne : d.taskId ≠ x.taskId := fun h => hnd.1 (h ▸ mem_taskIds_of_mem hd)
    simp [Ledger.accept, hne, hnew d (by simp [hd])]

/-- A parent that is updated was not queued and is not queued. -/
theorem number_updateParent {table : TaskTable} (child : TaskRecord) (state : TaskState)
    (hok : table.Ok) :
    (updateParentAfterChildLocked table child state).number (fun r => r.state = .queued) =
      table.number fun r => r.state = .queued := by
  unfold updateParentAfterChildLocked
  split
  · rfl
  · split
    · rfl
    · next p hp =>
      split
      · rfl
      · next hw =>
        have hafter : (p.countChild state).parentState ≠ .queued := parentState_ne _ _ nofun rfl
        have hnum := TaskTable.Ok.number_update (fun r => r.state = .queued) hok
          { p.countChild state with state := (p.countChild state).parentState } hp
        simpa [not_not.1 hw, hafter] using hnum

/-- **An event moves the counter as it moves its own records.** -/
theorem QueuedBeside.apply (h : QueuedBeside k L) (hok : L.tasks.Ok) (hallowed : e.Allowed L) :
    QueuedBeside k (e.apply L) := by
  have hnum : ∀ {id r} r', taskTableFind L.tasks id = some r →
      (L.tasks.update id r').number (fun r => r.state = .queued) +
        (if r.state = .queued then 1 else 0) =
      L.tasks.number (fun r => r.state = .queued) + if r'.state = .queued then 1 else 0 :=
    fun r' hr => TaskTable.Ok.number_update (fun r => r.state = .queued) hok r' hr
  cases e with
  | idle => exact h
  | accept task seq => exact h.accept hok hallowed.1
  | acceptSplit parent children seq =>
    obtain ⟨hnew, hid, hfresh, -⟩ := hallowed
    refine QueuedBeside.acceptAll ?_ (hok.insert (parentRecord parent seq children.length) hnew hid)
      hfresh.nodup ?_ hfresh.valid
    · unfold QueuedBeside at h ⊢
      dsimp only
      rw [hok.number_insert hnew, h]
      simp [parentRecord]
    · intro d hd
      rw [find_insert, if_neg (by exact hfresh.not_parent d hd)]
      exact hfresh.fresh d hd
  | assign id =>
    obtain ⟨r, hr, hq⟩ := hallowed
    have hnum := hnum { r with state := .assigned } hr
    rw [Event.apply, on_of_find hr]
    unfold QueuedBeside at h ⊢
    simp only [hq, if_true, qpuUnqueued_queuedCount] at hnum ⊢
    simp at hnum
    omega
  | reprioritize id priority =>
    obtain ⟨r, hr, hq⟩ := hallowed
    have hnum := hnum { r with desc := { r.desc with priority := priority } } hr
    rw [Event.apply, on_of_find hr]
    unfold QueuedBeside at h ⊢
    simp only [hq, if_true] at hnum ⊢
    omega
  | start id =>
    obtain ⟨hfree, r, hr, hstate⟩ := hallowed
    have hnum := hnum { r with state := .running } hr
    have hstarted : (qpuRuntimeTaskStarted L.qpu id).2.runtime.queuedCount =
        L.qpu.runtime.queuedCount := by
      simp [qpuRuntimeTaskStarted, hfree]
    rw [Event.apply, on_of_find hr]
    unfold QueuedBeside at h ⊢
    rcases hstate with hs | hs
    · simp [qpuLeave, hs] at hnum ⊢
      omega
    · simp [qpuLeave, hs, qpuUnqueued_queuedCount] at hnum ⊢
      omega
  | finish id state =>
    obtain ⟨hterm, r, hr, -⟩ := hallowed
    have hnum := hnum { r with state := state } hr
    have hne : state ≠ .queued := by
      rintro rfl
      simp [taskStateIsTerminal] at hterm
    have hok' : (L.tasks.update id { r with state := state }).Ok :=
      hok.update hr (hok.desc_id id r hr)
    rw [Event.apply, on_of_find hr]
    unfold QueuedBeside at h ⊢
    dsimp only
    rw [number_updateParent r state hok', qpuFinished_queuedCount]
    simp only [hne, if_false, qpuLeave] at hnum ⊢
    split
    · next hq =>
      simp only [hq, if_true, qpuUnqueued_queuedCount] at hnum ⊢
      omega
    · next hq =>
      simp only [hq, if_false] at hnum
      omega

end Events

/-! ## The schedulers that are alive -/

/-- A queued record of a scheduler that is alive. -/
def QueuedAt (w : Shared σ) (handle : ℕ) (id : TaskId) : Prop :=
  ∃ s r, w.scheds handle = some s ∧ taskTableFind s.tasks id = some r ∧ r.state = .queued

/-- How many queued records the schedulers that are alive have. -/
noncomputable def queuedTotal (w : Shared σ) : ℕ :=
  Set.ncard {p : ℕ × TaskId | QueuedAt w p.1 p.2}

/-- The runtime of the QPU speaks of the schedulers that are alive. -/
structure Settled (w : Shared σ) : Prop where
  queued : w.qpu.runtime.queuedCount = queuedTotal w
  slot : w.qpu.runtime.runningTaskId ≠ invalidTaskId →
    ∃ handle, RunningAt w handle w.qpu.runtime.runningTaskId

/-- A scheduler that is destroyed leaves nothing behind: none of its records is
queued, and if one of its tasks runs in the slot, so does a task of the same id
on a scheduler that stays. -/
def LeavesNothing (w : Shared σ) : SharedOp ν → Prop
  | .destroy handle =>
    (∀ id, ¬ QueuedAt w handle id) ∧
      ∀ id, RunningAt w handle id → w.qpu.runtime.runningTaskId = id →
        ∃ other, other ≠ handle ∧ RunningAt w other id
  | _ => True

/-- The invariant of the runs. -/
structure TeardownInv (w : Shared σ) : Prop where
  ok : SharedOk w
  live : {handle | (w.scheds handle).isSome}.Finite
  settled : Settled w

section Total

variable {w w' : Shared σ} {handle : ℕ}

/-- The queued records of the other schedulers. -/
noncomputable def queuedBeside (w : Shared σ) (handle : ℕ) : ℕ :=
  Set.ncard {p : ℕ × TaskId | p.1 ≠ handle ∧ QueuedAt w p.1 p.2}

theorem queuedAt_finite (hok : SharedOk w) (hlive : {handle | (w.scheds handle).isSome}.Finite) :
    {p : ℕ × TaskId | QueuedAt w p.1 p.2}.Finite := by
  have hunion : {p : ℕ × TaskId | QueuedAt w p.1 p.2} ⊆
      ⋃ h ∈ {handle | (w.scheds handle).isSome}, {h} ×ˢ {id | QueuedAt w h id} := by
    rintro ⟨h, id⟩ hq
    have hlive : (w.scheds h).isSome := by
      obtain ⟨s, -, hs, -⟩ := hq
      simp [hs]
    simp only [Set.mem_iUnion]
    exact ⟨h, hlive, rfl, hq⟩
  refine Set.Finite.subset (hlive.biUnion fun h _ => ?_) hunion
  refine (Set.finite_singleton h).prod ?_
  cases hs : w.scheds h with
  | none => simp [QueuedAt, hs]
  | some s =>
    refine ((hok h s hs).finite fun r => r.state = .queued).subset ?_
    rintro id ⟨t, r, ht, hr, hq⟩
    obtain rfl := Option.some.inj (hs.symm.trans ht)
    exact ⟨r, hr, hq⟩

/-- The queued records are those of one scheduler and those of the others. -/
theorem queuedTotal_eq {s : Sched σ} (hok : SharedOk w)
    (hlive : {handle | (w.scheds handle).isSome}.Finite) (hs : w.scheds handle = some s) :
    queuedTotal w = queuedBeside w handle + s.tasks.number fun r => r.state = .queued := by
  have hown : {p : ℕ × TaskId | p.1 = handle ∧ QueuedAt w p.1 p.2} =
      Prod.mk handle '' {id | ∃ r, taskTableFind s.tasks id = some r ∧ r.state = .queued} := by
    ext ⟨h, id⟩
    simp only [Set.mem_ofPred_eq, Set.mem_image, Prod.mk.injEq, QueuedAt]
    constructor
    · rintro ⟨rfl, t, r, ht, hr, hq⟩
      obtain rfl := Option.some.inj (hs.symm.trans ht)
      exact ⟨id, ⟨r, hr, hq⟩, rfl, rfl⟩
    · rintro ⟨id, ⟨r, hr, hq⟩, rfl, rfl⟩
      exact ⟨rfl, s, r, hs, hr, hq⟩
  have hsplit : {p : ℕ × TaskId | QueuedAt w p.1 p.2} =
      {p | p.1 ≠ handle ∧ QueuedAt w p.1 p.2} ∪ {p | p.1 = handle ∧ QueuedAt w p.1 p.2} := by
    ext p
    by_cases h : p.1 = handle <;> simp [h]
  have hfin := queuedAt_finite hok hlive
  unfold queuedTotal queuedBeside TaskTable.number
  rw [hsplit, Set.ncard_union_eq _ (hfin.subset fun p hp => hp.2) (hfin.subset fun p hp => hp.2),
    hown, Set.ncard_image_of_injective _ (Prod.mk_right_injective handle)]
  rw [Set.disjoint_left]
  exact fun p hp hp' => hp.1 hp'.1

theorem queuedBeside_congr (h : ∀ other, other ≠ handle → w'.scheds other = w.scheds other) :
    queuedBeside w' handle = queuedBeside w handle := by
  unfold queuedBeside QueuedAt
  congr 1
  ext p
  simp only [Set.mem_ofPred_eq]
  refine and_congr_right fun hp => ?_
  rw [h p.1 hp]

/-- Without this scheduler only the others count. -/
theorem queuedTotal_none (handle : ℕ) (hs : w.scheds handle = none) :
    queuedTotal w = queuedBeside w handle := by
  unfold queuedTotal queuedBeside
  congr 1
  ext p
  simp only [Set.mem_ofPred_eq]
  refine ⟨fun h => ⟨?_, h⟩, fun h => h.2⟩
  rintro rfl
  obtain ⟨s, r, hs', -⟩ := h
  simp [hs] at hs'

end Total

/-! ## Steps -/

section Steps

variable {w w' : Shared σ} {handle : ℕ} {i : SharedOp ν}

/-- A slot that stays and running tasks that stay. -/
theorem Settled.slot_congr (h : Settled w)
    (hslot : w'.qpu.runtime.runningTaskId = w.qpu.runtime.runningTaskId)
    (hrun : ∀ handle id, w.qpu.runtime.runningTaskId = id → RunningAt w handle id →
      ∃ other, RunningAt w' other id) :
    w'.qpu.runtime.runningTaskId ≠ invalidTaskId →
      ∃ handle, RunningAt w' handle w'.qpu.runtime.runningTaskId := by
  intro hne
  rw [hslot] at hne ⊢
  obtain ⟨handle, hr⟩ := h.slot hne
  exact hrun handle _ rfl hr

theorem queuedTotal_update {s : Sched σ} (hok : SharedOk w')
    (hlive : {handle | (w'.scheds handle).isSome}.Finite)
    (hw : w'.scheds = Function.update w.scheds handle (some s)) :
    queuedTotal w' = queuedBeside w handle + s.tasks.number fun r => r.state = .queued := by
  rw [queuedTotal_eq (s := s) hok hlive (by rw [hw, Function.update_self])]
  congr 1
  exact queuedBeside_congr fun other h => by rw [hw, Function.update_of_ne h]

theorem live_update (w' : Shared σ) {s : Option (Sched σ)}
    (hlive : {handle | (w.scheds handle).isSome}.Finite)
    (hw : w'.scheds = Function.update w.scheds handle s) :
    {handle | (w'.scheds handle).isSome}.Finite := by
  refine (hlive.insert handle).subset fun other h => ?_
  simp only [Set.mem_ofPred_eq, hw, Function.update_apply] at h
  split at h
  · next hx => exact Or.inl hx
  · exact Or.inr h

/-- A scheduler that comes changes nothing. -/
theorem TeardownInv.create {E : Env} [DecidableEq ν] (P : ∀ n, PluginDesc (σ n))
    (h : TeardownInv w) : TeardownInv (sharedNext P w (.create handle E)) := by
  have hok := SharedOk.next P h.ok (.create handle E)
  simp only [sharedNext] at hok ⊢
  split at hok
  · exact h
  · next hnone =>
    split at hok
    · next halloc =>
      rw [if_pos halloc]
      have hlive := live_update ⟨qpuRetain w.qpu, Function.update w.scheds handle
        (some (schedCreate w.qpu))⟩ h.live rfl
      refine ⟨hok, hlive, ?_, ?_⟩
      · rw [queuedTotal_update (s := schedCreate w.qpu) (w := w) hok hlive rfl,
          ← queuedTotal_none handle hnone, ← h.settled.queued]
        exact congrArg (_ + ·) (TaskTable.number_empty _).symm
      · refine h.settled.slot_congr rfl fun other id _ hr => ⟨other, ?_⟩
        rw [runningAt_update (w := w) rfl]
        refine Or.inr ⟨?_, hr⟩
        rintro rfl
        obtain ⟨s, hs, -⟩ := hr
        simp [hnone] at hs
    · next halloc =>
      rw [if_neg halloc]
      exact h

/-- **A destroy** keeps the QPU settled exactly when it leaves nothing. -/
theorem settled_destroy_iff [DecidableEq ν] (P : ∀ n, PluginDesc (σ n)) {s : Sched σ}
    (h : TeardownInv w) (hs : w.scheds handle = some s) :
    Settled (sharedNext P w (.destroy handle)) ↔
      LeavesNothing w (.destroy handle : SharedOp ν) := by
  have hnext : sharedNext P w (.destroy handle) =
      ⟨qpuRelease w.qpu, Function.update w.scheds handle none⟩ := by
    simp only [sharedNext, hs]
  have hstays : ∀ other id, RunningAt (sharedNext P w (.destroy handle)) other id ↔
      other ≠ handle ∧ RunningAt w other id := by
    intro other id
    rw [hnext, runningAt_update (w := w) rfl]
    simp
  have htotal : queuedTotal (sharedNext P w (.destroy handle)) +
      s.tasks.number (fun r => r.state = .queued) = queuedTotal w := by
    rw [queuedTotal_eq h.ok h.live hs, hnext, queuedTotal_none handle (by simp)]
    congr 1
    exact queuedBeside_congr fun other hne => Function.update_of_ne hne _ _
  have hqueued : (∀ id, ¬ QueuedAt w handle id) ↔
      s.tasks.number (fun r => r.state = .queued) = 0 := by
    unfold TaskTable.number
    rw [Set.ncard_eq_zero ((h.ok handle s hs).finite _), Set.eq_empty_iff_forall_notMem]
    refine forall_congr' fun id => not_congr ?_
    simp [QueuedAt, hs]
  have hcount : (sharedNext P w (.destroy handle)).qpu.runtime.queuedCount = queuedTotal w := by
    rw [hnext]
    exact h.settled.queued
  have hslot : (sharedNext P w (.destroy handle)).qpu.runtime.runningTaskId =
      w.qpu.runtime.runningTaskId := by
    rw [hnext]
    rfl
  constructor
  · intro hsettled
    refine ⟨hqueued.2 ?_, fun id hr hid => ?_⟩
    · have := hsettled.queued
      omega
    · have hvalid : id ≠ invalidTaskId := by
        obtain ⟨t, ht, r, hr, -⟩ := hr
        exact (h.ok handle t ht).valid id r hr
      obtain ⟨other, hother⟩ := hsettled.slot (by rw [hslot, hid]; exact hvalid)
      rw [hslot, hid, hstays] at hother
      exact ⟨other, hother⟩
  · rintro ⟨hnone, hleft⟩
    refine ⟨?_, ?_⟩
    · have := hqueued.1 hnone
      omega
    · refine h.settled.slot_congr hslot fun other id hid hr => ?_
      by_cases hother : other = handle
      · subst hother
        obtain ⟨other', hne, hr'⟩ := hleft id hr hid
        exact ⟨other', (hstays other' id).2 ⟨hne, hr'⟩⟩
      · exact ⟨other, (hstays other id).2 ⟨hother, hr⟩⟩

/-- A call amounts to an event of its own scheduler. -/
theorem TeardownInv.call [DecidableEq ν] (P : ∀ n, PluginDesc (σ n)) {E : Env} {op : Op ν}
    (h : TeardownInv w) : TeardownInv (sharedNext P w (.call handle E op)) := by
  have hok := SharedOk.next P h.ok (.call handle E op)
  simp only [sharedNext] at hok ⊢
  split at hok
  · exact h
  · next s hs =>
    obtain ⟨e, -, hallowed, hled⟩ := step_event P E op (s := s.at w.qpu) (h.ok handle s hs)
    generalize (step P (s.at w.qpu) E op).sched = s' at hok hled ⊢
    have hlive := live_update (w.put handle s') h.live rfl
    have hhere : ∀ {L : Ledger} {id}, RunningIn (e.apply L).tasks id → L = (s.at w.qpu).ledger →
        RunningAt (w.put handle s') handle id := by
      rintro L id hr rfl
      rw [← hled] at hr
      exact ⟨s', by simp [Shared.put], hr⟩
    have hothers : ∀ {other id}, other ≠ handle → RunningAt w other id →
        RunningAt (w.put handle s') other id := by
      intro other id hne hr
      rw [runningAt_update (w := w) rfl]
      exact Or.inr ⟨hne, hr⟩
    have hown : ∀ {id}, RunningAt w handle id → RunningIn (s.at w.qpu).ledger.tasks id := by
      rintro id ⟨t, ht, hr⟩
      obtain rfl := Option.some.inj (hs.symm.trans ht)
      exact hr
    have hslot : (w.put handle s').qpu.runtime.runningTaskId =
        (e.apply (s.at w.qpu).ledger).qpu.runtime.runningTaskId :=
      congrArg (fun L : Ledger => L.qpu.runtime.runningTaskId) hled
    refine ⟨hok, hlive, ?_, ?_⟩
    · have hbeside : QueuedBeside (queuedBeside w handle) (s.at w.qpu).ledger :=
        h.settled.queued.trans (queuedTotal_eq (s := s) h.ok h.live hs)
      have hafter := hbeside.apply (h.ok handle s hs) hallowed
      rw [← hled] at hafter
      rw [queuedTotal_update (w := w) hok hlive rfl]
      exact hafter
    · rcases Event.slot_cases hallowed with ⟨hsame, hrun⟩ | ⟨id, -, htaken, hruns, -⟩ |
        ⟨id, state, rfl, hgiven, hrun⟩
      · refine h.settled.slot_congr (hslot.trans hsame) fun other id _ hr => ⟨other, ?_⟩
        by_cases hother : other = handle
        · subst hother
          exact hhere ((hrun id).2 (hown hr)) rfl
        · exact hothers hother hr
      · intro _
        rw [hslot, htaken]
        exact ⟨handle, hhere hruns rfl⟩
      · rw [hslot, hgiven]
        intro hne
        -- the slot was not given back, so its task is another one
        have hother : w.qpu.runtime.runningTaskId ≠ id := by
          intro heq
          have heq' : (s.at w.qpu).ledger.qpu.runtime.runningTaskId = id := heq
          simp [heq'] at hne
        have hkeep : (s.at w.qpu).ledger.qpu.runtime.runningTaskId =
            w.qpu.runtime.runningTaskId := rfl
        rw [hkeep, if_neg hother] at hne ⊢
        obtain ⟨other, hr⟩ := h.settled.slot hne
        by_cases hx : other = handle
        · subst hx
          exact ⟨other, hhere ((hrun _).2 ⟨hother, hown hr⟩) rfl⟩
        · exact ⟨other, hothers hx hr⟩

/-- **One operation**, under the condition. -/
theorem TeardownInv.next [DecidableEq ν] (P : ∀ n, PluginDesc (σ n)) (h : TeardownInv w)
    (hleaves : LeavesNothing w i) : TeardownInv (sharedNext P w i) := by
  cases i with
  | create handle E => exact h.create P
  | destroy handle =>
    cases hs : w.scheds handle with
    | none =>
      have hnext : sharedNext P w (.destroy handle) = w := by simp only [sharedNext, hs]
      rw [hnext]
      exact h
    | some s =>
      refine ⟨SharedOk.next P h.ok _, ?_, (settled_destroy_iff P h hs).2 hleaves⟩
      refine live_update (sharedNext P w (.destroy handle)) h.live
        (show _ = Function.update w.scheds handle none from ?_)
      simp only [sharedNext, hs]
  | call handle E op => exact h.call P

/-- The task is ready to start, and the hook of the policy does not refuse it. -/
def Startable (P : ∀ n, PluginDesc (σ n)) (s : Sched σ) (E : Env) (id : TaskId) : Prop :=
  (stateOf s.tasks id = some .queued ∧ s.policy = none) ∨
    (stateOf s.tasks id = some .assigned ∧ ∀ n state, s.policy = some ⟨n, state⟩ →
      ((P n).onTaskStarted E state id .start).rc = .ok)

/-- Such a task starts when the slot is free. -/
theorem taskStarted_startable {P : ∀ n, PluginDesc (σ n)} {s : Sched σ} {E : Env} {id : TaskId}
    (h : Startable P s E id) (hslot : s.qpu.runtime.runningTaskId = invalidTaskId) :
    (taskStarted P E s id .start).rc = .ok ∧
      RunningIn (taskStarted P E s id .start).sched.tasks id := by
  have hsome : ∃ r, taskTableFind s.tasks id = some r := by
    rw [← Option.isSome_iff_exists, ← Option.isSome_map (f := TaskRecord.state)]
    rcases h with ⟨h, -⟩ | ⟨h, -⟩
    · exact Option.isSome_iff_exists.2 ⟨_, h⟩
    · exact Option.isSome_iff_exists.2 ⟨_, h⟩
  obtain ⟨r, hr⟩ := hsome
  have hstate : ¬ (r.state ≠ .assigned ∧ (r.state ≠ .queued ∨ s.policy.isSome)) := by
    rw [Startable, stateOf_of_find hr, Option.some.injEq, Option.some.injEq] at h
    rcases h with ⟨hs, hp⟩ | ⟨hs, -⟩
    · simp [hs, hp]
    · simp [hs]
  have hfree : ¬ (qpuRuntimeTaskStarted s.qpu id).1 ≠ .ok := by
    simp [qpuRuntimeTaskStarted, hslot]
  have hruns : RunningIn (taskTableSetState s.tasks id .running) id := by
    rw [setState_of_find hr]
    exact runningIn_update.2 (Or.inl ⟨rfl, rfl⟩)
  unfold taskStarted
  simp only [hr, if_neg hstate, if_neg hfree]
  split
  · exact ⟨rfl, hruns⟩
  · next n state hpolicy =>
    have hhook : ((P n).onTaskStarted E state id .start).rc = .ok := by
      rcases h with ⟨-, hp⟩ | ⟨-, hp⟩
      · simp [hp] at hpolicy
      · exact hp n state hpolicy
    simp only [hhook, ne_eq, not_true_eq_false, if_false]
    exact ⟨trivial, hruns⟩

end Steps

/-- **Destroying a scheduler returns its share of the QPU** along every run in
which every destroy leaves nothing: the QPU is settled in every state, the next
destroy keeps it so exactly when it leaves nothing either, and while no scheduler
that is alive runs a task, every task that is ready starts. -/
theorem destroyed_share [DecidableEq ν] (P : ∀ n, PluginDesc (σ n)) (metadata : KvArray)
    (is : List (SharedOp ν))
    (hleaves : Foundations.Along (sharedNext P) LeavesNothing (sharedCreate metadata) is) :
    let w := Foundations.run (sharedNext P) (sharedCreate metadata) is
    Settled w ∧
    (∀ handle s, w.scheds handle = some s →
      (Settled (sharedNext P w (.destroy handle)) ↔
        LeavesNothing w (.destroy handle : SharedOp ν))) ∧
    ((∀ handle id, ¬ RunningAt w handle id) → ∀ handle s E id, w.scheds handle = some s →
      Startable P s E id → (step P (s.at w.qpu) E (.taskStarted id)).rc = .ok ∧
        RunningAt (sharedNext P w (.call handle E (.taskStarted id))) handle id) := by
  intro w
  have hinit : TeardownInv (sharedCreate metadata : Shared σ) := by
    refine ⟨by simp [SharedOk, sharedCreate], by simp [sharedCreate], ?_, ?_⟩
    · simp [queuedTotal, QueuedAt, sharedCreate, qpuCreate]
    · simp [sharedCreate, qpuCreate, invalidTaskId]
  have h : TeardownInv w :=
    Foundations.run_invariant_along (fun w i h hok => TeardownInv.next P h hok) hinit hleaves
  refine ⟨h.settled, fun handle s hs => settled_destroy_iff P h hs, ?_⟩
  intro hidle handle s E id hs hstart
  have hfree : (s.at w.qpu).qpu.runtime.runningTaskId = invalidTaskId := by
    by_contra hne
    obtain ⟨other, hr⟩ := h.settled.slot hne
    exact hidle other _ hr
  obtain ⟨hrc, hruns⟩ := taskStarted_startable (s := s.at w.qpu) hstart hfree
  refine ⟨hrc, ?_⟩
  simp only [sharedNext, hs]
  exact ⟨_, Function.update_self handle _ _, hruns⟩

/-! ## A scheduler that leaves work behind -/

/-- The records of a scheduler, checked one after the other. -/
theorem forall_records {w : Shared σ} (hok : SharedOk w) {handle : ℕ} (p : TaskState → Bool)
    (h : (w.scheds handle).all (fun s => s.tasks.enqueueOrder.all fun id =>
      (stateOf s.tasks id).all p) = true) {s : Sched σ} {id : TaskId} {r : TaskRecord}
    (hs : w.scheds handle = some s) (hr : taskTableFind s.tasks id = some r) : p r.state := by
  rw [hs, Option.all_some, List.all_eq_true] at h
  have hmem := h id (((hok handle s hs).mem_order id).2 (by rw [hr]; rfl))
  rwa [stateOf_of_find hr, Option.all_some] at hmem

/-- A handle under which nothing was created has no scheduler. -/
theorem scheds_run_none [DecidableEq ν] {P : ∀ n, PluginDesc (σ n)} {w : Shared σ} {handle : ℕ}
    {is : List (SharedOp ν)} (hnone : w.scheds handle = none)
    (hnot : ∀ i ∈ is, ∀ E, i ≠ .create handle E) :
    (Foundations.run (sharedNext P) w is).scheds handle = none := by
  induction is generalizing w with
  | nil => exact hnone
  | cons i is ih =>
    refine ih ?_ fun j hj => hnot j (List.mem_cons_of_mem _ hj)
    have hi := hnot i (by simp)
    cases i with
    | create other E =>
      have hne : handle ≠ other := fun h => hi E (h ▸ rfl)
      simp only [sharedNext]
      split
      · exact hnone
      · split
        · exact (Function.update_of_ne hne _ _).trans hnone
        · exact hnone
    | destroy other =>
      simp only [sharedNext]
      split
      · exact hnone
      · by_cases h : handle = other
        · subst h
          exact Function.update_self handle _ _
        · exact (Function.update_of_ne h _ _).trans hnone
    | call other E op =>
      simp only [sharedNext]
      split
      · exact hnone
      · next s hs =>
        have hne : handle ≠ other := by
          rintro rfl
          simp [hnone] at hs
        exact (Function.update_of_ne hne _ _).trans hnone

/-- A scheduler runs its task 7 while a task 8 is queued. -/
def busyRun : List (SharedOp Empty) :=
  [.create 0 (.still 0), .call 0 (.still 0) (.submitTask { taskId := 7 } {}),
    .call 0 (.still 0) (.submitTask { taskId := 8 } {}), .call 0 (.still 0) (.taskStarted 7)]

/-- The scheduler is destroyed, and the next one queues a task 9. -/
def replaceRun : List (SharedOp Empty) :=
  [.destroy 0, .create 1 (.still 0), .call 1 (.still 0) (.submitTask { taskId := 9 } {})]

/-- Both tasks end before that. -/
def tidyRun : List (SharedOp Empty) :=
  busyRun ++ [.call 0 (.still 0) (.taskCompleted 7), .call 0 (.still 0) (.taskCancelled 8)]

/-- Nothing runs on two schedulers of which the first is gone. -/
theorem replaced_idle {is : List (SharedOp Empty)} {w : Shared fun n : Empty => (n.elim : Type)}
    (hok : SharedOk w)
    (hw : w = Foundations.run (sharedNext noPlugins) (sharedCreate (some [])) is)
    (hgone : (w.scheds 0).isNone)
    (hnot : ∀ i ∈ is, ∀ handle E, i = .create handle E → handle = 0 ∨ handle = 1)
    (hrun : (w.scheds 1).all (fun s => s.tasks.enqueueOrder.all fun id =>
      (stateOf s.tasks id).all fun state => state ≠ .running) = true) :
    ∀ handle id, ¬ RunningAt w handle id := by
  rintro handle id ⟨t, ht, r, hr, hrunning⟩
  by_cases h1 : handle = 1
  · subst h1
    have := forall_records hok (fun state => state ≠ .running) hrun ht hr
    simp [hrunning] at this
  · by_cases h0 : handle = 0
    · subst h0
      simp [ht] at hgone
    · have hnone : w.scheds handle = none := by
        rw [hw]
        refine scheds_run_none rfl fun i hi E h => ?_
        rcases hnot i hi handle E h with h | h
        · exact h0 h
        · exact h1 h
      simp [ht] at hnone

/-- The next scheduler has its task 9 ready. -/
theorem replaced_startable {w : Shared fun n : Empty => (n.elim : Type)}
    (h : (w.scheds 1).all (fun s => stateOf s.tasks 9 = some .queued ∧ s.policy.isNone) = true)
    {s : Sched fun n : Empty => (n.elim : Type)} (hs : w.scheds 1 = some s) :
    Startable noPlugins s (.still 0) 9 := by
  rw [hs, Option.all_some, decide_eq_true_eq] at h
  exact Or.inl ⟨h.1, Option.isNone_iff_eq_none.1 h.2⟩

/-- After `tidyRun` task 9 of the next scheduler starts. -/
theorem destroyed_share_tidyRun :
    let w := Foundations.run (sharedNext noPlugins) (sharedCreate (some [])) (tidyRun ++ replaceRun)
    ∃ s, w.scheds 1 = some s ∧ (step noPlugins (s.at w.qpu) (.still 0) (.taskStarted 9)).rc = .ok := by
  intro w
  obtain ⟨s, hs⟩ := Option.isSome_iff_exists.1 (show (w.scheds 1).isSome by decide +kernel)
  have hstart : Startable noPlugins s (.still 0) 9 := replaced_startable (by decide +kernel) hs
  have hidle : ∀ handle id, ¬ RunningAt w handle id :=
    replaced_idle (shared_ok noPlugins (some []) _) rfl (by decide +kernel)
      (by simp [tidyRun, busyRun, replaceRun]) (by decide +kernel)
  have hleaves : Foundations.Along (sharedNext noPlugins) LeavesNothing (sharedCreate (some []))
      (tidyRun ++ replaceRun) := by
    refine Foundations.along_append.2 ⟨?_, ⟨?_, ?_⟩, trivial, trivial, trivial⟩
    · simp [tidyRun, busyRun, Foundations.Along, LeavesNothing]
    · rintro id ⟨t, r, ht, hr, hq⟩
      have := forall_records (shared_ok noPlugins (some []) tidyRun) (fun state => state ≠ .queued)
        (by decide +kernel) ht hr
      simp [hq] at this
    · rintro id ⟨t, ht, r, hr, hrun⟩
      have := forall_records (shared_ok noPlugins (some []) tidyRun) (fun state => state ≠ .running)
        (by decide +kernel) ht hr
      simp [hrun] at this
  exact ⟨s, hs, ((destroyed_share noPlugins (some []) _ hleaves).2.2 hidle 1 s (.still 0) 9 hs
    hstart).1⟩

/-- After `busyRun` the QPU is not settled once the scheduler is gone, and though
nothing runs the next one's task 9 does not start. -/
theorem destroyed_share_stranded :
    let w := Foundations.run (sharedNext noPlugins) (sharedCreate (some [])) (busyRun ++ [.destroy 0])
    let w' := Foundations.run (sharedNext noPlugins) (sharedCreate (some [])) (busyRun ++ replaceRun)
    w.qpu.runtime.queuedCount ≠ queuedTotal w ∧ ¬ Settled w ∧
      (∀ handle id, ¬ RunningAt w' handle id) ∧
      ∃ s, w'.scheds 1 = some s ∧ Startable noPlugins s (.still 0) 9 ∧
        (step noPlugins (s.at w'.qpu) (.still 0) (.taskStarted 9)).rc ≠ .ok := by
  intro w w'
  have hgone : ∀ handle, w.scheds handle = none := by
    intro handle
    by_cases h0 : handle = 0
    · subst h0
      exact Option.isNone_iff_eq_none.1 (by decide +kernel)
    · exact scheds_run_none rfl (by simp [busyRun, Ne.symm h0])
  have hidle : ∀ handle id, ¬ RunningAt w' handle id :=
    replaced_idle (shared_ok noPlugins (some []) _) rfl (by decide +kernel)
      (by simp [busyRun, replaceRun]) (by decide +kernel)
  obtain ⟨s, hs⟩ := Option.isSome_iff_exists.1 (show (w'.scheds 1).isSome by decide +kernel)
  refine ⟨?_, fun h => ?_, hidle, s, hs, replaced_startable (by decide +kernel) hs, ?_⟩
  · have hcount : w.qpu.runtime.queuedCount = 1 := by decide +kernel
    have htotal : queuedTotal w = 0 := by simp [queuedTotal, QueuedAt, hgone]
    omega
  · obtain ⟨handle, s, hs, -⟩ := h.slot (by decide +kernel)
    simp [hgone] at hs
  · have hslot : w'.qpu.runtime.runningTaskId ≠ invalidTaskId := by decide +kernel
    exact taskStarted_refused noPlugins hslot

end QhwScheduler
