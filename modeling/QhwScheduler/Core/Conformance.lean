import QhwScheduler.Core.Commit
import QhwScheduler.Core.Failure
import QhwScheduler.Core.SplitParents

/-!
# Lifecycle conformance

The state of a task moves along the edges of its lifecycle only, each taken by
the operation it belongs to.

* `LifeMove` — the edges, with the operation that takes them.
* `Event.move` — what an event does to the state of one task.
* `Conforms` — what one operation may do to all of them.
* `lifecycle_conforms` — every operation of every run conforms; states that end a
  lifecycle stay, and no record disappears.
-/

namespace QhwScheduler

variable {ν : Type} {σ : ν → Type}

/-! ## The edges -/

/-- The edges of the lifecycle of `id`, as the operation `op` takes them from `s`
to `s'`. -/
inductive LifeMove (op : Op ν) (s s' : Sched σ) (id : TaskId) : TaskState → TaskState → Prop
  | stay (state : TaskState) : LifeMove op s s' id state state
  | select (h : op = .selectNext) : LifeMove op s s' id .queued .assigned
  | start (h : op = .taskStarted id) : LifeMove op s s' id .assigned .running
  /-- Without a policy a task starts from the queue. -/
  | startQueued (h : op = .taskStarted id) (unset : s.policy = none) :
      LifeMove op s s' id .queued .running
  | complete (h : op = .taskCompleted id) : LifeMove op s s' id .running .completed
  | fail (old : TaskState) (h : op = .taskFailed id)
      (active : old = .queued ∨ old = .assigned ∨ old = .running) :
      LifeMove op s s' id old .failed
  | cancel (old : TaskState) (h : op = .taskCancelled id)
      (active : old = .queued ∨ old = .assigned ∨ old = .running) :
      LifeMove op s s' id old .cancelled
  /-- A split parent ends in the call that finishes another record. -/
  | aggregate (child : TaskId) (old state new : TaskState) (other : child ≠ id)
      (finishes : op.finishes = some (child, state))
      (before : stateOf s.tasks child = some old) (running : taskStateIsTerminal old = false)
      (after : stateOf s'.tasks child = some state) (terminal : taskStateIsTerminal new) :
      LifeMove op s s' id .waiting new

/-- The edges an event takes. -/
inductive Event.Move (e : Event) (id : TaskId) : TaskState → TaskState → Prop
  | stay (state : TaskState) : Event.Move e id state state
  | assign (h : e = .assign id) : Event.Move e id .queued .assigned
  | start (old : TaskState) (h : e = .start id) (ready : old = .assigned ∨ old = .queued) :
      Event.Move e id old .running
  | finish (old new : TaskState) (h : e = .finish id new)
      (terminal : taskStateIsTerminal new)
      (active : old = .queued ∨ old = .assigned ∨ old = .running)
      (completed : new = .completed → old = .running) : Event.Move e id old new
  | aggregate (child : TaskId) (state new : TaskState) (other : child ≠ id)
      (h : e = .finish child state) (terminal : taskStateIsTerminal new) :
      Event.Move e id .waiting new

/-! ## States after a change -/

section States

variable {table : TaskTable} {r : TaskRecord} {id x : TaskId}

theorem stateOf_of_find (h : taskTableFind table id = some r) : stateOf table id = some r.state := by
  rw [stateOf, h, Option.map_some]

theorem stateOf_insert : stateOf (table.insert r) x =
    if x = r.desc.taskId then some r.state else stateOf table x := by
  unfold stateOf
  rw [find_insert]
  split <;> rfl

theorem stateOf_update : stateOf (table.update id r) x =
    if x = id then some r.state else stateOf table x := by
  unfold stateOf
  rw [find_update]
  split <;> rfl

/-- The parent's update touches a waiting record only. -/
theorem stateOf_updateParent (table : TaskTable) (x : TaskId) (child : TaskRecord)
    (state : TaskState) :
    stateOf (updateParentAfterChildLocked table child state) x = stateOf table x ∨
      (stateOf table x = some .waiting ∧ ∃ new, taskStateIsTerminal new ∧
        stateOf (updateParentAfterChildLocked table child state) x = some new) := by
  unfold updateParentAfterChildLocked
  split
  · exact Or.inl rfl
  · split
    · exact Or.inl rfl
    · next p hp =>
      split
      · exact Or.inl rfl
      · next hw =>
        have hwaiting := stateOf_of_find hp
        rw [not_not.1 hw] at hwaiting
        dsimp only
        rw [stateOf_update]
        split
        · next hx =>
          rw [hx]
          rcases parentState_cases (p.countChild state) with h | h
          · exact Or.inl (by rw [h, hwaiting])
          · exact Or.inr ⟨hwaiting, _, h, rfl⟩
        · exact Or.inl rfl

theorem stateOf_acceptAll {L : Ledger} {seq : ℕ} (children : List TaskDesc)
    (h : x ∉ taskIds children) :
    stateOf (L.acceptAll seq children).tasks x = stateOf L.tasks x := by
  unfold stateOf
  rw [acceptAll_find_of_not_mem h]

end States

/-! ## Events -/

section Events

variable {L : Ledger} {e : Event} {id : TaskId}

/-- The finished task has the state it was finished with. -/
theorem Event.finish_state {state : TaskState} (hallowed : Event.Allowed L (.finish id state)) :
    stateOf ((Event.finish id state).apply L).tasks id = some state := by
  obtain ⟨hterm, r, hr, -⟩ := hallowed
  rw [Event.apply, on_of_find hr]
  have hparent := stateOf_updateParent (L.tasks.update id { r with state := state }) id r state
  rw [stateOf_update, if_pos rfl] at hparent
  rcases hparent with h | ⟨h, -⟩
  · exact h
  · obtain rfl : state = .waiting := Option.some.inj h
    simp [taskStateIsTerminal] at hterm

/-- **What an event does to the state of one task.** -/
theorem Event.move (hallowed : e.Allowed L) {old : TaskState} (hold : stateOf L.tasks id = some old)
    (hknown : old ≠ .unknown) :
    ∃ new, stateOf (e.apply L).tasks id = some new ∧ Event.Move e id old new := by
  have hstay : ∀ L' : Ledger, e.apply L = L' → stateOf L'.tasks id = stateOf L.tasks id →
      ∃ new, stateOf (e.apply L).tasks id = some new ∧ Event.Move e id old new :=
    fun _ h h' => ⟨old, by rw [h, h', hold], .stay old⟩
  cases e with
  | idle => exact hstay L rfl rfl
  | accept task seq =>
    refine hstay (L.accept task seq) rfl ?_
    rw [Ledger.accept, stateOf_insert, if_neg]
    rintro rfl
    simp [stateOf, hallowed.1] at hold
  | acceptSplit parent children seq =>
    obtain ⟨hnew, -, hfresh, -⟩ := hallowed
    refine hstay (Ledger.acceptAll ⟨L.tasks.insert (parentRecord parent seq children.length),
      L.qpu⟩ (seq + 1) children) rfl ?_
    rw [stateOf_acceptAll, stateOf_insert, if_neg]
    · rintro rfl
      simp [stateOf, parentRecord, hnew] at hold
    · rw [mem_taskIds]
      rintro ⟨d, hd, rfl⟩
      simp [stateOf, hfresh.fresh d hd] at hold
  | assign x =>
    obtain ⟨r, hr, hq⟩ := hallowed
    rw [Event.apply, on_of_find hr, stateOf_update]
    split
    · next hx =>
      subst hx
      rw [stateOf_of_find hr, hq] at hold
      obtain rfl := Option.some.inj hold
      exact ⟨_, rfl, .assign rfl⟩
    · exact ⟨old, hold, .stay old⟩
  | reprioritize x priority =>
    obtain ⟨r, hr, -⟩ := hallowed
    rw [Event.apply, on_of_find hr, stateOf_update]
    split
    · next hx =>
      subst hx
      rw [stateOf_of_find hr] at hold
      exact ⟨_, hold, .stay old⟩
    · exact ⟨old, hold, .stay old⟩
  | start x =>
    obtain ⟨-, r, hr, hready⟩ := hallowed
    rw [Event.apply, on_of_find hr, stateOf_update]
    split
    · next hx =>
      subst hx
      rw [stateOf_of_find hr] at hold
      obtain rfl := Option.some.inj hold
      exact ⟨_, rfl, .start _ rfl hready⟩
    · exact ⟨old, hold, .stay old⟩
  | finish x state =>
    by_cases hx : id = x
    · subst hx
      have hafter := Event.finish_state hallowed
      obtain ⟨hterm, r, hr, hnt, hnw, hcompleted⟩ := hallowed
      rw [stateOf_of_find hr] at hold
      obtain rfl := Option.some.inj hold
      refine ⟨state, hafter, .finish _ _ rfl hterm ?_ hcompleted⟩
      revert hnt hnw hknown
      generalize r.state = old
      intro hnt hnw hknown
      cases old <;> simp [taskStateIsTerminal] at hnt hnw hknown ⊢
    · obtain ⟨-, r, hr, -⟩ := hallowed
      rw [Event.apply, on_of_find hr]
      have hparent := stateOf_updateParent (L.tasks.update x { r with state := state }) id r state
      rw [stateOf_update, if_neg hx, hold] at hparent
      dsimp only
      rcases hparent with h | ⟨h, new, hnew, hafter⟩
      · exact ⟨old, h, .stay old⟩
      · obtain rfl := Option.some.inj h
        exact ⟨new, hafter, .aggregate x state new (Ne.symm hx) rfl hnew⟩

/-- A task enters in one of two states. -/
theorem Event.enter (hallowed : e.Allowed L) {state : TaskState} (hnone : stateOf L.tasks id = none)
    (h : stateOf (e.apply L).tasks id = some state) :
    e.Entry ∧ (state = .queued ∨ state = .waiting) := by
  have hupdate : ∀ {x r r'}, taskTableFind L.tasks x = some r →
      stateOf (L.tasks.update x r') id = none := by
    intro x r r' hr
    rw [stateOf_update, if_neg, hnone]
    rintro rfl
    simp [stateOf, hr] at hnone
  cases e with
  | idle => simp [Event.apply, hnone] at h
  | accept task seq =>
    refine ⟨trivial, Or.inl ?_⟩
    rw [Event.apply, Ledger.accept, stateOf_insert, hnone] at h
    split at h
    · exact (Option.some.inj h).symm
    · simp at h
  | acceptSplit parent children seq =>
    obtain ⟨-, -, hfresh, -⟩ := hallowed
    refine ⟨trivial, ?_⟩
    rw [Event.apply] at h
    by_cases hmem : id ∈ taskIds children
    · obtain ⟨d, hd, rfl⟩ := mem_taskIds.1 hmem
      obtain ⟨n, hn⟩ := acceptAll_find_of_mem
        (L := ⟨L.tasks.insert (parentRecord parent seq children.length), L.qpu⟩) (seq + 1)
        hfresh.nodup hd
      rw [stateOf_of_find hn] at h
      exact Or.inl (Option.some.inj h).symm
    · rw [stateOf_acceptAll children hmem, stateOf_insert, hnone] at h
      split at h
      · exact Or.inr (Option.some.inj h).symm
      · simp at h
  | assign x =>
    obtain ⟨r, hr, -⟩ := hallowed
    rw [Event.apply, on_of_find hr, hupdate hr] at h
    simp at h
  | reprioritize x priority =>
    obtain ⟨r, hr, -⟩ := hallowed
    rw [Event.apply, on_of_find hr, hupdate hr] at h
    simp at h
  | start x =>
    obtain ⟨-, r, hr, -⟩ := hallowed
    rw [Event.apply, on_of_find hr, hupdate hr] at h
    simp at h
  | finish x new =>
    obtain ⟨-, r, hr, -⟩ := hallowed
    rw [Event.apply, on_of_find hr] at h
    have hparent := stateOf_updateParent (L.tasks.update x { r with state := new }) id r new
    rw [hupdate hr] at hparent
    rcases hparent with h' | ⟨h', -⟩
    · dsimp only at h
      rw [h'] at h
      simp at h
    · simp at h'

/-- No record has the state that is no state. -/
def KnownStates (table : TaskTable) : Prop :=
  ∀ id state, stateOf table id = some state → state ≠ .unknown

theorem KnownStates.apply (h : KnownStates L.tasks) (hallowed : e.Allowed L) :
    KnownStates (e.apply L).tasks := by
  intro id new hnew
  cases hold : stateOf L.tasks id with
  | none =>
    rcases (Event.enter hallowed hold hnew).2 with rfl | rfl <;> simp
  | some old =>
    obtain ⟨new', hnew', hmove⟩ := Event.move hallowed hold (h id old hold)
    obtain rfl := Option.some.inj (hnew.symm.trans hnew')
    cases hmove with
    | stay => exact h id _ hold
    | assign => simp
    | start => simp
    | finish _ _ _ hterm =>
      rintro rfl
      simp [taskStateIsTerminal] at hterm
    | aggregate _ _ _ _ _ hterm =>
      rintro rfl
      simp [taskStateIsTerminal] at hterm

end Events

/-! ## Operations -/

section Operations

variable [DecidableEq ν] (P : ∀ n, PluginDesc (σ n))

/-- What one operation may do to the states of the tasks, and what it answers to an id that
is taken. -/
structure Conforms (s : Sched σ) (i : Env × Op ν) : Prop where
  /-- A task enters by a submission, in one of two states. -/
  enters : ∀ id state, stateOf s.tasks id = none →
    stateOf (step P s i.1 i.2).sched.tasks id = some state →
    i.2.Submits ∧ (state = .queued ∨ state = .waiting)
  /-- An accepted submission has entered its task. -/
  accepted : ∀ task answers, i.2 = .submitTask task answers → (step P s i.1 i.2).rc = .ok →
    stateOf s.tasks task.taskId = none ∧
      (stateOf (step P s i.1 i.2).sched.tasks task.taskId).isSome
  /-- A task that is there stays there and takes an edge. -/
  moves : ∀ id old, stateOf s.tasks id = some old →
    ∃ new, stateOf (step P s i.1 i.2).sched.tasks id = some new ∧
      LifeMove i.2 s (step P s i.1 i.2).sched id old new
  /-- An id that is taken is refused. -/
  refused : ∀ task, (stateOf s.tasks task.taskId).isSome →
    (∃ answers, i.2 = .submitTask task answers) ∨ i.2 = .submitBegin task →
    (step P s i.1 i.2).rc = .errExists
  /-- A policy, once set, is never unset. -/
  policy : s.policy.isSome → (step P s i.1 i.2).sched.policy.isSome

end Operations

section Steps

variable {P : ∀ n, PluginDesc (σ n)} {s : Sched σ} {E : Env} {op : Op ν}

/-- A queued task is not started while a policy is active. -/
theorem taskStarted_queued {id : TaskId} {c : Cursor} (hqueued : stateOf s.tasks id = some .queued)
    (hpolicy : s.policy.isSome) : (taskStarted P E s id c).sched = s := by
  unfold taskStarted
  split
  · rfl
  · next r hr =>
    rw [stateOf_of_find hr, Option.some.injEq] at hqueued
    rw [if_pos (by rw [hqueued]; exact ⟨by decide, Or.inr hpolicy⟩)]

/-- The edges of an operation are those of its event. -/
theorem Event.Move.life {e : Event} {id : TaskId} {old new : TaskState} {s' : Sched σ}
    (h : Event.Move e id old new) (hby : Event.By op e) (hallowed : e.Allowed s.ledger)
    (hled : s'.ledger = e.apply s.ledger)
    (hqueued : op = .taskStarted id → old = .queued → new = .running → s.policy = none) :
    LifeMove op s s' id old new := by
  cases h with
  | stay => exact .stay _
  | assign h =>
    subst h
    exact .select hby
  | start _ h hready =>
    subst h
    rcases hready with rfl | rfl
    · exact .start hby
    · exact .startQueued hby (hqueued hby rfl rfl)
  | finish _ _ h hterm hactive hcompleted =>
    subst h
    cases op with
    | taskCompleted x =>
      obtain ⟨rfl, rfl⟩ := Prod.mk.inj (Option.some.inj hby)
      rw [hcompleted rfl]
      exact .complete rfl
    | taskFailed x =>
      obtain ⟨rfl, rfl⟩ := Prod.mk.inj (Option.some.inj hby)
      exact .fail _ rfl hactive
    | taskCancelled x =>
      obtain ⟨rfl, rfl⟩ := Prod.mk.inj (Option.some.inj hby)
      exact .cancel _ rfl hactive
    | _ => simp [Event.By, Op.finishes] at hby
  | aggregate child state _ hother h hterm =>
    subst h
    have hafter := Event.finish_state hallowed
    obtain ⟨-, r, hr, hnt, -⟩ := hallowed
    rw [← hled] at hafter
    exact .aggregate child r.state state new hother hby (stateOf_of_find hr) hnt hafter hterm

/-- No operation unsets the policy. -/
theorem step_policy [DecidableEq ν] (hpolicy : s.policy.isSome) :
    (step P s E op).sched.policy.isSome := by
  have hsame : ∀ {s' : Sched σ}, SameBinding P s.policy s'.policy → s'.policy.isSome :=
    fun h => h.isSome.trans hpolicy
  cases op with
  | setCallbacks callbacks => exact hpolicy
  | loadPlugin name valid =>
    show (loadPlugin E s name valid .start).sched.policy.isSome
    unfold loadPlugin
    split <;> exact hpolicy
  | setPolicy name options =>
    show (setPolicy P E s name options .start).sched.policy.isSome
    unfold setPolicy
    split
    · exact hpolicy
    · split
      · exact hpolicy
      · dsimp only
        split
        · exact hpolicy
        · split
          · exact hpolicy
          · rfl
  | submitTask task answers =>
    exact hsame ((submission_config s).submit (SameConfig.refl s) task answers .start).1
  | submitBegin task => exact hsame ((submission_config s).prepare (SameConfig.refl s) task .start).1
  | submitEnd plan answers =>
    exact hsame ((submission_config s).finish (SameConfig.refl s) plan answers .start).1
  | selectNext => exact hsame schedSelectNext_binding
  | taskUpdatePriority id priority => exact hsame taskUpdatePriority_binding
  | taskStarted id => exact hsame taskStarted_binding
  | taskCompleted id => exact hsame finishTask_binding
  | taskFailed id => exact hsame finishTask_binding
  | taskCancelled id => exact hsame finishTask_binding

/-- An id that is taken is refused before anything else is looked at. -/
theorem submitPrepare_exists {task : TaskDesc} {c : Cursor}
    (h : (stateOf s.tasks task.taskId).isSome) :
    submitPrepare P E s task c = ⟨.errExists, s, c, none⟩ := by
  rw [stateOf, Option.isSome_map] at h
  unfold submitPrepare
  rw [if_pos h]

/-- **One operation conforms.** -/
theorem conforms [DecidableEq ν] (hok : s.tasks.Ok) (hknown : KnownStates s.tasks) :
    Conforms P s (E, op) := by
  obtain ⟨e, hby, hallowed, hled⟩ := step_event P E op hok
  have htasks : (step P s E op).sched.tasks = (e.apply s.ledger).tasks := congrArg Ledger.tasks hled
  refine ⟨?_, ?_, ?_, ?_, step_policy⟩
  · intro id state hnone hstate
    dsimp only at hstate
    rw [htasks] at hstate
    obtain ⟨hentry, hcases⟩ := Event.enter hallowed hnone hstate
    exact ⟨Op.entry_submits hentry hby, hcases⟩
  · rintro task answers rfl hrc
    unfold stateOf
    rw [Option.isSome_map, Option.map_eq_none_iff]
    rcases submitTask_committed hok hrc with ⟨-, entered, hcommit⟩ | ⟨plan, -, entered, hcommit⟩
    · exact hcommit.enters
    · exact hcommit.enters
  · intro id old hold
    obtain ⟨new, hnew, hmove⟩ := Event.move hallowed hold (hknown id old hold)
    refine ⟨new, htasks ▸ hnew, hmove.life hby hallowed hled ?_⟩
    rintro rfl rfl rfl
    by_contra hpolicy
    have hsame : (step P s E (.taskStarted id)).sched = s :=
      taskStarted_queued hold (Option.isSome_iff_ne_none.2 hpolicy)
    rw [← htasks, hsame, hold] at hnew
    simp at hnew
  · rintro task htaken (⟨answers, rfl⟩ | rfl)
    · show (submitTask P E s task answers .start).rc = .errExists
      unfold submitTask
      rw [submitPrepare_exists htaken]
    · show (submitPrepare P E s task .start).rc = .errExists
      rw [submitPrepare_exists htaken]

end Steps

/-! ## Runs -/

/-- A lifecycle that ended stays as it is. -/
theorem LifeMove.terminal {op : Op ν} {s s' : Sched σ} {id : TaskId} {old new : TaskState}
    (h : LifeMove op s s' id old new) (hold : taskStateIsTerminal old) : new = old := by
  cases h with
  | stay => rfl
  | fail _ _ active => rcases active with rfl | rfl | rfl <;> simp [taskStateIsTerminal] at hold
  | cancel _ _ active => rcases active with rfl | rfl | rfl <;> simp [taskStateIsTerminal] at hold
  | _ => simp [taskStateIsTerminal] at hold

/-- A task that is there stays there over any run. -/
theorem run_keeps [DecidableEq ν] {P : ∀ n, PluginDesc (σ n)} {s : Sched σ} {id : TaskId}
    {old : TaskState} (hok : s.tasks.Ok) (hknown : KnownStates s.tasks) (is : List (Env × Op ν))
    (hold : stateOf s.tasks id = some old) :
    ∃ new, stateOf (Foundations.run (nextState P) s is).tasks id = some new ∧
      (taskStateIsTerminal old → new = old) := by
  induction is generalizing s old with
  | nil => exact ⟨old, hold, fun _ => rfl⟩
  | cons i is ih =>
    have hconforms : Conforms P s (i.1, i.2) := conforms hok hknown
    obtain ⟨mid, hmid, hmove⟩ := hconforms.moves id old hold
    obtain ⟨hok', hknown'⟩ := run_event_invariant P (motive := fun L => KnownStates L.tasks)
      (fun _ _ _ h hallowed => h.apply hallowed) hok hknown [i]
    obtain ⟨new, hnew, hlast⟩ := ih hok' hknown' hmid
    refine ⟨new, hnew, fun hterm => ?_⟩
    have hsame := hmove.terminal hterm
    subst hsame
    exact hlast hterm

/-- **Lifecycle conformance.**  Every operation of every run conforms, with any
plugins; and in every continuation of the run a task that is there stays there,
a state that ends a lifecycle stays, and the id is refused. -/
theorem lifecycle_conforms [DecidableEq ν] (P : ∀ n, PluginDesc (σ n)) (metadata : KvArray)
    (is js : List (Env × Op ν)) :
    let s := Foundations.run (nextState P) (schedCreate (qpuCreate metadata)) is
    let s' := Foundations.run (nextState P) s js
    Foundations.Along (nextState P) (Conforms P) (schedCreate (qpuCreate metadata)) is ∧
    (∀ id old, stateOf s.tasks id = some old → ∃ new, stateOf s'.tasks id = some new ∧
      (taskStateIsTerminal old → new = old)) ∧
    (∀ task, (stateOf s.tasks task.taskId).isSome → ∀ E answers,
      (step P s' E (.submitTask task answers)).rc = .errExists) := by
  intro s s'
  have hinit : KnownStates (schedCreate (qpuCreate metadata) : Sched σ).ledger.tasks := by
    intro id state h
    simp [stateOf, taskTableFind, Sched.ledger, schedCreate, TaskTable.empty] at h
  have hrun := fun is => run_event_invariant P (motive := fun L => KnownStates L.tasks)
    (fun _ _ _ h hallowed => h.apply hallowed) TaskTable.ok_empty hinit is
  obtain ⟨hok, hknown⟩ := hrun is
  refine ⟨?_, fun id old hold => run_keeps hok hknown js hold, fun task htaken E answers => ?_⟩
  · refine Foundations.along_of_invariant
      (motive := fun s : Sched σ => s.tasks.Ok ∧ KnownStates s.tasks)
      (fun s i h => conforms h.1 h.2) ?_ ⟨TaskTable.ok_empty, hinit⟩ is
    exact fun s i h => run_event_invariant P (motive := fun L => KnownStates L.tasks)
      (fun _ _ _ h hallowed => h.apply hallowed) h.1 h.2 [i]
  · obtain ⟨old, hold⟩ := Option.isSome_iff_exists.1 htaken
    obtain ⟨new, hnew, -⟩ := run_keeps hok hknown js hold
    show (submitTask P E s' task answers .start).rc = .errExists
    unfold submitTask
    rw [submitPrepare_exists (by rw [hnew]; rfl)]

end QhwScheduler
