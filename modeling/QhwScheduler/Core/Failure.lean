import QhwScheduler.Core.SharedQpu

/-!
# Operations that fail

An operation that returns an error leaves the scheduler as it was, whatever the
plugins answer: every change that comes before a call of a hook is taken back
when the hook fails.

* `SameBinding` — the active policy stays, and only its own hooks touched its
  private state.
* `Untouched` — what stays: records and their order, the QPU, the binding, the
  loaded plugins and the callbacks.
* `submission_config` — no part of a submission replaces the policy.
* `setPolicy_failed` — a policy that cannot be set changes nothing at all.
* `failed_untouched` — for every reachable state.
-/

namespace QhwScheduler

variable {ν : Type} {σ : ν → Type}

/-- One call of a hook of the descriptor `d` turns its private state into another. -/
inductive PluginDesc.Hook {τ : Type} (d : PluginDesc τ) : τ → τ → Prop
  | submit (E : Env) (a : τ) (task : TaskDesc) (c : Cursor) :
      d.Hook a (d.onTaskSubmit E a task c).state
  | select (E : Env) (a : τ) (c : Cursor) : d.Hook a (d.selectNext E a c).state
  | splitConfig (config : SplitConfig) (a : τ) : d.Hook a (d.getSplitConfig config a).state
  | priorityChanged (E : Env) (a : τ) (id : TaskId) (priority : Int64) (c : Cursor) :
      d.Hook a (d.onTaskPriorityChanged E a id priority c).state
  | started (E : Env) (a : τ) (id : TaskId) (c : Cursor) :
      d.Hook a (d.onTaskStarted E a id c).state
  | finished (E : Env) (a : τ) (id : TaskId) (state : TaskState) (c : Cursor) :
      d.Hook a (d.onTaskFinished E a id state c).state

/-- The binding of the active policy, `struct qhw_policy_ops`, is as it was: the
descriptor is the same one, and its private state is the old one after any number of calls
of its hooks. -/
inductive SameBinding (P : ∀ n, PluginDesc (σ n)) : Option (Sigma σ) → Option (Sigma σ) → Prop
  | unset : SameBinding P none none
  | bound (n : ν) {a b : σ n} (h : Relation.ReflTransGen (P n).Hook a b) :
      SameBinding P (some ⟨n, a⟩) (some ⟨n, b⟩)

/-- Nothing changed but what the hooks did to the state inside the policy, and the next
sequence number. -/
structure Untouched (P : ∀ n, PluginDesc (σ n)) (s s' : Sched σ) : Prop where
  ledger : s'.ledger = s.ledger
  binding : SameBinding P s.policy s'.policy
  plugins : s'.plugins = s.plugins
  callbacks : s'.callbacks = s.callbacks

/-- The operations that promise to take back what they did. -/
def Op.Restores : Op ν → Prop
  | .selectNext | .taskUpdatePriority .. | .taskStarted _ | .setPolicy .. | .submitTask .. => True
  | _ => False

/-! ## The binding -/

namespace SameBinding

variable {P : ∀ n, PluginDesc (σ n)} {p q r : Option (Sigma σ)}

theorem refl (p : Option (Sigma σ)) : SameBinding P p p := by
  cases p with
  | none => exact .unset
  | some π => exact .bound π.1 .refl

theorem trans (h : SameBinding P p q) (h' : SameBinding P q r) : SameBinding P p r := by
  cases h with
  | unset => exact h'
  | bound n h =>
    cases h' with
    | bound _ h' => exact .bound n (h.trans h')

/-- A policy one of whose hooks was called is still the same policy. -/
theorem hook {n : ν} {a b : σ n} (h : p = some ⟨n, a⟩) (hcalled : (P n).Hook a b) :
    SameBinding P p (some ⟨n, b⟩) := by
  rw [h]
  exact .bound n (.single hcalled)

theorem isSome (h : SameBinding P p q) : q.isSome = p.isSome := by
  cases h <;> rfl

end SameBinding

/-! ## What no submission changes -/

/-- Configuration that stays: policy, plugins and callbacks. -/
def SameConfig (P : ∀ n, PluginDesc (σ n)) (s s' : Sched σ) : Prop :=
  SameBinding P s.policy s'.policy ∧ s'.plugins = s.plugins ∧ s'.callbacks = s.callbacks

theorem SameConfig.refl {P : ∀ n, PluginDesc (σ n)} (s : Sched σ) : SameConfig P s s :=
  ⟨.refl s.policy, rfl, rfl⟩

theorem SameConfig.trans {P : ∀ n, PluginDesc (σ n)} {s t u : Sched σ} (h : SameConfig P s t)
    (h' : SameConfig P t u) : SameConfig P s u :=
  ⟨h.1.trans h'.1, h'.2.1.trans h.2.1, h'.2.2.trans h.2.2⟩

section Submission

variable {P : ∀ n, PluginDesc (σ n)} {E : Env} {s : Sched σ} {task : TaskDesc} {c : Cursor}

theorem enqueueTaskLocked_config (s : Sched σ) (task : TaskDesc) (c : Cursor) :
    SameConfig P s (enqueueTaskLocked P E s task c).sched := by
  unfold enqueueTaskLocked
  dsimp only
  split
  · exact SameConfig.refl s
  · split
    · exact SameConfig.refl s
    · next n state hpolicy =>
      have hsame := fun c => SameBinding.hook (P := P) hpolicy (.submit E state task c)
      split
      · exact ⟨hsame _, rfl, rfl⟩
      · exact ⟨hsame _, rfl, rfl⟩

theorem removeQueuedTaskLocked_config (s : Sched σ) (id : TaskId) (c : Cursor) :
    SameConfig P s (removeQueuedTaskLocked P E s id c).1 := by
  unfold removeQueuedTaskLocked
  split
  · exact SameConfig.refl s
  · next n state hpolicy => exact ⟨.hook hpolicy (.finished E state id .cancelled c), rfl, rfl⟩

theorem enqueueChildren_config (s : Sched σ) (done rest : List TaskDesc) (c : Cursor) :
    SameConfig P s (enqueueChildren P E s done rest c).sched :=
  enqueueChildren_keeps rest done (fun s' c task _ h => h.trans (enqueueTaskLocked_config s' task c))
    (fun s' id c h => h.trans (removeQueuedTaskLocked_config s' id c)) (SameConfig.refl s) c

theorem submitSplitTaskLocked_config (s : Sched σ) (parent : TaskDesc) (children : List TaskDesc)
    (c : Cursor) : SameConfig P s (submitSplitTaskLocked P E s parent children c).sched := by
  unfold submitSplitTaskLocked
  dsimp only
  split
  · exact SameConfig.refl s
  · split
    · exact SameConfig.refl s
    · split
      · exact enqueueChildren_config (P := P) (E := E) { s with
          tasks := _, enqueueSeqNext := s.enqueueSeqNext + 1 } [] children _
      · exact enqueueChildren_config (P := P) (E := E) { s with
          tasks := _, enqueueSeqNext := s.enqueueSeqNext + 1 } [] children _

theorem computeSplitConfig_config (s : Sched σ) (task : TaskDesc) :
    SameConfig P s (computeSplitConfig P s task).2 := by
  rw [computeSplitConfig_sched]
  unfold getPolicySplitConfig
  split
  · exact SameConfig.refl s
  · next n state hpolicy => exact ⟨.hook hpolicy (.splitConfig splitConfigInit state), rfl, rfl⟩

/-- No part of a submission replaces the policy. -/
theorem submission_config (s : Sched σ) : SubmissionKeeps P E (SameConfig P s) where
  config s' task h := h.trans (computeSplitConfig_config s' task)
  enqueue s' task c _ h := h.trans (enqueueTaskLocked_config s' task c)
  split s' parent children c _ h := h.trans (submitSplitTaskLocked_config s' parent children c)

end Submission

/-! ## What no other call changes -/

section Binding

variable {P : ∀ n, PluginDesc (σ n)} {E : Env} {s : Sched σ} {c : Cursor} {id : TaskId}

theorem schedSelectNext_binding : SameBinding P s.policy (schedSelectNext P E s c).sched.policy := by
  unfold schedSelectNext
  split
  · exact .refl s.policy
  · next n state hpolicy =>
    have hsame := SameBinding.hook (P := P) hpolicy (.select E state c)
    dsimp only
    split
    · exact hsame
    · split
      · exact hsame
      · split <;> exact hsame

theorem taskUpdatePriority_binding {priority : Int64} :
    SameBinding P s.policy (taskUpdatePriority P E s id priority c).sched.policy := by
  unfold taskUpdatePriority
  split
  · exact .refl s.policy
  · split
    · exact .refl s.policy
    · dsimp only
      split
      · exact .refl s.policy
      · next n state hpolicy =>
        have hsame := SameBinding.hook (P := P) hpolicy (.priorityChanged E state id priority c)
        split <;> exact hsame

theorem taskStarted_binding : SameBinding P s.policy (taskStarted P E s id c).sched.policy := by
  unfold taskStarted
  split
  · exact .refl s.policy
  · split
    · exact .refl s.policy
    · dsimp only
      split
      · exact .refl s.policy
      · split
        · exact .refl s.policy
        · next n state hpolicy =>
          have hsame := SameBinding.hook (P := P) hpolicy (.started E state id c)
          split <;> exact hsame

theorem finishTask_binding {state : TaskState} :
    SameBinding P s.policy (finishTask P E s id state c).sched.policy := by
  unfold finishTask
  split
  · exact .refl s.policy
  · split
    · exact .refl s.policy
    · split
      · exact .refl s.policy
      · split
        · exact .refl s.policy
        · dsimp only
          split
          · exact .refl s.policy
          · next n policyState hpolicy =>
            exact .hook hpolicy (.finished E policyState id state c)

end Binding

/-! ## Failed calls -/

section Calls

variable {P : ∀ n, PluginDesc (σ n)} {E : Env} {s : Sched σ} {c : Cursor} {id : TaskId}

theorem Untouched.refl (s : Sched σ) : Untouched P s s := ⟨rfl, .refl s.policy, rfl, rfl⟩

/-- A hook was called and nothing else happened. -/
theorem untouched_hook {n : ν} {state state' : σ n} (h : s.policy = some ⟨n, state⟩)
    (hcalled : (P n).Hook state state') :
    Untouched P s { s with policy := some ⟨n, state'⟩ } :=
  ⟨rfl, .hook h hcalled, rfl, rfl⟩

theorem schedSelectNext_failed (hrc : (schedSelectNext P E s c).rc ≠ .ok) :
    Untouched P s (schedSelectNext P E s c).sched := by
  unfold schedSelectNext at hrc ⊢
  split
  · exact Untouched.refl s
  · next n state hpolicy =>
    have hcalled := untouched_hook (P := P) hpolicy (.select E state c)
    rw [hpolicy] at hrc
    dsimp only at hrc ⊢
    split
    · exact hcalled
    · next hhook =>
      rw [if_neg hhook] at hrc
      split
      · exact hcalled
      · next record hfind =>
        rw [hfind] at hrc
        dsimp only at hrc
        split
        · exact hcalled
        · next hqueued =>
          rw [if_neg hqueued] at hrc
          simp at hrc

theorem taskUpdatePriority_failed {priority : Int64}
    (hrc : (taskUpdatePriority P E s id priority c).rc ≠ .ok) :
    Untouched P s (taskUpdatePriority P E s id priority c).sched := by
  unfold taskUpdatePriority at hrc ⊢
  split
  · exact Untouched.refl s
  · next record hfind =>
    rw [hfind] at hrc
    dsimp only at hrc
    split
    · exact Untouched.refl s
    · next hqueued =>
      rw [if_neg hqueued] at hrc
      dsimp only at hrc ⊢
      split
      · next hpolicy =>
        rw [hpolicy] at hrc
        simp at hrc
      · next n state hpolicy =>
        rw [hpolicy] at hrc
        dsimp only at hrc
        split
        · exact untouched_hook hpolicy (.priorityChanged E state id priority c)
        · next hhook =>
          rw [if_neg hhook] at hrc
          simp at hrc

/-- A start that fails gave the slot and the state back. -/
theorem taskStarted_failed (hrc : (taskStarted P E s id c).rc ≠ .ok) :
    Untouched P s (taskStarted P E s id c).sched := by
  unfold taskStarted at hrc ⊢
  split
  · exact Untouched.refl s
  · next record hfind =>
    rw [hfind] at hrc
    dsimp only at hrc
    split
    · exact Untouched.refl s
    · next hstate =>
      rw [if_neg hstate] at hrc
      dsimp only at hrc ⊢
      split
      · exact Untouched.refl s
      · next hslot =>
        rw [if_neg hslot] at hrc
        split
        · next hpolicy =>
          rw [hpolicy] at hrc
          simp at hrc
        · next n state hpolicy =>
          rw [hpolicy] at hrc
          dsimp only at hrc
          split
          · -- a policy is active, so the task was assigned and not queued
            have hassigned : record.state ≠ .queued := by
              intro hq
              simp [hq, hpolicy] at hstate
            refine ⟨Ledger.ext ?_ ?_, .hook hpolicy (.started E state id c), rfl, rfl⟩
            · show taskTableSetState (taskTableSetState s.tasks id .running) id record.state = s.tasks
              rw [setState_of_find hfind, setState_of_find (by rw [find_update, if_pos rfl]),
                update_update]
              exact update_self hfind
            · show qpuRuntimeTaskUnstarted _ id = s.qpu
              rw [if_neg hassigned, if_neg hassigned]
              exact qpu_unstarted_started s.qpu id (not_not.1 hslot)
          · next hhook =>
            rw [if_neg hhook] at hrc
            simp at hrc

/-- A policy that cannot be set leaves the scheduler entirely as it is. -/
theorem setPolicy_failed [DecidableEq ν] {name : ν} {options : KvArray}
    (hrc : (setPolicy P E s name options c).rc ≠ .ok) :
    (setPolicy P E s name options c).sched = s := by
  unfold setPolicy at hrc ⊢
  split
  · rfl
  · next hloaded =>
    rw [if_neg hloaded] at hrc
    split
    · rfl
    · next hoptions =>
      rw [if_neg hoptions] at hrc
      dsimp only at hrc ⊢
      split
      · rfl
      · next state hinit =>
        rw [hinit] at hrc
        dsimp only at hrc
        split
        · rfl
        · next hreplay =>
          rw [if_neg hreplay] at hrc
          simp at hrc

end Calls

/-- **Failed operations leave the core untouched.**  In every state that any
number of schedulers on one QPU can reach with any plugins: an operation that
returns an error leaves the records with their order, the QPU, the binding of the
active policy, the plugins and the callbacks as they were.  A policy that cannot be
set leaves the private state of the active one as well; the other operations have
called its hooks. -/
theorem failed_untouched [DecidableEq ν] (P : ∀ n, PluginDesc (σ n)) (metadata : KvArray)
    (is : List (SharedOp ν)) :
    let w := Foundations.run (sharedNext P) (sharedCreate metadata) is
    ∀ handle s, w.scheds handle = some s → ∀ E (op : Op ν), op.Restores →
      (step P (s.at w.qpu) E op).rc ≠ .ok →
      Untouched P (s.at w.qpu) (step P (s.at w.qpu) E op).sched ∧
        ∀ name options, op = .setPolicy name options →
          (step P (s.at w.qpu) E op).sched = s.at w.qpu := by
  intro w handle s hs E op hop hrc
  have hok : (s.at w.qpu).tasks.Ok := shared_ok P metadata is handle s hs
  cases op with
  | setCallbacks callbacks => exact hop.elim
  | loadPlugin name valid => exact hop.elim
  | setPolicy name options =>
    have hsame : (step P (s.at w.qpu) E (.setPolicy name options)).sched = s.at w.qpu :=
      setPolicy_failed hrc
    rw [hsame]
    exact ⟨Untouched.refl _, fun _ _ _ => rfl⟩
  | submitTask task answers =>
    have hconfig := (submission_config (P := P) (E := E) (s.at w.qpu)).submit (SameConfig.refl _)
      task answers .start
    have hrc : (submitTask P E (s.at w.qpu) task answers .start).rc ≠ .ok := hrc
    refine ⟨?_, by simp⟩
    rcases @submitTask_submitted _ _ P E _ task .start answers hok
      with ⟨hok', -⟩ | ⟨-, hled⟩
    · exact absurd hok' hrc
    · exact ⟨hled, hconfig.1, hconfig.2.1, hconfig.2.2⟩
  | submitBegin task => exact hop.elim
  | submitEnd plan answers => exact hop.elim
  | selectNext => exact ⟨schedSelectNext_failed hrc, by simp⟩
  | taskUpdatePriority id priority => exact ⟨taskUpdatePriority_failed hrc, by simp⟩
  | taskStarted id => exact ⟨taskStarted_failed hrc, by simp⟩
  | taskCompleted id => exact hop.elim
  | taskFailed id => exact hop.elim
  | taskCancelled id => exact hop.elim

/-- A policy that counts the calls of its hooks: it needs memory for each task, names the
task 1, and refuses every start and every new priority. -/
def reluctantPlugin : PluginDesc ℕ where
  init _ _ c := ⟨.ok 0, c⟩
  onTaskSubmit E calls _ c := ⟨if E.alloc c.allocs then .ok else .errNoMemory, calls + 1, c.alloc⟩
  selectNext _ calls c := ⟨.ok, 1, calls + 1, c⟩
  getSplitConfig config calls := ⟨.ok, config, calls⟩
  onTaskPriorityChanged _ calls _ _ c := ⟨.errUnsupported, calls + 1, c⟩
  onTaskStarted _ calls _ c := ⟨.errPlugin, calls + 1, c⟩
  onTaskFinished _ calls _ _ c := ⟨.ok, calls + 1, c⟩

/-- Task 1 is assigned, task 2 waits. -/
def reluctantRun : List (SharedOp Unit) :=
  [.create 0 (.still 0), .call 0 (.still 0) (.loadPlugin () true),
    .call 0 (.still 0) (.setPolicy () (some [])),
    .call 0 (.still 0) (.submitTask { taskId := 1 } {}),
    .call 0 (.still 0) (.submitTask { taskId := 2 } {}),
    .call 0 (.still 0) .selectNext]

/-- Its three refusals after `reluctantRun`: the start of task 1, which held the slot; a new
priority for task 2, whose record had it; and the replay of task 2 without memory. -/
theorem failed_untouched_reluctantRun :
    let P : ∀ _ : Unit, PluginDesc ℕ := fun _ => reluctantPlugin
    let w := Foundations.run (sharedNext P) (sharedCreate (some [])) reluctantRun
    let starved : Env := { Env.still 0 with alloc := fun _ => false }
    ∃ s, w.scheds 0 = some s ∧
      Untouched P (s.at w.qpu) (step P (s.at w.qpu) (.still 0) (.taskStarted 1)).sched ∧
      Untouched P (s.at w.qpu) (step P (s.at w.qpu) (.still 0) (.taskUpdatePriority 2 9)).sched ∧
      (step P (s.at w.qpu) starved (.setPolicy () (some []))).sched = s.at w.qpu := by
  intro P w starved
  obtain ⟨s, hs⟩ := Option.isSome_iff_exists.1 (show (w.scheds 0).isSome by decide +kernel)
  have hall := failed_untouched P (some []) reluctantRun 0 s hs
  have hcode : ∀ E op, (w.scheds 0).map (fun s => (step P (s.at w.qpu) E op).rc) =
      some (step P (s.at w.qpu) E op).rc := by
    intro E op
    rw [hs, Option.map_some]
  have hstart : some (step P (s.at w.qpu) (.still 0) (.taskStarted 1)).rc = some .errPlugin :=
    (hcode _ _).symm.trans (by decide +kernel)
  have hpriority : some (step P (s.at w.qpu) (.still 0) (.taskUpdatePriority 2 9)).rc =
      some .errUnsupported := (hcode _ _).symm.trans (by decide +kernel)
  have hreplay : some (step P (s.at w.qpu) starved (.setPolicy () (some []))).rc =
      some .errNoMemory := (hcode _ _).symm.trans (by decide +kernel)
  refine ⟨s, hs, (hall (.still 0) (.taskStarted 1) trivial ?_).1,
    (hall (.still 0) (.taskUpdatePriority 2 9) trivial ?_).1,
    (hall starved (.setPolicy () (some [])) trivial ?_).2 () (some []) rfl⟩
  · rw [Option.some_inj.1 hstart]
    decide
  · rw [Option.some_inj.1 hpriority]
    decide
  · rw [Option.some_inj.1 hreplay]
    decide

end QhwScheduler
