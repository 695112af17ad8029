import QhwScheduler.Core.Failure

/-!
# What only set_policy changes

The options of a policy are read once, when it is set, and a loaded plugin stays loaded.

* `HooksKeep` — a property of the policy that no hook changes.
* `Installed` — some plugins are loaded, and the active policy has such a property.
* `step_installed`, `run_installed` — every operation but a change of the policy keeps this.
-/

namespace QhwScheduler

variable {ν : Type} {σ : ν → Type}

/-- No hook of a policy changes a property of it. -/
structure HooksKeep (P : ∀ n, PluginDesc (σ n)) (Q : Sigma σ → Prop) : Prop where
  submit : ∀ {n state} E task c, Q ⟨n, state⟩ → Q ⟨n, ((P n).onTaskSubmit E state task c).state⟩
  select : ∀ {n state} E c, Q ⟨n, state⟩ → Q ⟨n, ((P n).selectNext E state c).state⟩
  config : ∀ {n state} config, Q ⟨n, state⟩ → Q ⟨n, ((P n).getSplitConfig config state).state⟩
  priorityChanged : ∀ {n state} E id priority c, Q ⟨n, state⟩ →
    Q ⟨n, ((P n).onTaskPriorityChanged E state id priority c).state⟩
  started : ∀ {n state} E id c, Q ⟨n, state⟩ → Q ⟨n, ((P n).onTaskStarted E state id c).state⟩
  finished : ∀ {n state} E id taskState c, Q ⟨n, state⟩ →
    Q ⟨n, ((P n).onTaskFinished E state id taskState c).state⟩

/-- Some plugins are loaded, and the active policy has a property. -/
structure Installed (Q : Sigma σ → Prop) (names : List ν) (s : Sched σ) : Prop where
  policy : ∃ π, s.policy = some π ∧ Q π
  loaded : names ⊆ s.plugins.items

/-- An operation that sets no policy. -/
def Op.KeepsPolicy : Op ν → Prop
  | .setPolicy _ _ => False
  | _ => True

section Operations

variable {P : ∀ n, PluginDesc (σ n)} {Q : Sigma σ → Prop} {names : List ν} {E : Env}
  {s : Sched σ} {c : Cursor}

/-- The same policy, or one that a hook made of it, and the same plugins. -/
theorem Installed.congr {s' : Sched σ} (h : Installed Q names s) {π : Sigma σ} (hQ : Q π)
    (hpolicy : s'.policy = some π) (hplugins : s'.plugins = s.plugins) : Installed Q names s' :=
  ⟨⟨π, hpolicy, hQ⟩, by rw [hplugins]; exact h.loaded⟩

/-! ## Submissions -/

theorem enqueueTaskLocked_installed (hP : HooksKeep P Q) (h : Installed Q names s) (task : TaskDesc)
    (c : Cursor) : Installed Q names (enqueueTaskLocked P E s task c).sched := by
  obtain ⟨⟨n, state⟩, hpolicy, hQ⟩ := h.policy
  unfold enqueueTaskLocked
  dsimp only
  rw [hpolicy]
  split
  · exact h.congr hQ rfl rfl
  · dsimp only
    split
    · exact h.congr (hP.submit E task _ hQ) rfl rfl
    · exact h.congr (hP.submit E task _ hQ) rfl rfl

theorem removeQueuedTaskLocked_installed (hP : HooksKeep P Q) (h : Installed Q names s) (id : TaskId)
    (c : Cursor) : Installed Q names (removeQueuedTaskLocked P E s id c).1 := by
  obtain ⟨⟨n, state⟩, hpolicy, hQ⟩ := h.policy
  unfold removeQueuedTaskLocked
  rw [hpolicy]
  exact h.congr (hP.finished E id .cancelled _ hQ) rfl rfl

theorem submitSplitTaskLocked_installed (hP : HooksKeep P Q) (h : Installed Q names s) (parent : TaskDesc)
    (children : List TaskDesc) (c : Cursor) :
    Installed Q names (submitSplitTaskLocked P E s parent children c).sched := by
  unfold submitSplitTaskLocked
  obtain ⟨π, hpolicy, hQ⟩ := h.policy
  have hchildren : ∀ tasks c, Installed Q names (enqueueChildren P E
      { s with tasks := tasks, enqueueSeqNext := s.enqueueSeqNext + 1 } [] children c).sched :=
    fun tasks c => enqueueChildren_keeps (motive := Installed Q names)
      (s := { s with tasks := tasks, enqueueSeqNext := s.enqueueSeqNext + 1 }) children []
      (fun _ c task _ h => enqueueTaskLocked_installed hP h task c)
      (fun _ id c h => removeQueuedTaskLocked_installed hP h id c) (h.congr hQ hpolicy rfl) c
  dsimp only
  split
  · exact h.congr hQ hpolicy rfl
  · split
    · exact h.congr hQ hpolicy rfl
    · split
      · next record hfind hrc =>
        obtain ⟨π', hpolicy', hQ'⟩ := (hchildren _ _).policy
        exact (hchildren _ _).congr hQ' hpolicy' rfl
      · exact hchildren _ _

theorem submission_installed (hP : HooksKeep P Q) : SubmissionKeeps P E (Installed Q names) where
  config s task h := by
    obtain ⟨⟨n, state⟩, hpolicy, hQ⟩ := h.policy
    rw [computeSplitConfig_sched]
    unfold getPolicySplitConfig
    rw [hpolicy]
    exact h.congr (hP.config _ hQ) rfl rfl
  enqueue s task c _ h := enqueueTaskLocked_installed hP h task c
  split s parent children c _ h := submitSplitTaskLocked_installed hP h parent children c

/-! ## The other operations -/

theorem schedSelectNext_installed (hP : HooksKeep P Q) (h : Installed Q names s) :
    Installed Q names (schedSelectNext P E s c).sched := by
  obtain ⟨⟨n, state⟩, hpolicy, hQ⟩ := h.policy
  have hselect := hP.select E c hQ
  unfold schedSelectNext
  rw [hpolicy]
  dsimp only
  split
  · exact h.congr hselect rfl rfl
  · split
    · exact h.congr hselect rfl rfl
    · split
      · exact h.congr hselect rfl rfl
      · exact h.congr hselect rfl rfl

theorem taskUpdatePriority_installed (hP : HooksKeep P Q) (h : Installed Q names s) (id : TaskId)
    (priority : Int64) : Installed Q names (taskUpdatePriority P E s id priority c).sched := by
  obtain ⟨⟨n, state⟩, hpolicy, hQ⟩ := h.policy
  have hchanged := hP.priorityChanged E id priority c hQ
  unfold taskUpdatePriority
  rw [hpolicy]
  split
  · exact h
  · split
    · exact h
    · dsimp only
      split
      · exact h.congr hchanged rfl rfl
      · exact h.congr hchanged rfl rfl

theorem taskStarted_installed (hP : HooksKeep P Q) (h : Installed Q names s) (id : TaskId) :
    Installed Q names (taskStarted P E s id c).sched := by
  obtain ⟨⟨n, state⟩, hpolicy, hQ⟩ := h.policy
  have hstarted := hP.started E id c hQ
  unfold taskStarted
  rw [hpolicy]
  split
  · exact h
  · split
    · exact h
    · dsimp only
      split
      · exact h
      · split
        · exact h.congr hstarted rfl rfl
        · exact h.congr hstarted rfl rfl

theorem finishTask_installed (hP : HooksKeep P Q) (h : Installed Q names s) (id : TaskId)
    (state : TaskState) : Installed Q names (finishTask P E s id state c).sched := by
  obtain ⟨⟨n, policyState⟩, hpolicy, hQ⟩ := h.policy
  have hfinished := hP.finished E id state c hQ
  unfold finishTask
  rw [hpolicy]
  split
  · exact h
  · split
    · exact h
    · split
      · exact h
      · split
        · exact h
        · exact h.congr hfinished rfl rfl

/-- A plugin is added at the end, or the plugins stay as they are. -/
theorem pluginRegistryAdd_items [DecidableEq ν] (registry : PluginRegistry ν) (other : ν) (c : Cursor) :
    let r := pluginRegistryAdd E registry other c
    (r.1 = .ok ∧ other ∉ registry.items ∧ r.2.1.items = registry.items ++ [other]) ∨
      (r.1 ≠ .ok ∧ r.2.1.items = registry.items) := by
  unfold pluginRegistryAdd
  dsimp only
  split
  · exact Or.inr ⟨by simp, rfl⟩
  · next hnew =>
    split
    · exact Or.inr ⟨by simp, rfl⟩
    · -- whether the array had to grow, and whether the path could be copied
      split <;> split
      · exact Or.inr ⟨by simp, rfl⟩
      · exact Or.inl ⟨rfl, hnew, rfl⟩
      · exact Or.inr ⟨by simp, rfl⟩
      · exact Or.inl ⟨rfl, hnew, rfl⟩

theorem loadPlugin_installed [DecidableEq ν] (h : Installed Q names s) (other : ν) (valid : Bool) :
    Installed Q names (loadPlugin E s other valid c).sched := by
  unfold loadPlugin
  split
  · exact h
  · refine ⟨h.policy, ?_⟩
    show names ⊆ (pluginRegistryAdd E s.plugins other c).2.1.items
    rcases pluginRegistryAdd_items (E := E) s.plugins other c with ⟨-, -, hitems⟩ | ⟨-, hitems⟩
    · rw [hitems]
      exact List.subset_append_of_subset_left _ h.loaded
    · rw [hitems]
      exact h.loaded

/-- A replay hands tasks to the policy, and no more. -/
theorem replayQueued_keeps (hP : HooksKeep P Q) {n : ν} {state : σ n} (hQ : Q ⟨n, state⟩)
    (records : List TaskRecord) (c : Cursor) : Q ⟨n, (replayQueued P E n state records c).state⟩ := by
  induction records generalizing state c with
  | nil => exact hQ
  | cons record rest ih =>
    have hsubmit := hP.submit E record.desc c hQ
    unfold replayQueued
    dsimp only
    split
    · exact hsubmit
    · exact ih hsubmit _

/-! ## Runs -/

variable [DecidableEq ν]

/-- A successful change of the policy leaves what the plugin made of the options. -/
theorem setPolicy_installed (hP : HooksKeep P Q) {name : ν} {options : KvArray}
    (hinit : (∃ rc, rc ≠ .ok ∧ ((P name).init E options .start).outcome = .error rc) ∨
      ∃ state, ((P name).init E options .start).outcome = .ok state ∧ Q ⟨name, state⟩)
    (hrc : (step P s E (.setPolicy name options)).rc = .ok) :
    Installed Q [name] (step P s E (.setPolicy name options)).sched := by
  change (setPolicy P E s name options .start).rc = .ok at hrc
  show Installed Q [name] (setPolicy P E s name options .start).sched
  unfold setPolicy at hrc ⊢
  split at hrc
  · simp at hrc
  · next hloaded =>
    rw [if_neg hloaded]
    split at hrc
    · simp at hrc
    · next hsome =>
      rw [if_neg hsome]
      rcases hinit with ⟨rc, hne, hinit⟩ | ⟨state, hinit, hQ⟩
      · simp only [hinit] at hrc
        exact absurd hrc hne
      · simp only [hinit] at hrc ⊢
        split at hrc
        · next hfail => exact absurd hrc hfail
        · next hdone =>
          rw [if_neg hdone]
          exact ⟨⟨_, rfl, replayQueued_keeps hP hQ _ _⟩,
            by simpa using hloaded⟩

/-- **Every operation but a change of the policy** keeps the plugins loaded, and the
property of the active policy. -/
theorem step_installed (hP : HooksKeep P Q) (h : Installed Q names s) {op : Op ν} (hop : op.KeepsPolicy) :
    Installed Q names (step P s E op).sched := by
  cases op with
  | setCallbacks callbacks => exact ⟨h.policy, h.loaded⟩
  | loadPlugin other valid => exact loadPlugin_installed h other valid
  | setPolicy other options => exact hop.elim
  | submitTask task answers => exact (submission_installed hP).submit h task answers _
  | submitBegin task => exact (submission_installed hP).prepare h task _
  | submitEnd plan answers => exact (submission_installed hP).finish h plan answers _
  | selectNext => exact schedSelectNext_installed hP h
  | taskUpdatePriority id priority => exact taskUpdatePriority_installed hP h id priority
  | taskStarted id => exact taskStarted_installed hP h id
  | taskCompleted id => exact finishTask_installed hP h id .completed
  | taskFailed id => exact finishTask_installed hP h id .failed
  | taskCancelled id => exact finishTask_installed hP h id .cancelled

/-- **So does every run** of such operations. -/
theorem run_installed (hP : HooksKeep P Q) (h : Installed Q names s) {is : List (Env × Op ν)}
    (his : ∀ i ∈ is, i.2.KeepsPolicy) : Installed Q names (Foundations.run (nextState P) s is) := by
  induction is generalizing s with
  | nil => exact h
  | cons i is ih =>
    exact ih (step_installed hP h (his i List.mem_cons_self))
      fun j hj => his j (List.mem_cons_of_mem i hj)

end Operations

end QhwScheduler
