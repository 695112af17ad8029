import QhwScheduler.Core.Plugin
import QhwScheduler.Foundations.Run
import QhwScheduler.Policy.Waiting

/-!
# What a policy owes the scheduler

* `Submits`, `Selects`, `Reprioritizes`, `Finishes` — what a hook does to the list
  of waiting tasks, seen through an invariant that links it to the policy state.
* `PolicyInv` — all hooks of a plugin keep such an invariant.  It may depend on
  the time, and hold for well-behaved environments only.
* `Hook`, `hookStep` — runs of a single policy with its history: the tasks that
  were inserted and did not leave yet, in the order of insertion.
* `PolicyInv.run` — the invariant along every run.
-/

namespace QhwScheduler

variable {σ : Type}

/-! ## One hook -/

section Hooks

variable (R : σ → List TaskDesc → Prop) (l : List TaskDesc)

/-- A submission appends a task with a new id, or fails without effect. -/
def Submits (task : TaskDesc) (r : HookResult σ) : Prop :=
  (r.rc = .ok ∧ task.taskId ∉ taskIds l ∧ R r.state (l ++ [task])) ∨ (r.rc ≠ .ok ∧ R r.state l)

/-- A selection takes one of the waiting tasks; it fails exactly when there is none. -/
def Selects (r : SelectResult σ) : Prop :=
  (r.rc = .errNotFound ∧ l = [] ∧ R r.state l) ∨
    ∃ d ∈ l, r.rc = .ok ∧ r.taskId = d.taskId ∧ R r.state (withoutTask d.taskId l)

/-- A priority change takes effect, or fails without effect. -/
def Reprioritizes (id : TaskId) (priority : Int64) (r : HookResult σ) : Prop :=
  (r.rc = .ok ∧ R r.state (reprioritize id priority l)) ∨ (r.rc ≠ .ok ∧ R r.state l)

/-- A finished task no longer waits. -/
def Finishes (id : TaskId) (r : HookResult σ) : Prop :=
  r.rc = .ok ∧ R r.state (withoutTask id l)

variable {R l}

theorem Submits.mono {R' : σ → List TaskDesc → Prop} {task : TaskDesc} {r : HookResult σ}
    (h : Submits R l task r) (hR : ∀ π l, R π l → R' π l) : Submits R' l task r := by
  rcases h with ⟨hrc, hnew, h⟩ | ⟨hrc, h⟩
  · exact Or.inl ⟨hrc, hnew, hR _ _ h⟩
  · exact Or.inr ⟨hrc, hR _ _ h⟩

theorem Selects.mono {R' : σ → List TaskDesc → Prop} {r : SelectResult σ} (h : Selects R l r)
    (hR : ∀ π l, R π l → R' π l) : Selects R' l r := by
  rcases h with ⟨hrc, hnil, h⟩ | ⟨d, hd, hrc, hid, h⟩
  · exact Or.inl ⟨hrc, hnil, hR _ _ h⟩
  · exact Or.inr ⟨d, hd, hrc, hid, hR _ _ h⟩

theorem Reprioritizes.mono {R' : σ → List TaskDesc → Prop} {id : TaskId} {priority : Int64}
    {r : HookResult σ} (h : Reprioritizes R l id priority r) (hR : ∀ π l, R π l → R' π l) :
    Reprioritizes R' l id priority r := by
  rcases h with ⟨hrc, h⟩ | ⟨hrc, h⟩
  · exact Or.inl ⟨hrc, hR _ _ h⟩
  · exact Or.inr ⟨hrc, hR _ _ h⟩

end Hooks

/-! ## All hooks -/

/-- The hooks of a policy keep an invariant between its state and the list of
waiting tasks, in calls that are good from a time `τ` to a time `t`.  A selection and
a change of a priority are the only hooks of their calls, and may rely on what held
before the call; of the others a call can make several. -/
structure PolicyInv (P : PluginDesc σ) (Good : UInt64 → Env → UInt64 → Prop)
    (R : UInt64 → σ → List TaskDesc → Prop) : Prop where
  mono : ∀ {τ t E π l}, Good τ E t → R τ π l → R t π l
  nodup : ∀ {t π l}, R t π l → (taskIds l).Nodup
  init : ∀ {τ t E options c π}, Good τ E t → (P.init E options c).outcome = .ok π → R t π []
  submit : ∀ {τ t E π l task c}, Good τ E t → R t π l →
    Submits (R t) l task (P.onTaskSubmit E π task c)
  select : ∀ {τ t E π l c}, Good τ E t → R τ π l → Selects (R t) l (P.selectNext E π c)
  config : ∀ {t π l config}, R t π l →
    (P.getSplitConfig config π).rc = .ok ∧ R t (P.getSplitConfig config π).state l
  priorityChanged : ∀ {τ t E π l id priority c}, Good τ E t → R τ π l →
    Reprioritizes (R t) l id priority (P.onTaskPriorityChanged E π id priority c)
  started : ∀ {τ t E π l id c}, Good τ E t → R t π l →
    (P.onTaskStarted E π id c).rc = .ok ∧ R t (P.onTaskStarted E π id c).state l
  finished : ∀ {τ t E π l id state c}, Good τ E t → R t π l →
    Finishes (R t) l id (P.onTaskFinished E π id state c)

/-! ## Runs of one policy -/

/-- A call of a hook. -/
inductive Hook where
  | submit (task : TaskDesc)
  | select
  | priorityChanged (id : TaskId) (priority : Int64)
  | started (id : TaskId)
  | finished (id : TaskId) (state : TaskState)

/-- A policy state with the waiting tasks in the order of insertion. -/
structure History (σ : Type) where
  state : σ
  waiting : List TaskDesc

/-- One call and its effect on the history, by the code the hook returned. -/
def hookStep (P : PluginDesc σ) (s : History σ) (i : Env × Hook) : History σ :=
  match i.2 with
  | .submit task =>
    let r := P.onTaskSubmit i.1 s.state task .start
    ⟨r.state, if r.rc = .ok then s.waiting ++ [task] else s.waiting⟩
  | .select =>
    let r := P.selectNext i.1 s.state .start
    ⟨r.state, if r.rc = .ok then withoutTask r.taskId s.waiting else s.waiting⟩
  | .priorityChanged id priority =>
    let r := P.onTaskPriorityChanged i.1 s.state id priority .start
    ⟨r.state, if r.rc = .ok then reprioritize id priority s.waiting else s.waiting⟩
  | .started id => ⟨(P.onTaskStarted i.1 s.state id .start).state, s.waiting⟩
  | .finished id state =>
    ⟨(P.onTaskFinished i.1 s.state id state .start).state, withoutTask id s.waiting⟩

/-- Every call of a run is good, from the time where the one before it ended. -/
def GoodRun {ι : Type} (Good : UInt64 → Env → UInt64 → Prop) :
    UInt64 → List (Env × ι) → UInt64 → Prop
  | τ, [], t => τ = t
  | τ, i :: is, t => ∃ u, Good τ i.1 u ∧ GoodRun Good u is t

theorem GoodRun.imp {ι : Type} {Good Good' : UInt64 → Env → UInt64 → Prop} {τ t : UInt64}
    {is : List (Env × ι)} (h : GoodRun Good τ is t) (himp : ∀ τ E t, Good τ E t → Good' τ E t) :
    GoodRun Good' τ is t := by
  induction is generalizing τ with
  | nil => exact h
  | cons i is ih =>
    obtain ⟨u, hE, hrest⟩ := h
    exact ⟨u, himp _ _ _ hE, ih hrest⟩

/-- A run of calls that are good from a time to the same time. -/
theorem goodRun_of_forall {ι : Type} {Good : UInt64 → Env → UInt64 → Prop} {t : UInt64}
    {is : List (Env × ι)} (h : ∀ i ∈ is, Good t i.1 t) : GoodRun Good t is t := by
  induction is with
  | nil => exact rfl
  | cons i is ih =>
    exact ⟨t, h i List.mem_cons_self, ih fun j hj => h j (List.mem_cons_of_mem i hj)⟩

section Run

variable {P : PluginDesc σ} {Good : UInt64 → Env → UInt64 → Prop}
  {R : UInt64 → σ → List TaskDesc → Prop}

theorem PolicyInv.step (hP : PolicyInv P Good R) {τ t : UInt64} {s : History σ} {i : Env × Hook}
    (hE : Good τ i.1 t) (hs : R τ s.state s.waiting) :
    R t (hookStep P s i).state (hookStep P s i).waiting := by
  obtain ⟨E, hook⟩ := i
  have ht := hP.mono hE hs
  cases hook with
  | submit task =>
    have h : Submits (R t) s.waiting task (P.onTaskSubmit E s.state task .start) := hP.submit hE ht
    rcases h with ⟨hrc, -, h⟩ | ⟨hrc, h⟩
    · simpa [hookStep, hrc] using h
    · simpa [hookStep, hrc] using h
  | select =>
    rcases hP.select (c := .start) hE hs with ⟨hrc, -, h⟩ | ⟨d, -, hrc, hid, h⟩
    · simpa [hookStep, hrc] using h
    · simpa [hookStep, hrc, hid] using h
  | priorityChanged id priority =>
    have h : Reprioritizes (R t) s.waiting id priority
      (P.onTaskPriorityChanged E s.state id priority .start) := hP.priorityChanged hE hs
    rcases h with ⟨hrc, h⟩ | ⟨hrc, h⟩
    · simpa [hookStep, hrc] using h
    · simpa [hookStep, hrc] using h
  | started id => exact (hP.started hE ht).2
  | finished id state => exact (hP.finished hE ht).2

/-- The invariant holds after every run. -/
theorem PolicyInv.run (hP : PolicyInv P Good R) {τ t : UInt64} {s : History σ}
    {is : List (Env × Hook)} (his : GoodRun Good τ is t) (hs : R τ s.state s.waiting) :
    R t (Foundations.run (hookStep P) s is).state (Foundations.run (hookStep P) s is).waiting := by
  induction is generalizing τ s with
  | nil =>
    rw [show t = τ from his.symm]
    exact hs
  | cons i is ih =>
    obtain ⟨u, hE, hrest⟩ := his
    exact ih hrest (hP.step hE hs)

end Run

end QhwScheduler
