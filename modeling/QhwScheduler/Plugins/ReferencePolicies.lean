import QhwScheduler.Core.Follows
import QhwScheduler.Plugins.ReferenceRing

/-!
# Built-in policies and their references

The built-in policies keep heaps, cached priorities, tickets and tables of groups; what
they do is what their reference policies do, which keep a list.

* `BuiltinMatches`, `builtin_follows` — each of the four plugins follows its reference.
* `withReferences` — all eight in one scheduler.
* `builtin_as_reference` — no run of a scheduler can tell a policy from its reference.
-/

namespace QhwScheduler

open Foundations DeadlineQueue

/-- A built-in policy and its reference have the same tasks in the same order. -/
def BuiltinMatches (t : UInt64) : ∀ n : Builtin, BuiltinState n → ReferenceState → Prop
  | .fifo => FifoMatches
  | .priority => PriorityMatches t
  | .ordered => OrderedMatches t
  | .roundRobin => RrMatches

section

variable {τ t : UInt64}

theorem OrderedMatches.mono {s : OrderedState} {r : ReferenceState} (h : OrderedMatches τ s r)
    (hle : τ ≤ t) : OrderedMatches t s r := by
  cases h with
  | queue keys thresholds ok => exact .queue keys thresholds (ok.mono fun _ => hle)
  | ring keys thresholds ok => exact .ring keys thresholds (ok.mono fun _ => hle)

/-- What holds now holds later. -/
theorem BuiltinMatches.mono {n : Builtin} {s : BuiltinState n} {r : ReferenceState}
    (h : BuiltinMatches τ n s r) (hle : τ ≤ t) : BuiltinMatches t n s r := by
  cases n with
  | fifo => exact h
  | priority =>
    obtain ⟨l, hr, hs⟩ := h
    exact ⟨l, hr, hs.flat.mono fun _ => hle, hs.thresholds⟩
  | ordered => exact OrderedMatches.mono h hle
  | roundRobin => exact h

/-- **The built-in plugins follow their references**, at a steady clock and with memory. -/
theorem builtin_follows {H : HeapOps} (hH : H.Lawful) (t : UInt64) (n : Builtin) :
    Follows (builtinPlugins H n) (referencePlugin n) (fun E => Steady E t)
      (BuiltinMatches t n) := by
  cases n with
  | fifo => exact fifo_follows H t
  | priority => exact priority_follows hH t
  | ordered => exact ordered_follows hH t
  | roundRobin => exact roundRobin_follows hH t

end

/-! ## One scheduler -/

/-- What a built-in plugin keeps, and what its reference keeps. -/
def WithReference : Builtin ⊕ Builtin → Type := Sum.elim BuiltinState fun _ => ReferenceState

/-- The built-in plugins and their references. -/
def withReferences (H : HeapOps) : ∀ n : Builtin ⊕ Builtin, PluginDesc (WithReference n) :=
  sideBySide (builtinPlugins H) referencePlugin

/-- An operation at which memory is left and the clock, which never goes back, shows one
time. -/
def Calm (τ : UInt64) (E : Env) (t : UInt64) : Prop := τ ≤ t ∧ Steady E t

theorem calm_still {τ t : UInt64} (hle : τ ≤ t) (hlt : t < u64Max) : Calm τ (.still t) t :=
  ⟨hle, fun _ => rfl, fun _ => rfl, hlt⟩

/-- **A built-in policy is its reference.** Set with the same options on any scheduler,
with any tasks in its table, they give the same code; and from then on every run of
operations, which may submit, select, change priorities, split tasks and set other
policies, returns the same codes and assignments. -/
theorem builtin_as_reference {H : HeapOps} (hH : H.Lawful) (n : Builtin) (options : List Kv)
    (s : Sched WithReference) {E : Env} {t t' : UInt64} (hE : Steady E t)
    {is : List (Env × Op (Builtin ⊕ Builtin))} (his : GoodRun Calm t is t') :
    let P := withReferences H
    let r := step P s E (.setPolicy (.inl n) (some options))
    let r' := step P s E (.setPolicy (.inr n) (some options))
    .inl n ∈ s.plugins.items → .inr n ∈ s.plugins.items →
      r.rc = r'.rc ∧ replies P r.sched is = replies P r'.sched is := by
  intro P r r' hname hname'
  have hlockstep : ∀ t, Lockstep P (fun E => Steady E t) (fun _ _ => True)
      (Beside fun n => BuiltinMatches t n) fun _ _ => True := fun t =>
    follows_lockstep (builtin_follows hH t) fun _ hE => hE.alloc
  have hset := setPolicy_agree (hlockstep t) hE hname hname'
    (follows_inits (builtin_follows hH t) hE n (some options) .start .start)
  have hrun : GoodRun (fun τ E t => τ ≤ t ∧ Steady E t) t is t' := his
  refine ⟨hset.rc, replies_timed hlockstep ?_ hset.sched hrun⟩
  rintro τ t π π' hle ⟨n, s, s', hπ, hπ', hmatches⟩
  exact ⟨n, s, s', hπ, hπ', hmatches.mono hle⟩

/-- The ordered plugin and its reference are loaded; two jobs have two tasks each, one
of which becomes urgent. -/
def orderedBeside : Sched WithReference :=
  run (nextState (withReferences binaryHeap)) (schedCreate (qpuCreate (some [])))
    [(.still 0, .loadPlugin (.inl .ordered) true), (.still 0, .loadPlugin (.inr .ordered) true),
      (.still 0, .submitTask { taskId := 1, jobId := 1, priority := 5 } {}),
      (.still 0, .submitTask { taskId := 2, jobId := 1, deadlineNs := 210, estimatedRuntimeNs := 100 } {}),
      (.still 0, .submitTask { taskId := 3, jobId := 2 } {}),
      (.still 0, .submitTask { taskId := 4, jobId := 2, priority := 7 } {})]

/-- The jobs in turns, in each of them the priorities with boosts. -/
def turnsOptions : List Kv :=
  [⟨optOrderKey, .u64 5⟩, ⟨optOrderKey, .u64 1⟩, ⟨optDeadlineBoostEnable, .u64 1⟩]

/-- Time goes by between the selections. -/
def timeGoesBy : List (Env × Op (Builtin ⊕ Builtin)) :=
  [(.still 10, .taskUpdatePriority 3 9), (.still 120, .selectNext), (.still 120, .selectNext),
    (.still 130, .submitTask { taskId := 5, jobId := 3 } {}), (.still 140, .selectNext),
    (.still 150, .taskCancelled 4), (.still 160, .selectNext), (.still 170, .selectNext)]

/-- The task that became urgent goes before the other one of its job, the task whose
priority was raised before the other one of the second job, and the jobs take turns. -/
theorem builtin_as_reference_turns :
    let P := withReferences binaryHeap
    let r := step P orderedBeside (.still 0) (.setPolicy (.inl .ordered) (some turnsOptions))
    let r' := step P orderedBeside (.still 0) (.setPolicy (.inr .ordered) (some turnsOptions))
    r.rc = .ok ∧ ((replies P r.sched timeGoesBy).filterMap fun reply =>
        reply.2.map Assignment.taskId) = [2, 3, 1, 5] ∧
      replies P r.sched timeGoesBy = replies P r'.sched timeGoesBy := by
  intro P r r'
  have hrun : GoodRun Calm 0 timeGoesBy 170 :=
    ⟨10, calm_still (by decide) (by decide), 120, calm_still (by decide) (by decide), 120,
      calm_still (by decide) (by decide), 130, calm_still (by decide) (by decide), 140,
      calm_still (by decide) (by decide), 150, calm_still (by decide) (by decide), 160,
      calm_still (by decide) (by decide), 170, calm_still (by decide) (by decide), rfl⟩
  have hE : Steady (.still 0) 0 := ⟨fun _ => rfl, fun _ => rfl, by decide⟩
  have hitems : orderedBeside.plugins.items = [.inl .ordered, .inr .ordered] := by decide +kernel
  have h := builtin_as_reference binaryHeap_lawful .ordered turnsOptions orderedBeside hE hrun
    (by simp [hitems]) (by simp [hitems])
  exact ⟨by decide +kernel, by decide +kernel, h.2⟩

end QhwScheduler
