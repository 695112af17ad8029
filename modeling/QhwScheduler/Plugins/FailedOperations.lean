import QhwScheduler.Core.Renumber
import QhwScheduler.Core.SplitParents
import QhwScheduler.Plugins.PolicyReset

/-!
# Failed operations leave no trace

An operation that fails takes back what it did to the records and the QPU, but it has
called hooks, and a submission has used up an enqueue number.

* `step_failed` — what a failed operation may have changed.
* `failed_twins` — a policy with one queue is left as it was, for all that it will do.
* `failed_unobservable` — no run of operations can tell whether the operation was called.
-/

namespace QhwScheduler

open Foundations DeadlineQueue

variable {ν : Type} {σ : ν → Type}

/-- A failed operation leaves all but the state inside the policy and the next enqueue
number. -/
theorem step_failed [DecidableEq ν] {P : ∀ n, PluginDesc (σ n)} {E : Env} {s : Sched σ} {op : Op ν}
    (hok : s.tasks.Ok) (hop : op.Restores) (hrc : (step P s E op).rc ≠ .ok) :
    Untouched P s (step P s E op).sched := by
  cases op with
  | setPolicy name options =>
    have hsame : (step P s E (.setPolicy name options)).sched = s := setPolicy_failed hrc
    rw [hsame]
    exact Untouched.refl s
  | submitTask task answers =>
    obtain ⟨hbinding, hplugins, hcallbacks⟩ :=
      (submission_config (P := P) (E := E) s).submit (SameConfig.refl s) task answers .start
    have hledger : (submitTask P E s task answers .start).sched.ledger = s.ledger := by
      rcases submitTask_submitted hok with ⟨hdone, -⟩ | ⟨-, hled⟩
      · exact absurd hdone hrc
      · exact hled
    exact ⟨hledger, hbinding, hplugins, hcallbacks⟩
  | selectNext => exact schedSelectNext_failed hrc
  | taskUpdatePriority id priority => exact taskUpdatePriority_failed hrc
  | taskStarted id => exact taskStarted_failed hrc
  | _ => exact hop.elim

/-- What is left is the scheduler with another state inside its policy, up to the next
enqueue number. -/
theorem Untouched.renumbered {P : ∀ n, PluginDesc (σ n)} {s s' : Sched σ} (h : Untouched P s s') :
    Renumbered { s with policy := s'.policy } s' := by
  refine ⟨s.tasks, s'.enqueueSeqNext, .refl _, ?_⟩
  obtain ⟨htasks, hqpu⟩ := Ledger.mk.inj h.ledger
  have hplugins := h.plugins
  have hcallbacks := h.callbacks
  cases s'
  simp_all

section Builtin

variable {H : HeapOps} {E : Env} {s : Sched BuiltinState} {τ t : UInt64} {op : Op Builtin}

/-- **Its policy is left as it was**, for all that it will do. -/
theorem failed_twins (hH : H.Lawful) (hs : Agreed (BuiltinInv True) τ s) (hE : Within τ E t)
    (hop : op.Restores) (hrc : (step (builtinPlugins H) s E op).rc ≠ .ok) {π : Sigma BuiltinState}
    (hpolicy : s.policy = some π) (hkeys : .roundRobin ∉ (settings π).1.keys) :
    Twins (Alike (BuiltinMatches t)) s
      { s with policy := (step (builtinPlugins H) s E op).sched.policy } := by
  have hP := builtin_policyInv hH True
  have hnow := hs.mono hP fun _ => hE
  have hnext : Agreed (BuiltinInv True) t (step (builtinPlugins H) s E op).sched :=
    step_agreed hP (fun _ => hE) hs op
  have huntouched := step_failed hs.ok hop hrc
  obtain ⟨htasks, -⟩ := Ledger.mk.inj huntouched.ledger
  have hforce : Installed (InForce π.1 (settings π)) [] (step (builtinPlugins H) s E op).sched := by
    have hstart : Installed (InForce π.1 (settings π)) [] s :=
      ⟨⟨π, hpolicy, rfl, rfl⟩, List.nil_subset _⟩
    by_cases hkeeps : op.KeepsPolicy
    · exact step_installed inForce_kept hstart hkeeps
    · cases op with
      | setPolicy name options =>
        have hsame : (step (builtinPlugins H) s E (.setPolicy name options)).sched = s :=
          setPolicy_failed hrc
        rw [hsame]
        exact hstart
      | _ => exact absurd trivial hkeeps
  obtain ⟨⟨n, state'⟩, hpolicy', hn, hset⟩ := hforce.policy
  obtain ⟨n', state⟩ := π
  obtain rfl : n = n' := hn
  have hold := hnow.holds
  have hnew := hnext.holds
  rw [hpolicy] at hold
  rw [hpolicy', htasks] at hnew
  exact ⟨_, _, ⟨n, state, state', _, rfl, rfl, single_matches hold rfl hkeys,
    single_matches hnew hset hkeys⟩, hpolicy, by rw [hpolicy']⟩

/-- **A failed operation is as if it had not been called**, when no policy is active or
one without a round_robin key: wherever the allocator failed, every run of operations
after it returns what it would have returned without it. -/
theorem failed_unobservable (hH : H.Lawful) (metadata : KvArray) {before : List (Env × Op Builtin)}
    (hbefore : GoodRun Within 0 before τ) (hop : op.Restores) (hE : Within τ E t)
    {is : List (Env × Op Builtin)} {t' : UInt64} (his : GoodRun Calm t is t') :
    let P := builtinPlugins H
    let s := builtinRun H metadata before
    let r := step P s E op
    (∀ π, s.policy = some π → .roundRobin ∉ (settings π).1.keys) → r.rc ≠ .ok →
      replies P r.sched is = replies P s is := by
  intro P s r hkeys hrc
  have hagreed : Agreed (BuiltinInv True) τ s := builtinRun_fresh hH metadata hbefore
  have huntouched : Untouched P s r.sched := step_failed hagreed.ok hop hrc
  have hlast : replies P { s with policy := r.sched.policy } is = replies P r.sched is :=
    replies_renumbered huntouched.renumbered is
  rw [← hlast]
  cases hpolicy : s.policy with
  | none =>
    have hnone : r.sched.policy = none := by
      have hset := huntouched.binding.isSome
      rw [hpolicy, Option.isSome_none, Option.isSome_eq_false_iff, Option.isNone_iff_eq_none] at hset
      exact hset
    rw [hnone, ← hpolicy]
  | some π =>
    have htwins := failed_twins hH hagreed hE hop hrc hpolicy (hkeys π hpolicy)
    exact (alike_replies hH htwins his).symm

end Builtin

/-- Memory is left for `k` requests. -/
def Env.short (k : ℕ) (t : UInt64) : Env where
  alloc := fun n => decide (n < k)
  clock := fun _ => t
  clock_mono := fun _ _ _ => UInt64.le_refl t

/-- The priority plugin on a QPU that takes ten shots at a time, and one task. -/
def slicingRun : List (Env × Op Builtin) :=
  [(.still 0, .loadPlugin .priority true),
    (.still 0, .setPolicy .priority (some [⟨optDeadlineBoostEnable, .u64 1⟩])),
    (.still 0, .setCallbacks { splitTask := true }),
    (.still 0, .submitTask { taskId := 5, priority := 5 } {})]

/-- Memory ends with the last request for the second of two slices.  Submitted again the
task is split, and its slices are handed out after the task that was there. -/
theorem failed_unobservable_slicingRun :
    let P := builtinPlugins binaryHeap
    let s := builtinRun binaryHeap tenShots slicingRun
    let submit : Op Builtin :=
      .submitTask { taskId := 1, metadata := some [⟨metaShots, .u64 20⟩] } twoSlices
    let r := step P s (.short 21 0) submit
    let is := [(Env.still 120, submit), (.still 120, .selectNext), (.still 120, .selectNext),
      (.still 120, .selectNext)]
    r.rc = .errNoMemory ∧ r.sched.enqueueSeqNext = s.enqueueSeqNext + 3 ∧
      ((replies P s is).filterMap fun reply => reply.2.map Assignment.taskId) = [5, 2, 3] ∧
      replies P r.sched is = replies P s is := by
  intro P s submit r is
  have hstill : ∀ i ∈ slicingRun, i.1 = Env.still 0 := by
    simp [slicingRun]
  have hbefore : GoodRun Within 0 slicingRun 0 := by
    refine goodRun_of_forall fun i hi => ?_
    rw [hstill i hi]
    exact ⟨fun _ => UInt64.le_refl 0, fun _ => UInt64.le_refl 0⟩
  have hE : Within 0 (.short 21 0) 0 := ⟨fun _ => UInt64.le_refl 0, fun _ => UInt64.le_refl 0⟩
  have hrun : GoodRun Calm 0 is 120 :=
    ⟨120, calm_still (by decide) (by decide), 120, calm_still (by decide) (by decide), 120,
      calm_still (by decide) (by decide), 120, calm_still (by decide) (by decide), rfl⟩
  have hop : submit.Restores := trivial
  have hrc : r.rc = .errNoMemory := by decide +kernel
  have hfail : r.rc ≠ .ok := by
    rw [hrc]
    decide
  have hkeys : ∀ π ∈ s.policy, OrderKey.roundRobin ∉ (settings π).1.keys := by decide +kernel
  exact ⟨hrc, by decide +kernel, by decide +kernel,
    failed_unobservable binaryHeap_lawful tenShots hbefore hop hE hrun hkeys hfail⟩

end QhwScheduler
