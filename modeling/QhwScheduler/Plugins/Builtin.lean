import QhwScheduler.Core.Agreement
import QhwScheduler.Plugins.Fifo
import QhwScheduler.Plugins.Ordered
import QhwScheduler.Plugins.Priority
import QhwScheduler.Plugins.RoundRobin

/-!
# The built-in policies

* `Builtin`, `builtinPlugins` — the four plugins as one family.
* `BuiltinInv`, `builtin_policyInv` — what they have in common: each keeps exactly the
  waiting tasks.
* `builtinRun` — the schedulers that use them, after any run; `builtinRun_agreed`,
  `builtinRun_fresh` — their policies hold exactly the queued tasks.
* `Reached` — the states the policies get into; `Reached.inv` — the invariant there.
-/

namespace QhwScheduler

open Foundations DeadlineQueue

/-- The plugins that come with the scheduler. -/
inductive Builtin where
  | fifo
  | priority
  | ordered
  | roundRobin
  deriving DecidableEq

/-- The policy state of each. -/
def BuiltinState : Builtin → Type
  | .fifo => FifoState
  | .priority => PriorityState
  | .ordered => OrderedState
  | .roundRobin => RrState

/-- The hooks of each. -/
def builtinPlugins (H : HeapOps) : ∀ n, PluginDesc (BuiltinState n)
  | .fifo => fifoPlugin H
  | .priority => priorityPlugin H
  | .ordered => orderedPlugin H
  | .roundRobin => rrPlugin

/-- The invariant of each; with `G` the priorities are fresh. -/
def BuiltinInv (G : Prop) : ∀ n, UInt64 → BuiltinState n → List TaskDesc → Prop
  | .fifo => fun _ => FifoInv
  | .priority => PriorityInv G
  | .ordered => OrderedInv G
  | .roundRobin => fun _ => RrInv

/-- Every built-in policy keeps its invariant, whatever the allocator does. -/
theorem builtin_policyInv {H : HeapOps} (hH : H.Lawful) (G : Prop) (n : Builtin) :
    PolicyInv (builtinPlugins H n) (fun τ E t => G → Within τ E t) (BuiltinInv G n) := by
  cases n with
  | fifo => exact fifo_policyInv H _
  | priority => exact priority_policyInv hH G
  | ordered => exact ordered_policyInv hH G
  | roundRobin => exact rr_policyInv _

/-! ## Runs of the scheduler -/

/-- The scheduler after a run of operations, from its creation. -/
def builtinRun (H : HeapOps) (metadata : KvArray) (is : List (Env × Op Builtin)) :
    Sched BuiltinState :=
  Foundations.run (nextState (builtinPlugins H)) (schedCreate (qpuCreate metadata)) is

/-- The ordered plugin is set with these keys, and these tasks are submitted. -/
def orderedRun (keys : List UInt64) (tasks : List TaskDesc) : List (Env × Op Builtin) :=
  (.still 0, .loadPlugin .ordered true) ::
    (.still 0, .setPolicy .ordered (some (keys.map fun key => ⟨optOrderKey, .u64 key⟩))) ::
      tasks.map fun d => (.still 0, .submitTask d {})

/-- The active policy holds exactly the queued tasks, whatever the allocator and the
clock do. -/
theorem builtinRun_agreed {H : HeapOps} (hH : H.Lawful) (metadata : KvArray)
    (is : List (Env × Op Builtin)) : Agreed (BuiltinInv False) 0 (builtinRun H metadata is) :=
  run_agreed (builtin_policyInv hH False) (create_agreed _ _ _)
    (goodRun_of_forall fun _ _ => False.elim)

/-- When the clock did not run backwards, its priorities are fresh besides. -/
theorem builtinRun_fresh {H : HeapOps} (hH : H.Lawful) (metadata : KvArray)
    {is : List (Env × Op Builtin)} {t₀ t : UInt64} (his : GoodRun Within t₀ is t) :
    Agreed (BuiltinInv True) t (builtinRun H metadata is) :=
  run_agreed (builtin_policyInv hH True) (create_agreed _ _ _)
    (his.imp fun _ _ _ h _ => h)

/-! ## Reachable states of the policies -/

/-- Whatever the allocator and the clock do in a call, and between calls. -/
def AnyCall : UInt64 → Env → UInt64 → Prop := fun _ _ _ => True

/-- The states the built-in policies get into by a time `t`, with the tasks that wait in
them: after calls of the hooks in any order since an initialisation, or as the active
policy of a scheduler. -/
inductive Reached (H : HeapOps) (Good : UInt64 → Env → UInt64 → Prop) (t : UInt64) :
    Sigma BuiltinState → List TaskDesc → Prop where
  | hooks {n E options c π u τ} {is : List (Env × Hook)} (hE : Good u E τ)
      (hinit : ((builtinPlugins H n).init E options c).outcome = .ok π)
      (his : GoodRun Good τ is t) :
      Reached H Good t ⟨n, (run (hookStep (builtinPlugins H n)) ⟨π, []⟩ is).state⟩
        (run (hookStep (builtinPlugins H n)) ⟨π, []⟩ is).waiting
  | scheduler {metadata τ π} {is : List (Env × Op Builtin)} (his : GoodRun Good τ is t)
      (hpolicy : (builtinRun H metadata is).policy = some π) :
      Reached H Good t π (waiting (builtinRun H metadata is).tasks)

theorem Reached.inv {H : HeapOps} (hH : H.Lawful) {Good : UInt64 → Env → UInt64 → Prop} {G : Prop}
    (hG : ∀ τ E t, Good τ E t → G → Within τ E t) {t : UInt64} {π : Sigma BuiltinState}
    {l : List TaskDesc} (h : Reached H Good t π l) : BuiltinInv G π.1 t π.2 l := by
  have hP := builtin_policyInv hH G
  cases h with
  | @hooks n _ _ _ π _ _ is hE hinit his =>
    have hstart : BuiltinInv G n _ π [] := (hP n).init (hG _ _ _ hE) hinit
    exact (hP n).run (s := ⟨π, []⟩) (his.imp hG) hstart
  | @scheduler metadata _ _ is his hpolicy =>
    have hagreed : Agreed (BuiltinInv G) t (builtinRun H metadata is) :=
      run_agreed hP (create_agreed _ _ _) (his.imp hG)
    have hholds := hagreed.holds
    rw [hpolicy] at hholds
    exact hholds

/-- The invariant of a state that was reached in whatever way. -/
theorem Reached.kept {H : HeapOps} (hH : H.Lawful) {t : UInt64} {π : Sigma BuiltinState}
    {l : List TaskDesc} (h : Reached H AnyCall t π l) : BuiltinInv False π.1 t π.2 l :=
  h.inv hH fun _ _ _ _ => False.elim

/-- The invariant of a state that was reached with a clock that did not run backwards. -/
theorem Reached.fresh {H : HeapOps} (hH : H.Lawful) {t : UInt64} {π : Sigma BuiltinState}
    {l : List TaskDesc} (h : Reached H Within t π l) : BuiltinInv True π.1 t π.2 l :=
  h.inv hH fun _ _ _ hE _ => hE

end QhwScheduler
