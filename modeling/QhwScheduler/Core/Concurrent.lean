import QhwScheduler.Core.CallShape
import QhwScheduler.Foundations.Trace

/-!
# Threads

Any number of threads call any number of schedulers on one QPU.  A scheduler has
a lock, and the QPU has one; `QpuSections` says where a call takes the second.  A
call holds the first from its beginning to its end, but a submission whose
callbacks run gives it back for them and takes it once more.

* `Sections.sectionOf` — what a call does each time it holds the lock, and what it
  comes back for; `moment` — the same without anyone else at the QPU.
* `Machine`, `Machine.Step` — the threads, and everything that can happen next:
  a thread takes the lock of a scheduler, passes one section at the QPU, gives
  the lock back.
* `Atomic`, `Atomic.Step` — the same threads, with all that a call does under the
  lock done at one moment between its invocation and its response, and for a
  submission whose callbacks run at two.
* `Atomic.run_of_reaches` — the moments of the calls, in their order, are a run
  of `sharedNext`.
-/

namespace QhwScheduler

open Foundations

variable {ν : Type} {σ : ν → Type}

/-- What a call returns. -/
structure Reply where
  rc : Rc
  assignment : Option Assignment
  deriving DecidableEq

/-- The reply of an outcome. -/
def OpResult.reply (r : OpResult σ) : Reply := ⟨r.rc, r.assignment⟩

/-- What a user calls: the halves of a submission come with the whole. -/
def Op.Public : Op ν → Prop
  | .submitBegin _ | .submitEnd _ _ => False
  | _ => True

/-- What an observer sees of the threads. -/
inductive CallEvent (ν : Type) where
  | create (handle : ℕ)
  | destroy (handle : ℕ)
  | invoke (thread handle : ℕ) (op : Op ν)
  | respond (thread : ℕ) (reply : Reply)

/-! ## Under the lock of the scheduler -/

/-- Where a call gives the lock back: what came out so far, and what it takes the
lock once more for. -/
structure Halt (σ : ν → Type) where
  result : OpResult σ
  more : Option (Op ν)

/-- A halt with the scheduler as it finds the QPU. -/
def Halt.atQpu (z : Halt σ) (qpu : Qpu) : Halt σ := { z with result := z.result.atQpu qpu }

/-- The queued records of the scheduler that is left. -/
noncomputable def Halt.queued (z : Halt σ) : ℕ := z.result.queued

/-- What an operation is when it first holds the lock. -/
def Op.firstSection : Op ν → Op ν
  | .submitTask task _ => .submitBegin task
  | op => op

/-- What a call does from taking the lock of its scheduler to giving it back.  A
submission with a plan comes back with the answers of the callbacks. -/
def Sections.sectionOf [DecidableEq ν] (P : ∀ n, PluginDesc (σ n)) (s : Sched σ) (E : Env) :
    Op ν → Call (Halt σ)
  | .submitTask task answers =>
    (submitPrepare P E s task .start).bind fun p =>
      .done ⟨⟨p.rc, p.sched, none⟩, p.plan.map fun plan => .submitEnd plan answers⟩
  | op => (callOf P s E op).bind fun r => .done ⟨r, none⟩

/-- The same without anyone else at the QPU. -/
def moment [DecidableEq ν] (P : ∀ n, PluginDesc (σ n)) (s : Sched σ) (E : Env) : Op ν → Halt σ
  | .submitTask task answers =>
    let p := submitPrepare P E s task .start
    ⟨⟨p.rc, p.sched, none⟩, p.plan.map fun plan => .submitEnd plan answers⟩
  | op => ⟨step P s E op, none⟩

theorem Op.unbroken_or (op : Op ν) :
    op.Unbroken ∨ ∃ task answers, op = .submitTask task answers := by
  cases op with
  | submitTask task answers => exact Or.inr ⟨task, answers, rfl⟩
  | _ => exact Or.inl trivial

section Moment

variable [DecidableEq ν] {P : ∀ n, PluginDesc (σ n)} {s : Sched σ} {E : Env}

theorem moment_unbroken {op : Op ν} (hop : op.Unbroken) :
    moment P s E op = ⟨step P s E op, none⟩ := by
  cases op with
  | submitTask task answers => exact hop.elim
  | _ => rfl

/-- What is done at the first moment is an operation of the scheduler. -/
theorem moment_result (op : Op ν) : (moment P s E op).result = step P s E op.firstSection := by
  cases op <;> rfl

namespace Sections

theorem sectionOf_unbroken {op : Op ν} (hop : op.Unbroken) :
    sectionOf P s E op = (callOf P s E op).bind fun r => .done ⟨r, none⟩ := by
  cases op with
  | submitTask task answers => exact hop.elim
  | _ => rfl

/-- Without anyone else at the QPU the sections come to one moment. -/
theorem sectionOf_run (P : ∀ n, PluginDesc (σ n)) (E : Env) (s : Sched σ) (qpu : Qpu) (op : Op ν) :
    let z := (sectionOf P (s.at (profile qpu)) E op).run QpuSection.exec qpu
    z.1.atQpu z.2 = moment P (s.at qpu) E op := by
  rcases op.unbroken_or with hop | ⟨task, answers, rfl⟩
  · rw [sectionOf_unbroken hop, moment_unbroken hop, Program.run_bind]
    exact congrArg (Halt.mk · none) (callOf_run P E s qpu hop)
  · have hprepare := submitPrepare_run (P := P) (E := E) (s.at (profile qpu)) qpu .start task rfl
    dsimp only [sectionOf, moment]
    rw [Program.run_bind]
    exact congrArg (fun p : PrepareResult σ => (⟨⟨p.rc, p.sched, none⟩,
      p.plan.map fun plan => .submitEnd plan answers⟩ : Halt σ)) hprepare

theorem sectionOf_oneDecision (hstart : NeverRefusesStart P) (s : Sched σ) (E : Env) (op : Op ν) :
    (sectionOf P s E op).OneDecision := by
  rcases op.unbroken_or with hop | ⟨task, answers, rfl⟩
  · rw [sectionOf_unbroken hop]
    exact (callOf_oneDecision hstart s E op).then_done _
  · exact (submitPrepare_trails s _ task).oneDecision.then_done _

/-- It is covered by the queued records that it finds. -/
theorem sectionOf_covered (hstart : NeverRefusesStart P) (hok : s.tasks.Ok) (E : Env) (qpu : Qpu)
    (op : Op ν) :
    Call.Covered Halt.queued (sectionOf P (s.at (profile qpu)) E op)
      (s.tasks.number fun r => r.state = .queued) := by
  rcases op.unbroken_or with hop | ⟨task, answers, rfl⟩
  · rw [sectionOf_unbroken hop]
    exact Call.covered_then_done.2 (callOf_covered hstart hok E qpu hop)
  · have hbegin : (Op.submitBegin task : Op ν).Unbroken := trivial
    have hprepare : Call.Covered
        (fun p : PrepareResult σ => (⟨p.rc, p.sched, none⟩ : OpResult σ).queued)
        (submitPrepare P E (s.at (profile qpu)) task .start)
        (s.tasks.number fun r => r.state = .queued) :=
      Call.covered_then_done.1 (callOf_covered hstart hok E qpu hbegin)
    exact Call.covered_then_done.2 hprepare

end Sections

end Moment

/-! ## Locks -/

/-- What is under a handle: nothing, a scheduler whose lock is free, or one that a
thread works on. -/
inductive Handle (σ : ν → Type) where
  | absent
  | free (s : Sched σ)
  | held (thread : ℕ)

/-- What a thread is doing: nothing, waiting for the lock of a scheduler (or running
the callbacks that come before), working under it, or about to return. -/
inductive Thread (σ : ν → Type) where
  | idle
  | waiting (handle : ℕ) (op : Op ν)
  | inside (handle : ℕ) (rest : Call (Halt σ))
  | leaving (reply : Reply)

/-- The thread that has given the lock back. -/
def Halt.thread (z : Halt σ) (handle : ℕ) : Thread σ :=
  match z.more with
  | none => .leaving z.result.reply
  | some op => .waiting handle op

/-- What is under a handle, but for what its scheduler last saw of the QPU; a
scheduler that a thread works on is there, and no more is said of it. -/
def Handle.Shows (qpu : Qpu) : Handle σ → Option (Sched σ) → Prop
  | .absent, s => s = none
  | .free s, s' => s'.map (·.at qpu) = some (s.at qpu)
  | .held _, s => s.isSome

/-- The QPU, the schedulers and the threads. -/
structure Machine (σ : ν → Type) where
  qpu : Qpu
  handles : ℕ → Handle σ
  threads : ℕ → Thread σ

/-- A new QPU, and nothing else. -/
def machineCreate (metadata : KvArray) : Machine σ :=
  ⟨qpuCreate metadata, fun _ => .absent, fun _ => .idle⟩

/-- One step of a thread.  A scheduler is destroyed only when no call is under way
on it: that is for the caller to see to. -/
inductive Machine.Step [DecidableEq ν] (P : ∀ n, PluginDesc (σ n)) :
    Machine σ → Option (CallEvent ν) → Machine σ → Prop where
  | create {m h} (habsent : m.handles h = .absent) :
      Step P m (some (.create h))
        { m with
          qpu := qpuRetain m.qpu
          handles := Function.update m.handles h (.free (schedCreate m.qpu)) }
  | destroy {m h s} (hfree : m.handles h = .free s)
      (hunused : ∀ t op, m.threads t ≠ .waiting h op) :
      Step P m (some (.destroy h))
        { m with qpu := qpuRelease m.qpu, handles := Function.update m.handles h .absent }
  | invoke {m t} (h : ℕ) {op : Op ν} (hidle : m.threads t = .idle) (hop : op.Public) :
      Step P m (some (.invoke t h op))
        { m with threads := Function.update m.threads t (.waiting h op) }
  | acquire {m t h op s} (E : Env) (hwaiting : m.threads t = .waiting h op)
      (hfree : m.handles h = .free s) :
      Step P m none
        { m with
          handles := Function.update m.handles h (.held t)
          threads := Function.update m.threads t
            (.inside h (Sections.sectionOf P (s.at (Sections.profile m.qpu)) E op)) }
  | pass {m t h x next} (hinside : m.threads t = .inside h (.enter x next)) :
      Step P m none
        { m with
          qpu := (x.exec m.qpu).2
          threads := Function.update m.threads t (.inside h (next (x.exec m.qpu).1)) }
  | release {m t h z} (hinside : m.threads t = .inside h (.done z)) :
      Step P m none
        { m with
          handles := Function.update m.handles h (.free z.result.sched)
          threads := Function.update m.threads t (z.thread h) }
  | respond {m t reply} (hleaving : m.threads t = .leaving reply) :
      Step P m (some (.respond t reply)) { m with threads := Function.update m.threads t .idle }

/-- No scheduler is being worked on. -/
def Machine.AtRest (m : Machine σ) : Prop := ∀ h t, m.handles h ≠ .held t

/-! ## Calls at one moment -/

/-- A call that is not yet done, or done and not yet returned. -/
inductive Pending (ν : Type) where
  | idle
  | called (handle : ℕ) (op : Op ν)
  | answered (reply : Reply)

/-- The call after a moment of it. -/
def Halt.pending (z : Halt σ) (handle : ℕ) : Pending ν :=
  match z.more with
  | none => .answered z.result.reply
  | some op => .called handle op

/-- The schedulers on one QPU, and the threads that call them. -/
structure Atomic (σ : ν → Type) where
  shared : Shared σ
  calls : ℕ → Pending ν

/-- A new QPU, and nothing else. -/
def atomicCreate (metadata : KvArray) : Atomic σ := ⟨sharedCreate metadata, fun _ => .idle⟩

/-- One step: what a call does while it holds the lock is done at one moment, as
`sharedNext` does it. -/
inductive Atomic.Step [DecidableEq ν] (P : ∀ n, PluginDesc (σ n)) :
    Atomic σ → Option (CallEvent ν) → Atomic σ → Prop where
  | create {a h} (E : Env) (hnone : a.shared.scheds h = none) :
      Step P a (some (.create h)) { a with shared := sharedNext P a.shared (.create h E) }
  | destroy {a h} (hunused : ∀ t op, a.calls t ≠ .called h op) :
      Step P a (some (.destroy h)) { a with shared := sharedNext P a.shared (.destroy h) }
  | invoke {a t} (h : ℕ) {op : Op ν} (hidle : a.calls t = .idle) (hop : op.Public) :
      Step P a (some (.invoke t h op)) { a with calls := Function.update a.calls t (.called h op) }
  | perform {a t h op s} (E : Env) (hcalled : a.calls t = .called h op)
      (hsome : a.shared.scheds h = some s) :
      Step P a none
        { shared := sharedNext P a.shared (.call h E op.firstSection)
          calls := Function.update a.calls t ((moment P (s.at a.shared.qpu) E op).pending h) }
  | respond {a t reply} (hanswered : a.calls t = .answered reply) :
      Step P a (some (.respond t reply)) { a with calls := Function.update a.calls t .idle }

/-- **The calls in the order of their moments** are a run of the schedulers one
operation after the other. -/
theorem Atomic.run_of_reaches [DecidableEq ν] {P : ∀ n, PluginDesc (σ n)} {metadata : KvArray}
    {trace : List (CallEvent ν)} {a : Atomic σ}
    (h : Reaches (Atomic.Step P) (atomicCreate metadata) trace a) :
    ∃ is, a.shared = run (sharedNext P) (sharedCreate metadata) is := by
  refine h.keeps (motive := fun a =>
    ∃ is, a.shared = run (sharedNext P) (sharedCreate metadata) is) ?_ ⟨[], rfl⟩
  have hmore : ∀ (a : Atomic σ) i,
      (∃ is, a.shared = run (sharedNext P) (sharedCreate metadata) is) →
      ∃ is, sharedNext P a.shared i = run (sharedNext P) (sharedCreate metadata) is := by
    rintro a i ⟨is, ha⟩
    exact ⟨is ++ [i], by rw [run_append, ← ha]; rfl⟩
  intro a l a' ha hstep
  cases hstep with
  | @create h E hnone => exact hmore a (.create h E) ha
  | @destroy h hunused => exact hmore a (.destroy h) ha
  | invoke h hidle hop => exact ha
  | @perform t h op s E hcalled hsome => exact hmore a (.call h E op.firstSection) ha
  | respond hanswered => exact ha

end QhwScheduler
