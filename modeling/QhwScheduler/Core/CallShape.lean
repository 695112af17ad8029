import QhwScheduler.Core.QpuSections
import QhwScheduler.Core.Teardown

/-!
# What a call does to the QPU

The sections of a call are of two kinds: those that move the queue counter, which
no call ever reads, and those at the slot.

* `Qpu.slots` — the QPU but for its queue counter.
* `Call.Trails` — nothing but the counter is left to do; `Call.OneDecision` — one
  section at most is at the slot, and the answer of that one decides the call.
* `callOf_oneDecision` — every call is of this shape when no start is refused by
  the hook of a policy.
* `Call.Covered` — whenever the call takes a task off the counter, the counter
  counts one of its own scheduler.
* `callOf_covered` — every call is covered by the queued records it finds, and
  leaves those of its outcome.
-/

namespace QhwScheduler

open Foundations

variable {ν : Type} {σ : ν → Type} {α β : Type}

/-! ## The two kinds of sections -/

/-- The QPU with another queue counter. -/
def Qpu.withQueued (qpu : Qpu) (n : ℕ) : Qpu :=
  { qpu with runtime := { qpu.runtime with queuedCount := n } }

/-- The QPU but for its queue counter. -/
def Qpu.slots (qpu : Qpu) : Qpu := qpu.withQueued 0

/-- The section moves the queue counter. -/
def QpuSection.Counts : QpuSection → Prop
  | .queued | .unqueued => True
  | _ => False

instance : DecidablePred QpuSection.Counts := fun x => by
  cases x <;> simp only [QpuSection.Counts] <;> infer_instance

section Sections

variable {x : QpuSection} {qpu qpu' : Qpu}

@[simp] theorem withQueued_queuedCount (n : ℕ) : (qpu.withQueued n).runtime.queuedCount = n := rfl

@[simp] theorem withQueued_metadata (n : ℕ) : (qpu.withQueued n).metadata = qpu.metadata := rfl

@[simp] theorem withQueued_slots (n : ℕ) : (qpu.withQueued n).slots = qpu.slots := rfl

@[simp] theorem withQueued_self : qpu.withQueued qpu.runtime.queuedCount = qpu := rfl

/-- Two QPUs that differ in the counter only. -/
theorem eq_withQueued (h : qpu.slots = qpu'.slots) :
    qpu' = qpu.withQueued qpu'.runtime.queuedCount := by
  have hback : ∀ (q : Qpu) n, q.slots.withQueued n = q.withQueued n := fun _ _ => rfl
  rw [← hback, h, hback, withQueued_self]

theorem eq_of_slots (h : qpu.slots = qpu'.slots)
    (hqueued : qpu.runtime.queuedCount = qpu'.runtime.queuedCount) : qpu = qpu' := by
  rw [eq_withQueued h, ← hqueued, withQueued_self]

theorem slots_metadata (h : qpu.slots = qpu'.slots) : qpu.metadata = qpu'.metadata := by
  rw [eq_withQueued h, withQueued_metadata]

theorem QpuSection.Counts.answer (h : x.Counts) : (x.exec qpu).1 = .ok := by
  cases x <;> first | rfl | exact h.elim

theorem QpuSection.Counts.exec_slots (h : x.Counts) : (x.exec qpu).2.slots = qpu.slots := by
  cases x with
  | queued => rfl
  | unqueued =>
    simp only [QpuSection.exec, qpuRuntimeTaskUnqueued]
    split <;> rfl
  | started id => exact h.elim
  | unstarted id => exact h.elim
  | finished id state => exact h.elim

/-- A section at the slot leaves the queue counter alone. -/
theorem QpuSection.exec_queuedCount (h : ¬ x.Counts) :
    (x.exec qpu).2.runtime.queuedCount = qpu.runtime.queuedCount := by
  cases x with
  | queued => exact absurd trivial h
  | unqueued => exact absurd trivial h
  | started id =>
    simp only [QpuSection.exec, qpuRuntimeTaskStarted]
    split <;> rfl
  | unstarted id =>
    simp only [QpuSection.exec, qpuRuntimeTaskUnstarted]
    split <;> rfl
  | finished id state => exact qpuFinished_queuedCount qpu id state

theorem QpuSection.exec_metadata (x : QpuSection) : (x.exec qpu).2.metadata = qpu.metadata := by
  cases x with
  | queued => rfl
  | unqueued =>
    simp only [QpuSection.exec, qpuRuntimeTaskUnqueued]
    split <;> rfl
  | started id =>
    simp only [QpuSection.exec, qpuRuntimeTaskStarted]
    split <;> rfl
  | unstarted id =>
    simp only [QpuSection.exec, qpuRuntimeTaskUnstarted]
    split <;> rfl
  | finished id state => cases state <;> rfl

/-- A section does not look at the queue counter. -/
theorem QpuSection.exec_withQueued (x : QpuSection) (n : ℕ) :
    (x.exec (qpu.withQueued n)).1 = (x.exec qpu).1 ∧
      (x.exec (qpu.withQueued n)).2.slots = (x.exec qpu).2.slots := by
  cases x with
  | queued => exact ⟨rfl, rfl⟩
  | unqueued =>
    refine ⟨rfl, ?_⟩
    rw [QpuSection.Counts.exec_slots (x := .unqueued) trivial,
      QpuSection.Counts.exec_slots (x := .unqueued) trivial, withQueued_slots]
  | started id =>
    by_cases h : qpu.runtime.runningTaskId = invalidTaskId <;>
      simp [QpuSection.exec, qpuRuntimeTaskStarted, Qpu.withQueued, Qpu.slots, h]
  | unstarted id =>
    by_cases h : qpu.runtime.runningTaskId = id <;>
      simp [QpuSection.exec, qpuRuntimeTaskUnstarted, Qpu.withQueued, Qpu.slots, h]
  | finished id state =>
    by_cases h : qpu.runtime.runningTaskId = id <;> cases state <;>
      simp [QpuSection.exec, qpuRuntimeTaskFinished, qpuRuntimeTaskUnstarted, Qpu.withQueued,
        Qpu.slots, h]

theorem QpuSection.exec_slots (x : QpuSection) (h : qpu.slots = qpu'.slots) :
    (x.exec qpu).1 = (x.exec qpu').1 ∧ (x.exec qpu).2.slots = (x.exec qpu').2.slots := by
  have hexec : (x.exec (qpu.withQueued qpu'.runtime.queuedCount)).1 = (x.exec qpu).1 ∧
      (x.exec (qpu.withQueued qpu'.runtime.queuedCount)).2.slots = (x.exec qpu).2.slots :=
    QpuSection.exec_withQueued x _
  rw [← eq_withQueued h] at hexec
  exact ⟨hexec.1.symm, hexec.2.symm⟩

end Sections

/-! ## The shape of a call -/

/-- Nothing but the queue counter is left to do. -/
def Call.Trails : Call α → Prop
  | .done _ => True
  | .enter x next => x.Counts ∧ Call.Trails (next .ok)

/-- One section at most is at the slot. -/
def Call.OneDecision : Call α → Prop
  | .done _ => True
  | .enter x next =>
    (x.Counts ∧ Call.OneDecision (next .ok)) ∨ (¬ x.Counts ∧ ∀ rc, Call.Trails (next rc))

/-- The outcome of a call that is decided. -/
def Call.result : Call α → α
  | .done a => a
  | .enter _ next => Call.result (next .ok)

namespace Call

theorem Trails.oneDecision {p : Call α} (h : p.Trails) : p.OneDecision := by
  induction p with
  | done a => trivial
  | enter x next ih => exact Or.inl ⟨h.1, ih _ h.2⟩

theorem Trails.bind {p : Call α} {f : α → Call β} (h : p.Trails) (hf : ∀ a, (f a).Trails) :
    Trails (p.bind f) := by
  induction p with
  | done a => exact hf a
  | enter x next ih => exact ⟨h.1, ih _ h.2⟩

theorem Trails.visit {x : QpuSection} {rest : Call α} (hx : x.Counts) (h : rest.Trails) :
    (Call.visit x rest).Trails := ⟨hx, h⟩

theorem Trails.visitIf {p : Bool} {x : QpuSection} {rest : Call α} (hx : x.Counts)
    (h : rest.Trails) : (Call.visitIf p x rest).Trails := by
  cases p with
  | false => exact h
  | true => exact ⟨hx, h⟩

theorem run_metadata (p : Call α) (qpu : Qpu) :
    (p.run QpuSection.exec qpu).2.metadata = qpu.metadata := by
  induction p generalizing qpu with
  | done a => rfl
  | enter x next ih => exact (ih _ _).trans x.exec_metadata

/-- What is worked out of the outcome in the end does not take it to the slot. -/
theorem OneDecision.then_done {p : Call α} (h : p.OneDecision) (f : α → β) :
    OneDecision (p.bind fun a => .done (f a)) := by
  induction p with
  | done a => trivial
  | enter x next ih =>
    rcases h with ⟨hx, h⟩ | ⟨hx, h⟩
    · exact Or.inl ⟨hx, ih _ h⟩
    · exact Or.inr ⟨hx, fun rc => (h rc).bind fun _ => trivial⟩

/-- What is left of a decided call has one outcome, whatever happens to the QPU. -/
theorem Trails.run {p : Call α} (h : p.Trails) (qpu : Qpu) :
    (p.run QpuSection.exec qpu).1 = p.result ∧
      (p.run QpuSection.exec qpu).2.slots = qpu.slots := by
  induction p generalizing qpu with
  | done a => exact ⟨rfl, rfl⟩
  | enter x next ih =>
    obtain ⟨hout, hslots⟩ := ih _ h.2 (x.exec qpu).2
    rw [Program.run_enter, h.1.answer]
    exact ⟨hout, hslots.trans h.1.exec_slots⟩

/-- A call does not look at the queue counter. -/
theorem OneDecision.run_congr {p : Call α} (h : p.OneDecision) {qpu qpu' : Qpu}
    (hslots : qpu.slots = qpu'.slots) :
    (p.run QpuSection.exec qpu).1 = (p.run QpuSection.exec qpu').1 ∧
      (p.run QpuSection.exec qpu).2.slots = (p.run QpuSection.exec qpu').2.slots := by
  induction p generalizing qpu qpu' with
  | done a => exact ⟨rfl, hslots⟩
  | enter x next ih =>
    obtain ⟨hrc, hnext⟩ := x.exec_slots hslots
    rw [Program.run_enter, Program.run_enter, ← hrc]
    rcases h with ⟨hx, h⟩ | ⟨-, h⟩
    · rw [hx.answer]
      exact ih _ h hnext
    · have hrest := h (x.exec qpu).1
      exact ⟨(hrest.run _).1.trans (hrest.run _).1.symm,
        (hrest.run _).2.trans (hnext.trans (hrest.run _).2.symm)⟩

end Call

/-- No policy refuses the start of a task. -/
def NeverRefusesStart (P : ∀ n, PluginDesc (σ n)) : Prop :=
  ∀ n E state id c, ((P n).onTaskStarted E state id c).rc = .ok

namespace Sections

section Shape

variable {P : ∀ n, PluginDesc (σ n)} {E : Env} (s : Sched σ) (c : Cursor)

theorem enqueueTaskLocked_trails (task : TaskDesc) : (enqueueTaskLocked P E s task c).Trails := by
  unfold enqueueTaskLocked
  dsimp only
  split
  · trivial
  · refine Call.Trails.visit trivial ?_
    split
    · trivial
    · split
      · exact ⟨trivial, trivial⟩
      · trivial

theorem removeChildren_trails (children : List TaskDesc) :
    (removeChildren P E s children c).Trails := by
  induction children generalizing s c with
  | nil => trivial
  | cons child earlier ih =>
    refine Call.Trails.bind ?_ fun r => ih r.1 r.2
    unfold removeQueuedTaskLocked
    split <;> exact ⟨trivial, trivial⟩

theorem enqueueChildren_trails (done children : List TaskDesc) :
    (enqueueChildren P E s done children c).Trails := by
  induction children generalizing s c done with
  | nil => trivial
  | cons child rest ih =>
    refine Call.Trails.bind (enqueueTaskLocked_trails s c child) fun r => ?_
    split
    · exact Call.Trails.bind (removeChildren_trails r.sched r.cursor done) fun _ => trivial
    · exact ih r.sched r.cursor (child :: done)

theorem submitSplitTaskLocked_trails (parent : TaskDesc) (children : List TaskDesc) :
    (submitSplitTaskLocked P E s parent children c).Trails := by
  unfold submitSplitTaskLocked
  dsimp only
  split
  · trivial
  · split
    · trivial
    · refine Call.Trails.bind (enqueueChildren_trails _ _ [] children) fun e => ?_
      split <;> trivial

theorem submitPrepare_trails (task : TaskDesc) : (submitPrepare P E s task c).Trails := by
  unfold submitPrepare
  split
  · trivial
  · generalize computeSplitConfig P s task = decided
    obtain ⟨d, s'⟩ := decided
    dsimp only
    split
    · trivial
    · split
      · split
        · trivial
        · split
          · trivial
          · exact Call.Trails.bind (enqueueTaskLocked_trails s' c _) fun _ => trivial
      · split
        · trivial
        · split <;> trivial

theorem submitFinish_trails (plan : SubmitPlan) (answers : CallbackAnswers) :
    (submitFinish P E s plan answers c).Trails := by
  unfold submitFinish
  cases plan with
  | estimate task =>
    dsimp only
    generalize computeSplitConfig P s task = decided
    obtain ⟨d, s'⟩ := decided
    split
    · trivial
    · split
      · trivial
      · split
        · trivial
        · split
          · trivial
          · exact enqueueTaskLocked_trails s' c _
  | split task config children hasEstimateCost =>
    dsimp only
    generalize computeSplitConfig P s task = decided
    obtain ⟨d, s'⟩ := decided
    split
    · trivial
    · split
      · trivial
      · split
        · trivial
        · split
          · trivial
          · split
            · trivial
            · split
              · trivial
              · exact submitSplitTaskLocked_trails s' _ task _

theorem schedSelectNext_trails : (schedSelectNext P E s c).Trails := by
  unfold schedSelectNext
  split
  · trivial
  · dsimp only
    split
    · trivial
    · split
      · trivial
      · split
        · trivial
        · exact ⟨trivial, trivial⟩

theorem taskStarted_oneDecision (hstart : NeverRefusesStart P) (id : TaskId) :
    (taskStarted P E s id c).OneDecision := by
  unfold taskStarted
  split
  · trivial
  · split
    · trivial
    · refine Or.inr ⟨fun h => h, fun rc => ?_⟩
      dsimp only
      by_cases hrc : rc ≠ .ok
      · rw [if_pos hrc]
        trivial
      · rw [if_neg hrc]
        refine Call.Trails.visitIf (x := .unqueued) trivial ?_
        split
        · trivial
        · rw [if_neg (not_not.2 (hstart _ _ _ _ _))]
          trivial

theorem finishTask_oneDecision (id : TaskId) (state : TaskState) :
    (finishTask P E s id state c).OneDecision := by
  have hlast : ∀ p : Call (OpResult σ), p.Trails →
      (Call.visit (.finished id state) p).OneDecision := fun p hp =>
    Or.inr ⟨fun h => h, fun _ => hp⟩
  unfold finishTask
  split
  · trivial
  · split
    · trivial
    · split
      · trivial
      · split
        · trivial
        · next record _ _ _ _ =>
          cases decide (record.state = .queued) with
          | false =>
            refine hlast _ ?_
            split <;> trivial
          | true =>
            refine Or.inl ⟨trivial, hlast _ ?_⟩
            split <;> trivial

end Shape

/-- **Every call decides at one section at most.** -/
theorem callOf_oneDecision [DecidableEq ν] {P : ∀ n, PluginDesc (σ n)}
    (hstart : NeverRefusesStart P) (s : Sched σ) (E : Env) (op : Op ν) :
    (callOf P s E op).OneDecision := by
  cases op with
  | setCallbacks callbacks => trivial
  | loadPlugin name valid => trivial
  | setPolicy name options => trivial
  | submitTask task answers =>
    refine (Call.Trails.bind (submitPrepare_trails s _ task) fun _ => ?_).oneDecision
    trivial
  | submitBegin task =>
    refine (Call.Trails.bind (submitPrepare_trails s _ task) fun _ => ?_).oneDecision
    trivial
  | submitEnd plan answers =>
    refine (Call.Trails.bind (submitFinish_trails s _ plan answers) fun _ => ?_).oneDecision
    trivial
  | selectNext => exact (schedSelectNext_trails s _).oneDecision
  | taskUpdatePriority id priority => trivial
  | taskStarted id => exact taskStarted_oneDecision s _ hstart id
  | taskCompleted id => exact finishTask_oneDecision s _ id _
  | taskFailed id => exact finishTask_oneDecision s _ id _
  | taskCancelled id => exact finishTask_oneDecision s _ id _

end Sections

/-! ## The queue counter -/

/-- Whenever the call takes a task off the counter, `n` counts one of its own, and
in the end `n` is the number of those in the outcome. -/
def Call.Covered (own : α → ℕ) : Call α → ℕ → Prop
  | .done a, n => own a = n
  | .enter .queued next, n => Call.Covered own (next .ok) (n + 1)
  | .enter .unqueued next, n => 0 < n ∧ Call.Covered own (next .ok) (n - 1)
  | .enter (.started _) next, n =>
    Call.Covered own (next .ok) n ∧ Call.Covered own (next .errState) n
  | .enter (.unstarted _) next, n => Call.Covered own (next .ok) n
  | .enter (.finished _ _) next, n => Call.Covered own (next .ok) n

/-- Without anyone else at the QPU the counter moves as the own tasks do, whatever
it counts beside them. -/
def Call.Balanced (own : α → ℕ) (metadata : KvArray) (p : Call α) (n : ℕ) : Prop :=
  ∀ (qpu : Qpu) (k : ℕ), qpu.metadata = metadata → qpu.runtime.queuedCount = k + n →
    (p.run QpuSection.exec qpu).2.runtime.queuedCount = k + own (p.run QpuSection.exec qpu).1

namespace Call

variable {own : α → ℕ} {metadata : KvArray}

/-- What is left of a decided call moves the counter in one way. -/
theorem Trails.run_queuedCount {p : Call α} (h : p.Trails) {qpu qpu' : Qpu}
    (hqueued : qpu.runtime.queuedCount = qpu'.runtime.queuedCount) :
    (p.run QpuSection.exec qpu).2.runtime.queuedCount =
      (p.run QpuSection.exec qpu').2.runtime.queuedCount := by
  induction p generalizing qpu qpu' with
  | done a => exact hqueued
  | enter x next ih =>
    rw [Program.run_enter, Program.run_enter, h.1.answer, h.1.answer]
    refine ih _ h.2 ?_
    cases x with
    | queued => exact congrArg (· + 1) hqueued
    | unqueued =>
      show (qpuRuntimeTaskUnqueued qpu).runtime.queuedCount =
        (qpuRuntimeTaskUnqueued qpu').runtime.queuedCount
      rw [qpuUnqueued_queuedCount, qpuUnqueued_queuedCount, hqueued]
    | started id => exact h.1.elim
    | unstarted id => exact h.1.elim
    | finished id state => exact h.1.elim

/-- A section that is at the slot balances what follows it. -/
theorem Balanced.decided {x : QpuSection} {next : Rc → Call α} {n : ℕ} {rc : Rc}
    (h : Balanced own metadata (.enter x next) n) (hx : ¬ x.Counts) (htrails : (next rc).Trails)
    (qpu : Qpu) (hmeta : qpu.metadata = metadata)
    (hrc : ∀ k, (x.exec (qpu.withQueued k)).1 = rc) : Balanced own metadata (next rc) n := by
  intro qpu' k _ hqueued'
  have hrun := h (qpu.withQueued (k + n)) k hmeta rfl
  rw [Program.run_enter, hrc] at hrun
  have hcount : qpu'.runtime.queuedCount =
      (x.exec (qpu.withQueued (k + n))).2.runtime.queuedCount := by
    rw [QpuSection.exec_queuedCount hx, hqueued', withQueued_queuedCount]
  rw [htrails.run_queuedCount hcount, hrun, (htrails.run _).1, (htrails.run _).1]

/-- **A call that balances the counter never takes a task off it that is not its
own**: what saturates at zero beside no others would not do so beside one. -/
theorem Balanced.covered {p : Call α} {n : ℕ} (hone : p.OneDecision)
    (h : Balanced own metadata p n) : Covered own p n := by
  induction p generalizing n with
  | done a =>
    have hrun := h ⟨metadata, { queuedCount := n }, 0⟩ 0 rfl (Nat.zero_add n).symm
    exact (Nat.zero_add _).symm.trans hrun.symm
  | enter x next ih =>
    have hdecided : ∀ {rc}, ¬ x.Counts → ∀ qpu : Qpu, qpu.metadata = metadata →
        (∀ k, (x.exec (qpu.withQueued k)).1 = rc) → Covered own (next rc) n := by
      intro rc hx qpu hmeta hrc
      have htrails : Trails (next rc) := by
        rcases hone with ⟨hx', -⟩ | ⟨-, ht⟩
        · exact absurd hx' hx
        · exact ht rc
      exact ih rc htrails.oneDecision (h.decided hx htrails qpu hmeta hrc)
    have hcounting : x.Counts → OneDecision (next .ok) := by
      intro hx
      rcases hone with ⟨-, ho⟩ | ⟨hx', -⟩
      · exact ho
      · exact absurd hx hx'
    cases x with
    | queued =>
      refine ih .ok (hcounting trivial) fun qpu k hmeta hqueued => ?_
      have hrun := h (qpu.withQueued (k + n)) k hmeta rfl
      have hback : (QpuSection.queued.exec (qpu.withQueued (k + n))).2 = qpu := by
        refine eq_of_slots rfl ?_
        rw [hqueued]
        rfl
      rwa [Program.run_enter, hback] at hrun
    | unqueued =>
      have hpos : 0 < n := by
        rcases Nat.eq_zero_or_pos n with rfl | hpos
        · -- from zero and from one the rest of the call runs alike
          have h0 := h ⟨metadata, {}, 0⟩ 0 rfl rfl
          have h1 := h ⟨metadata, { queuedCount := 1 }, 0⟩ 1 rfl rfl
          have hsame : (QpuSection.unqueued.exec ⟨metadata, {}, 0⟩) =
              QpuSection.unqueued.exec ⟨metadata, { queuedCount := 1 }, 0⟩ := rfl
          rw [Program.run_enter, hsame] at h0
          rw [Program.run_enter] at h1
          omega
        · exact hpos
      refine ⟨hpos, ih .ok (hcounting trivial) fun qpu k hmeta hqueued => ?_⟩
      have hrun := h (qpu.withQueued (k + n)) k hmeta rfl
      have hback : (QpuSection.unqueued.exec (qpu.withQueued (k + n))).2 = qpu := by
        refine eq_of_slots (QpuSection.Counts.exec_slots (x := .unqueued) trivial) ?_
        refine (qpuUnqueued_queuedCount _).trans ?_
        rw [withQueued_queuedCount, hqueued]
        omega
      rwa [Program.run_enter, hback] at hrun
    | started id =>
      exact ⟨hdecided (fun h => h) ⟨metadata, {}, 0⟩ rfl fun _ => rfl,
        hdecided (fun h => h) ⟨metadata, { runningTaskId := 1 }, 0⟩ rfl fun _ => rfl⟩
    | unstarted id => exact hdecided (fun h => h) ⟨metadata, {}, 0⟩ rfl fun _ => rfl
    | finished id state => exact hdecided (fun h => h) ⟨metadata, {}, 0⟩ rfl fun _ => rfl

/-- What is worked out of the outcome in the end does not move the counter. -/
theorem covered_then_done {p : Call α} {f : α → β} {own : β → ℕ} {n : ℕ} :
    Covered own (p.bind fun a => .done (f a)) n ↔ Covered (fun a => own (f a)) p n := by
  induction p generalizing n with
  | done a => rfl
  | enter x next ih =>
    cases x with
    | queued => exact ih .ok
    | unqueued => exact and_congr_right fun _ => ih .ok
    | started id => exact and_congr (ih .ok) (ih .errState)
    | unstarted id => exact ih .ok
    | finished id state => exact ih .ok

/-- A section that moves the counter. -/
theorem Covered.counting {x : QpuSection} {next : Rc → Call α} {n : ℕ}
    (h : Covered own (.enter x next) n) (hx : x.Counts) :
    ∃ n', Covered own (next .ok) n' ∧ ∀ (qpu : Qpu) (k : ℕ), qpu.runtime.queuedCount = k + n →
      (x.exec qpu).2.runtime.queuedCount = k + n' := by
  cases x with
  | queued => exact ⟨n + 1, h, fun qpu k hqpu => congrArg (· + 1) hqpu⟩
  | unqueued =>
    refine ⟨n - 1, h.2, fun qpu k hqpu => (qpuUnqueued_queuedCount qpu).trans ?_⟩
    have hpos := h.1
    omega
  | started id => exact hx.elim
  | unstarted id => exact hx.elim
  | finished id state => exact hx.elim

/-- A section at the slot. -/
theorem Covered.decision {x : QpuSection} {next : Rc → Call α} {n : ℕ}
    (h : Covered own (.enter x next) n) (hx : ¬ x.Counts) (qpu : Qpu) :
    Covered own (next (x.exec qpu).1) n := by
  cases x with
  | queued => exact absurd trivial hx
  | unqueued => exact absurd trivial hx
  | started id =>
    simp only [QpuSection.exec, qpuRuntimeTaskStarted]
    split
    · exact h.2
    · exact h.1
  | unstarted id => exact h
  | finished id state => exact h

end Call

/-- The queued records of an outcome. -/
noncomputable def OpResult.queued (r : OpResult σ) : ℕ :=
  r.sched.tasks.number fun r => r.state = .queued

/-- **Every call is covered** by the queued records that it finds. -/
theorem callOf_covered [DecidableEq ν] {P : ∀ n, PluginDesc (σ n)} (hstart : NeverRefusesStart P)
    {s : Sched σ} (hok : s.tasks.Ok) (E : Env) (qpu : Qpu) {op : Op ν} (hop : op.Unbroken) :
    Call.Covered OpResult.queued (Sections.callOf P (s.at (Sections.profile qpu)) E op)
      (s.tasks.number fun r => r.state = .queued) := by
  refine Call.Balanced.covered (Sections.callOf_oneDecision hstart _ E op)
    fun qpu' k (hmeta : qpu'.metadata = qpu.metadata) hqueued => ?_
  have hprofile : Sections.profile qpu = Sections.profile qpu' := by
    simp [Sections.profile, hmeta]
  rw [hprofile]
  have hrun := Sections.callOf_run P E s qpu' hop
  obtain ⟨e, -, hallowed, hled⟩ := step_event P E op (s := s.at qpu') hok
  have hafter := QueuedBeside.apply (k := k) (L := (s.at qpu').ledger) hqueued hok hallowed
  rw [← hled, ← hrun] at hafter
  exact hafter

end QhwScheduler
