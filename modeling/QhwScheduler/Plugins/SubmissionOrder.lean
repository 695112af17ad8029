import QhwScheduler.Core.EnqueueOrder
import QhwScheduler.Foundations.BinaryHeap
import QhwScheduler.Plugins.Builtin

/-!
# Fifo hands out in the order of submission

The order is kept twice: in the list of the table, with gaps where submissions
failed, and in the queue of the policy, which a replay builds anew.

* `schedSelectNext_fifo` — a selection takes the first queued task of the list.
* `idHandedOut` — the id a call hands out; `drain_fifo` — what a sequence of
  selections hands out.
* `fifo_submission_order` — for every run before the selections.
-/

namespace QhwScheduler

open Foundations

/-! ## One selection -/

section Selection

variable {ν : Type} {σ : ν → Type} {P : ∀ n, PluginDesc (σ n)} {E : Env} {s : Sched σ} {n : ν}
  {state state' : σ n} {id : TaskId} {c c' : Cursor}

/-- The policy finds no task. -/
theorem schedSelectNext_of_none (hpolicy : s.policy = some ⟨n, state⟩)
    (h : (P n).selectNext E state c = ⟨.errNotFound, id, state', c'⟩) :
    schedSelectNext P E s c = ⟨.errNotFound, { s with policy := some ⟨n, state'⟩ }, none⟩ := by
  unfold schedSelectNext
  rw [hpolicy]
  dsimp only
  rw [h, if_pos (by simp)]

/-- The policy names a queued task. -/
theorem schedSelectNext_of_ok {record : TaskRecord} (hpolicy : s.policy = some ⟨n, state⟩)
    (h : (P n).selectNext E state c = ⟨.ok, id, state', c'⟩)
    (hr : taskTableFind s.tasks id = some record) (hq : record.state = .queued) :
    schedSelectNext P E s c =
      ⟨.ok, { s with
        policy := some ⟨n, state'⟩
        tasks := s.tasks.update id { record with state := .assigned }
        qpu := qpuRuntimeTaskUnqueued s.qpu }, some (fillAssignmentFromRecord record)⟩ := by
  unfold schedSelectNext
  rw [hpolicy]
  dsimp only
  rw [h, if_neg (by simp), hr]
  dsimp only
  rw [if_neg (not_not.2 hq), setState_of_find hr]

end Selection

section Fifo

variable {H : HeapOps} {E : Env} {s : Sched BuiltinState} {π : FifoState}

/-- With the fifo policy the first queued task of the list is handed out, and
leaves; when there is none, the selection finds none. -/
theorem schedSelectNext_fifo (h : Agreed (BuiltinInv False) 0 s)
    (hpolicy : s.policy = some ⟨.fifo, π⟩) :
    let r := schedSelectNext (builtinPlugins H) E s .start
    (∃ π', r.sched.policy = some ⟨.fifo, π'⟩) ∧
    ((waiting s.tasks = [] ∧ waiting r.sched.tasks = [] ∧ r.rc = .errNotFound ∧ r.assignment = none) ∨
      ∃ record rest, waiting s.tasks = record.desc :: rest ∧ waiting r.sched.tasks = rest ∧
        taskTableFind s.tasks record.desc.taskId = some record ∧ record.state = .queued ∧
        r.rc = .ok ∧ r.assignment = some (fillAssignmentFromRecord record)) := by
  obtain ⟨hok, hholds⟩ := h
  rw [hpolicy] at hholds
  have hinv : FifoInv π (waiting s.tasks) := hholds
  dsimp only
  cases hwaiting : waiting s.tasks with
  | nil =>
    rw [hwaiting] at hinv
    rw [schedSelectNext_of_none hpolicy (hinv.select_nil (H := H) .start)]
    exact ⟨⟨π, rfl⟩, Or.inl ⟨rfl, hwaiting, rfl, rfl⟩⟩
  | cons d rest =>
    rw [hwaiting] at hinv
    obtain ⟨π', hselect, -⟩ := hinv.select_cons (H := H) .start
    obtain ⟨record, hr, hq, rfl⟩ := hok.mem_waiting.1 (hwaiting ▸ List.mem_cons_self)
    rw [schedSelectNext_of_ok hpolicy hselect hr hq]
    refine ⟨⟨π', rfl⟩, Or.inr ⟨record, rest, rfl, ?_, hr, hq, rfl, rfl⟩⟩
    show waiting (s.tasks.update record.desc.taskId { record with state := .assigned }) = rest
    rw [hok.waiting_leave record.desc.taskId (by simp), hwaiting, withoutTask_cons_self hinv.nodup]

/-! ## Draining -/

/-- The id a call hands out. -/
def idHandedOut (H : HeapOps) (s : Sched BuiltinState) (i : Env × Op Builtin) : Option TaskId :=
  (step (builtinPlugins H) s i.1 i.2).assignment.map Assignment.taskId

/-- A sequence of selections hands out the queued tasks one after the other, and then
none. -/
theorem drain_fifo (hH : H.Lawful) (h : Agreed (BuiltinInv False) 0 s)
    (hpolicy : s.policy = some ⟨.fifo, π⟩) (Es : List Env) :
    outputs (nextState (builtinPlugins H)) (idHandedOut H) s (Es.map fun E => (E, .selectNext)) =
      (List.range Es.length).map fun k => (taskIds (waiting s.tasks))[k]? := by
  induction Es generalizing s π with
  | nil => rfl
  | cons E Es ih =>
    obtain ⟨⟨π', hpolicy'⟩, hserved⟩ := schedSelectNext_fifo (H := H) (E := E) h hpolicy
    have h' : Agreed (BuiltinInv False) 0 (nextState (builtinPlugins H) s (E, .selectNext)) :=
      step_agreed (fun n => builtin_policyInv hH False n) (E := E) (τ := 0) False.elim h .selectNext
    rw [List.map_cons, outputs, ih h' hpolicy', List.length_cons, List.range_succ_eq_map,
      List.map_cons, List.map_map]
    rcases hserved with ⟨hnil, hnil', -, hnone⟩ | ⟨record, rest, hcons, hrest, -, -, -, hsome⟩
    · rw [show idHandedOut H s (E, .selectNext) = none from congrArg (Option.map _) hnone, hnil,
        show waiting (nextState (builtinPlugins H) s (E, .selectNext)).tasks = [] from hnil']
      rfl
    · rw [show idHandedOut H s (E, .selectNext) = some record.desc.taskId from
        congrArg (Option.map _) hsome, hcons,
        show waiting (nextState (builtinPlugins H) s (E, .selectNext)).tasks = rest from hrest]
      rfl

end Fifo

/-! ## Every run -/

/-- **Fifo follows the order of submission.**  After every run of any policies, switches,
splits, failed submissions and cancels: the list of the table holds exactly the
records, numbered in its order, and is what the calls entered one after the other;
and with the fifo policy a selection hands out the queued record with the smallest
number, and a sequence of selections all queued records in the order of the list. -/
theorem fifo_submission_order {H : HeapOps} (hH : H.Lawful) (metadata : KvArray)
    (is : List (Env × Op Builtin)) :
    let P := builtinPlugins H
    let s := builtinRun H metadata is
    s.tasks.Sequenced s.enqueueSeqNext ∧
    s.tasks.enqueueOrder =
      (outputs (nextState P) (submittedIds P) (schedCreate (qpuCreate metadata)) is).flatten ∧
    ∀ π : FifoState, s.policy = some ⟨.fifo, π⟩ →
      (∀ E, let r := schedSelectNext P E s .start
        ((∀ id record, taskTableFind s.tasks id = some record → record.state ≠ .queued) ∧
          r.rc = .errNotFound ∧ r.assignment = none) ∨
        ∃ record, taskTableFind s.tasks record.desc.taskId = some record ∧ record.state = .queued ∧
          r.rc = .ok ∧ r.assignment = some (fillAssignmentFromRecord record) ∧
          ∀ id record', taskTableFind s.tasks id = some record' → record'.state = .queued →
            record.enqueueSeq ≤ record'.enqueueSeq) ∧
      ∀ Es : List Env,
        outputs (nextState P) (idHandedOut H) s (Es.map fun E => (E, .selectNext)) =
          (List.range Es.length).map fun k => (taskIds (waiting s.tasks))[k]? := by
  have hagreed := builtinRun_agreed hH metadata is
  have hsequenced := run_sequenced (builtinPlugins H) (qpuCreate metadata) is
  have horder := run_order (builtinPlugins H) (s := schedCreate (qpuCreate metadata))
    TaskTable.ok_empty is
  dsimp only
  refine ⟨hsequenced, horder, fun π hpolicy => ⟨fun E => ?_, drain_fifo hH hagreed hpolicy⟩⟩
  obtain ⟨-, ⟨hnil, -, hrc, hnone⟩ | ⟨record, rest, hcons, -, hr, hq, hrc, hsome⟩⟩ :=
    schedSelectNext_fifo (H := H) (E := E) hagreed hpolicy
  · refine Or.inl ⟨fun id record hr hq => ?_, hrc, hnone⟩
    have hmem := hagreed.ok.mem_taskIds_waiting.2 ⟨record, hr, hq⟩
    rw [hnil] at hmem
    simp at hmem
  · refine Or.inr ⟨record, hr, hq, hrc, hsome, fun id record' hr' hq' => ?_⟩
    exact hsequenced.queued_le hcons hr hr' hq'

/-- Three tasks wait with the priority policy, one is cancelled, and fifo takes over. -/
def takenOverRun : List (Env × Op Builtin) :=
  [(.still 0, .loadPlugin .priority true), (.still 0, .loadPlugin .fifo true),
    (.still 0, .setPolicy .priority (some [])), (.still 0, .submitTask { taskId := 7 } {}),
    (.still 0, .submitTask { taskId := 5 } {}),
    (.still 0, .submitTask { taskId := 6, priority := 9 } {}), (.still 0, .taskCancelled 5),
    (.still 0, .setPolicy .fifo (some []))]

/-- The others are handed out in the order of submission. -/
theorem fifo_submission_order_takenOver :
    outputs (nextState (builtinPlugins binaryHeap)) (idHandedOut binaryHeap)
        (builtinRun binaryHeap (some []) takenOverRun)
        ([.still 0, .still 0, .still 0].map fun E => (E, .selectNext)) =
      [some 7, some 6, none] := by
  obtain ⟨-, -, hfifo⟩ := fifo_submission_order binaryHeap_lawful (some []) takenOverRun
  have hids : taskIds (waiting (builtinRun binaryHeap (some []) takenOverRun).tasks) = [7, 6] := by
    decide +kernel
  have hpolicy : (builtinRun binaryHeap (some []) takenOverRun).policy.map Sigma.fst =
      some .fifo := by decide +kernel
  obtain ⟨⟨n, π⟩, hπ, rfl⟩ := Option.map_eq_some_iff.1 hpolicy
  have hdrain := (hfifo π hπ).2 [.still 0, .still 0, .still 0]
  rw [hids] at hdrain
  exact hdrain

end QhwScheduler
