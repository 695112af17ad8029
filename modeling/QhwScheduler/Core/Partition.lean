import QhwScheduler.Core.Conformance
import QhwScheduler.Foundations.BinaryHeap
import QhwScheduler.Plugins.Fifo

/-!
# The slices handed out

The assignments that `select_next` returns for the slices of one split, over any
run after the split was accepted.

* `assignments` — the assignments a run returns.
* `Event.desc` — an event changes no descriptor but for its priority.
* `assignments_nodup`, `assignment_was_queued` — no task is handed out twice.
* `HandedOut` — assignments that share out the request of the split.
* `Op.commitsPlan` — the plan an operation commits, and the state its second section finds.
* `slices_partition` — every run hands the slices out so.
-/

namespace QhwScheduler

variable {ν : Type} {σ : ν → Type}

/-! ## Descriptors -/

/-- A descriptor with another priority, at most. -/
def SameTask (d d' : TaskDesc) : Prop := ∃ priority, d' = { d with priority := priority }

theorem SameTask.refl (d : TaskDesc) : SameTask d d := ⟨d.priority, rfl⟩

theorem SameTask.trans {d d' d'' : TaskDesc} (h : SameTask d d') (h' : SameTask d' d'') :
    SameTask d d'' := by
  obtain ⟨p, rfl⟩ := h
  obtain ⟨p', rfl⟩ := h'
  exact ⟨p', rfl⟩

theorem SameTask.shots {d d' : TaskDesc} (h : SameTask d d') : shotsOf d' = shotsOf d := by
  obtain ⟨p, rfl⟩ := h
  rfl

/-- The descriptor of a task that is there. -/
def descOf (table : TaskTable) (id : TaskId) : Option TaskDesc :=
  (taskTableFind table id).map TaskRecord.desc

/-- The shots of a task that is there. -/
def recordShots (table : TaskTable) (id : TaskId) : ℕ := ((descOf table id).map shotsOf).getD 0

section Desc

variable {table : TaskTable} {r : TaskRecord} {id x : TaskId} {d : TaskDesc}

theorem descOf_of_find (h : taskTableFind table id = some r) : descOf table id = some r.desc := by
  rw [descOf, h, Option.map_some]

theorem descOf_update : descOf (table.update id r) x =
    if x = id then some r.desc else descOf table x := by
  unfold descOf
  rw [find_update]
  split <;> rfl

theorem descOf_insert : descOf (table.insert r) x =
    if x = r.desc.taskId then some r.desc else descOf table x := by
  unfold descOf
  rw [find_insert]
  split <;> rfl

theorem descOf_updateParent (child : TaskRecord) (state : TaskState) :
    descOf (updateParentAfterChildLocked table child state) x = descOf table x := by
  unfold updateParentAfterChildLocked
  split
  · rfl
  · split
    · rfl
    · next p hp =>
      split
      · rfl
      · have hdesc : (p.countChild state).desc = p.desc := by
          unfold TaskRecord.countChild
          split <;> rfl
        dsimp only
        rw [descOf_update]
        split
        · next hx => rw [hx, descOf_of_find hp, hdesc]
        · rfl

/-- **An event changes no descriptor** but for its priority. -/
theorem Event.desc {L : Ledger} {e : Event} (hallowed : e.Allowed L)
    (h : descOf L.tasks id = some d) :
    ∃ d', descOf (e.apply L).tasks id = some d' ∧ SameTask d d' := by
  have hupdate : ∀ {y r r'}, taskTableFind L.tasks y = some r → SameTask r.desc r'.desc →
      ∃ d', descOf (L.tasks.update y r') id = some d' ∧ SameTask d d' := by
    intro y r r' hr hsame
    rw [descOf_update]
    split
    · next hx =>
      subst hx
      rw [descOf_of_find hr] at h
      exact ⟨r'.desc, rfl, Option.some.inj h ▸ hsame⟩
    · exact ⟨d, h, .refl d⟩
  cases e with
  | idle => exact ⟨d, h, .refl d⟩
  | accept task seq =>
    refine ⟨d, ?_, .refl d⟩
    rw [Event.apply, Ledger.accept, descOf_insert, if_neg, h]
    rintro rfl
    simp [descOf, hallowed.1] at h
  | acceptSplit parent children seq =>
    obtain ⟨hnew, -, hfresh, -⟩ := hallowed
    refine ⟨d, ?_, .refl d⟩
    have hother : id ∉ taskIds children := by
      rw [mem_taskIds]
      rintro ⟨c, hc, rfl⟩
      simp [descOf, hfresh.fresh c hc] at h
    have hparent : id ≠ parent.taskId := by
      rintro rfl
      simp [descOf, hnew] at h
    unfold descOf at h ⊢
    rw [Event.apply, acceptAll_find_of_not_mem hother, find_insert, if_neg (by exact hparent), h]
  | assign y =>
    obtain ⟨r, hr, -⟩ := hallowed
    rw [Event.apply, on_of_find hr]
    exact hupdate hr (.refl r.desc)
  | reprioritize y priority =>
    obtain ⟨r, hr, -⟩ := hallowed
    rw [Event.apply, on_of_find hr]
    exact hupdate hr ⟨priority, rfl⟩
  | start y =>
    obtain ⟨-, r, hr, -⟩ := hallowed
    rw [Event.apply, on_of_find hr]
    exact hupdate hr (.refl r.desc)
  | finish y state =>
    obtain ⟨-, r, hr, -⟩ := hallowed
    rw [Event.apply, on_of_find hr]
    dsimp only
    rw [descOf_updateParent]
    exact hupdate hr (.refl r.desc)

end Desc

/-! ## What a run hands out -/

section Runs

variable [DecidableEq ν] (P : ∀ n, PluginDesc (σ n))

/-- The assignments the operations of a run return, in order. -/
def assignments (s : Sched σ) : List (Env × Op ν) → List Assignment
  | [] => []
  | i :: is => (step P s i.1 i.2).assignment.toList ++ assignments (nextState P s i) is

variable {P} {s : Sched σ} {E : Env} {op : Op ν} {a : Assignment} {is : List (Env × Op ν)}

/-- Only a selection returns an assignment: of a queued task, which it assigns. -/
theorem step_assignment (hok : s.tasks.Ok) (h : (step P s E op).assignment = some a) :
    ∃ r, taskTableFind s.tasks a.taskId = some r ∧ r.state = .queued ∧
      a = fillAssignmentFromRecord r ∧
      stateOf (step P s E op).sched.tasks a.taskId = some .assigned := by
  have hfinish : ∀ id state, (finishTask P E s id state .start).assignment = none := by
    intro id state
    unfold finishTask
    split
    · rfl
    · split
      · rfl
      · split
        · rfl
        · split
          · rfl
          · dsimp only
            split <;> rfl
  cases op with
  | setCallbacks callbacks => simp [step, setCallbacks] at h
  | loadPlugin name valid =>
    simp only [step, loadPlugin] at h
    split at h <;> simp at h
  | setPolicy name options =>
    simp only [step, setPolicy] at h
    split at h
    · simp at h
    · split at h
      · simp at h
      · split at h
        · simp at h
        · split at h <;> simp at h
  | submitTask task answers => simp [step, StepResult.done] at h
  | submitBegin task => simp [step] at h
  | submitEnd plan answers => simp [step, StepResult.done] at h
  | selectNext =>
    simp only [step, schedSelectNext] at h ⊢
    split at h
    · simp at h
    · next n state hpolicy =>
      split at h
      · simp at h
      · next hhook =>
        rw [if_neg hhook]
        split at h
        · simp at h
        · next r hr =>
          split at h
          · simp at h
          · next hq =>
            obtain rfl := Option.some.inj h
            have hid : r.desc.taskId = ((P n).selectNext E state .start).taskId :=
              hok.desc_id _ r hr
            refine ⟨r, ?_, not_not.1 hq, rfl, ?_⟩
            · show taskTableFind s.tasks r.desc.taskId = some r
              rw [hid, hr]
            · rw [if_neg hq]
              show stateOf (taskTableSetState s.tasks _ .assigned) r.desc.taskId = _
              rw [setState_of_find hr, stateOf_update, if_pos hid]
  | taskUpdatePriority id priority =>
    simp only [step, taskUpdatePriority] at h
    split at h
    · simp at h
    · split at h
      · simp at h
      · split at h
        · simp at h
        · split at h <;> simp at h
  | taskStarted id =>
    simp only [step, taskStarted] at h
    split at h
    · simp at h
    · split at h
      · simp at h
      · split at h
        · simp at h
        · split at h
          · simp at h
          · split at h <;> simp at h
  | taskCompleted id => simp [step, hfinish] at h
  | taskFailed id => simp [step, hfinish] at h
  | taskCancelled id => simp [step, hfinish] at h

/-- A scheduler in a state that a run can reach. -/
def Proper (s : Sched σ) : Prop := s.tasks.Ok ∧ KnownStates s.tasks

theorem Proper.next (h : Proper s) (i : Env × Op ν) : Proper (nextState P s i) :=
  run_event_invariant P (motive := fun L => KnownStates L.tasks)
    (fun _ _ _ h hallowed => h.apply hallowed) h.1 h.2 [i]

/-- A task that a run hands out is queued before it, if it is there at all. -/
theorem assignment_was_queued (hs : Proper s) {state : TaskState} (ha : a ∈ assignments P s is)
    (hstate : stateOf s.tasks a.taskId = some state) : state = .queued := by
  induction is generalizing s state with
  | nil => simp [assignments] at ha
  | cons i is ih =>
    rw [assignments, List.mem_append, Option.mem_toList] at ha
    rcases ha with ha | ha
    · obtain ⟨r, hr, hq, -⟩ := step_assignment hs.1 ha
      rw [stateOf_of_find hr, hq] at hstate
      exact (Option.some.inj hstate).symm
    · have hconforms : Conforms P s (i.1, i.2) := conforms hs.1 hs.2
      obtain ⟨new, hnew, hmove⟩ := hconforms.moves _ state hstate
      obtain rfl := ih (hs.next i) ha hnew
      cases hmove with
      | stay => rfl
      | aggregate _ _ _ _ _ _ _ _ _ hterm => simp [taskStateIsTerminal] at hterm

/-- **No task is handed out twice.** -/
theorem assignments_nodup (hs : Proper s) :
    ((assignments P s is).map Assignment.taskId).Nodup := by
  induction is generalizing s with
  | nil => simp [assignments]
  | cons i is ih =>
    rw [assignments, List.map_append]
    cases ha : (step P s i.1 i.2).assignment with
    | none => exact ih (hs.next i)
    | some a =>
      show (a.taskId :: (assignments P (nextState P s i) is).map Assignment.taskId).Nodup
      rw [List.nodup_cons]
      refine ⟨?_, ih (hs.next i)⟩
      rw [List.mem_map]
      rintro ⟨b, hb, hid⟩
      obtain ⟨-, -, -, -, hassigned⟩ := step_assignment hs.1 ha
      rw [← hid] at hassigned
      exact absurd (assignment_was_queued (hs.next i) hb hassigned) (by decide)

/-- Whenever a task is handed out, its assignment says what its descriptor said
when the run began. -/
theorem assignment_fill (hs : Proper s) {d : TaskDesc} (ha : a ∈ assignments P s is)
    (hd : descOf s.tasks a.taskId = some d) :
    a = fillAssignmentFromRecord { desc := d, state := .queued, enqueueSeq := 0 } := by
  induction is generalizing s d with
  | nil => simp [assignments] at ha
  | cons i is ih =>
    rw [assignments, List.mem_append, Option.mem_toList] at ha
    rcases ha with ha | ha
    · obtain ⟨r, hr, -, hfill, -⟩ := step_assignment hs.1 ha
      rw [descOf_of_find hr] at hd
      rw [← Option.some.inj hd]
      exact hfill
    · obtain ⟨e, -, hallowed, hled⟩ := step_event P i.1 i.2 hs.1
      obtain ⟨d', hd', p, rfl⟩ := Event.desc hallowed hd
      have htasks : (nextState P s i).tasks = (e.apply s.ledger).tasks :=
        congrArg Ledger.tasks hled
      have hnext : descOf (nextState P s i).tasks a.taskId = some { d with priority := p } := by
        rw [htasks, hd']
      have hfill := ih (hs.next i) (d := { d with priority := p }) ha hnext
      exact hfill

/-- A run keeps the descriptors but for their priorities. -/
theorem run_desc (hs : Proper s) {id : TaskId} {d : TaskDesc} (is : List (Env × Op ν))
    (hd : descOf s.tasks id = some d) :
    ∃ d', descOf (Foundations.run (nextState P) s is).tasks id = some d' ∧ SameTask d d' := by
  induction is generalizing s d with
  | nil => exact ⟨d, hd, .refl d⟩
  | cons i is ih =>
    obtain ⟨e, -, hallowed, hled⟩ := step_event P i.1 i.2 hs.1
    obtain ⟨d', hd', hsame⟩ := Event.desc hallowed hd
    have htasks : (nextState P s i).tasks = (e.apply s.ledger).tasks := congrArg Ledger.tasks hled
    obtain ⟨d'', hd'', hsame'⟩ := ih (hs.next i) (htasks ▸ hd')
    exact ⟨d'', hd'', hsame.trans hsame'⟩

end Runs

/-! ## The slices of one split -/

/-- These assignments share out the request of a split parent among its slices. -/
structure HandedOut (parent : TaskDesc) (limit : ℕ) (children : List TaskDesc)
    (table : TaskTable) (given : List Assignment) : Prop where
  parent_id : ∀ a ∈ given, a.parentTaskId = parent.taskId
  slice_count : ∀ a ∈ given, a.sliceCount.toNat = children.length
  slice_index : ∀ a ∈ given, a.sliceIndex.toNat < children.length
  distinct : (given.map Assignment.sliceIndex).Nodup
  shots : ∀ a ∈ given, 1 ≤ recordShots table a.taskId ∧ recordShots table a.taskId ≤ limit
  total_le : (given.map fun a => recordShots table a.taskId).sum ≤ shotsOf parent
  total : (∀ d ∈ children, d.taskId ∈ given.map Assignment.taskId) →
    (given.map fun a => recordShots table a.taskId).sum = shotsOf parent

/-- Distinct members of a list add up to at most the whole of it, and to all of
it when none is missing. -/
theorem sum_map_le {α : Type*} [DecidableEq α] {l l' : List α} (f : α → ℕ) (hnd : l.Nodup)
    (hsub : l ⊆ l') : (l.map f).sum ≤ (l'.map f).sum ∧
      (l'.Nodup → l' ⊆ l → (l.map f).sum = (l'.map f).sum) := by
  have hle : l.Subperm l' := List.subperm_of_subset hnd hsub
  constructor
  · obtain ⟨m, hperm, hm⟩ := hle
    rw [← (hperm.map f).sum_eq]
    exact (hm.map f).sum_le_sum fun _ _ => Nat.zero_le _
  · intro hnd' hsub'
    exact ((hle.antisymm (List.subperm_of_subset hnd' hsub')).map f).sum_eq

/-- **The slices of a split** that is in the table, over any run. -/
theorem slices_handedOut [DecidableEq ν] {P : ∀ n, PluginDesc (σ n)} {s : Sched σ} {L : Ledger}
    {parent : TaskDesc} {planned : SplitConfig} {children : List TaskDesc} {seq : ℕ}
    (hs : Proper s) (hvalid : ChildrenValid L.tasks parent planned children)
    (hrequested : planned.requestedShots.toNat = shotsOf parent)
    (hled : s.ledger = Event.apply L (.acceptSplit parent children seq))
    (is : List (Env × Op ν)) :
    HandedOut parent planned.sliceShots.toNat children
      (Foundations.run (nextState P) s is).tasks
      ((assignments P s is).filter fun a => a.taskId ∈ taskIds children) := by
  have hdesc : ∀ d ∈ children, descOf s.tasks d.taskId = some d := by
    intro d hd
    obtain ⟨n, hn⟩ := acceptAll_find_of_mem
      (L := ⟨L.tasks.insert (parentRecord parent seq children.length), L.qpu⟩) (seq + 1)
      hvalid.nodup hd
    rw [show s.tasks = _ from congrArg Ledger.tasks hled]
    exact descOf_of_find hn
  have hgiven : ∀ a ∈ (assignments P s is).filter fun a => a.taskId ∈ taskIds children,
      ∃ d ∈ children, a.taskId = d.taskId ∧
        a = fillAssignmentFromRecord { desc := d, state := .queued, enqueueSeq := 0 } := by
    intro a ha
    rw [List.mem_filter, decide_eq_true_eq, mem_taskIds] at ha
    obtain ⟨hmem, d, hd, hid⟩ := ha
    exact ⟨d, hd, hid.symm, assignment_fill hs hmem (hid ▸ hdesc d hd)⟩
  have hshots : ∀ d ∈ children,
      recordShots (Foundations.run (nextState P) s is).tasks d.taskId = shotsOf d := by
    intro d hd
    obtain ⟨d', hd', hsame⟩ := run_desc (P := P) hs is (hdesc d hd)
    rw [recordShots, hd', Option.map_some, Option.getD_some, hsame.shots]
  have hindex : ∀ d ∈ children, ∃ i : UInt64, i.toNat < children.length ∧
      sliceIndexOf d = some i.toNat ∧ metadataGetU64 d.metadata metaSliceIndex = some i := by
    intro d hd
    have hmem := hvalid.indexes.mem_iff.1 (List.mem_map_of_mem hd)
    rw [List.mem_map] at hmem
    obtain ⟨n, hn, hsome⟩ := hmem
    have hsome' := hsome.symm
    rw [sliceIndexOf, Option.map_eq_some_iff] at hsome'
    obtain ⟨i, hi, rfl⟩ := hsome'
    exact ⟨i, List.mem_range.1 hn, hsome.symm, hi⟩
  have hindexes : (children.map sliceIndexOf).Nodup :=
    (hvalid.indexes.nodup_iff).2 ((List.nodup_range).map (Option.some_injective ℕ))
  generalize hgivens : (assignments P s is).filter (fun a => a.taskId ∈ taskIds children) = given
    at hgiven
  have hnodup : (given.map Assignment.taskId).Nodup := by
    rw [← hgivens]
    exact (List.filter_sublist.map Assignment.taskId).nodup (assignments_nodup hs)
  have hsum : (given.map fun a => recordShots (Foundations.run (nextState P) s is).tasks a.taskId) =
      (given.map Assignment.taskId).map
        (recordShots (Foundations.run (nextState P) s is).tasks) := by
    rw [List.map_map]
    rfl
  have hwhole : ((taskIds children).map
      (recordShots (Foundations.run (nextState P) s is).tasks)).sum = shotsOf parent := by
    rw [← hrequested, ← hvalid.total, taskIds, List.map_map]
    congr 1
    exact List.map_congr_left hshots
  have hsub : given.map Assignment.taskId ⊆ taskIds children := by
    intro id hid
    obtain ⟨a, ha, rfl⟩ := List.mem_map.1 hid
    obtain ⟨d, hd, hid, -⟩ := hgiven a ha
    exact hid ▸ mem_taskIds_of_mem hd
  have hle := sum_map_le (recordShots (Foundations.run (nextState P) s is).tasks) hnodup hsub
  rw [hwhole] at hle
  refine ⟨?_, ?_, ?_, ?_, ?_, ?_, ?_⟩
  · intro a ha
    obtain ⟨d, hd, -, rfl⟩ := hgiven a ha
    exact hvalid.names_parent d hd
  · intro a ha
    obtain ⟨d, hd, -, rfl⟩ := hgiven a ha
    have hcount := hvalid.counts d hd
    rw [sliceCountOf, Option.map_eq_some_iff] at hcount
    obtain ⟨n, hn, hlen⟩ := hcount
    simp only [fillAssignmentFromRecord, hn, Option.getD_some, hlen]
  · intro a ha
    obtain ⟨d, hd, -, rfl⟩ := hgiven a ha
    obtain ⟨i, hlt, -, hi⟩ := hindex d hd
    simp only [fillAssignmentFromRecord, hi, Option.getD_some]
    exact hlt
  · refine List.Nodup.map_on ?_ hnodup.of_map
    intro a ha b hb hab
    obtain ⟨d, hd, -, rfl⟩ := hgiven a ha
    obtain ⟨d', hd', -, rfl⟩ := hgiven b hb
    obtain ⟨i, -, hsome, hi⟩ := hindex d hd
    obtain ⟨i', -, hsome', hi'⟩ := hindex d' hd'
    simp only [fillAssignmentFromRecord, hi, hi', Option.getD_some] at hab
    rw [List.inj_on_of_nodup_map hindexes hd hd' (by rw [hsome, hsome', hab])]
  · intro a ha
    obtain ⟨d, hd, hid, -⟩ := hgiven a ha
    rw [hid, hshots d hd]
    exact hvalid.shots d hd
  · rw [hsum]
    exact hle.1
  · intro hall
    rw [hsum]
    refine hle.2 hvalid.nodup fun id hid => ?_
    obtain ⟨d, hd, rfl⟩ := mem_taskIds.1 hid
    exact hall d hd

/-- The operation commits a submission of this task: at once, or by a plan that
was made for it. -/
def Op.Commits (task : TaskDesc) : Op ν → Prop
  | .submitTask t _ => t = task
  | .submitEnd plan _ => plan.task = task ∧ plan.Consistent
  | _ => False

/-- The plan that the operation commits, and the state in which its second section finds
the scheduler. -/
def Op.commitsPlan (P : ∀ n, PluginDesc (σ n)) (E : Env) (s : Sched σ) :
    Op ν → Option (SubmitPlan × Sched σ)
  | .submitTask task _ =>
    (submitPrepare P E s task .start).plan.map fun plan =>
      (plan, (submitPrepare P E s task .start).sched)
  | .submitEnd plan _ => some (plan, s)
  | _ => none

/-- What enters a waiting parent is a split. -/
theorem Committed.split {config : SplitConfig} {L L' : Ledger} {parent : TaskDesc}
    {planned : Option SplitConfig} {entered : List TaskDesc}
    (h : Committed config L parent planned L' entered)
    (hwaiting : stateOf L'.tasks parent.taskId = some .waiting) :
    ∃ split children, planned = some split ∧
      Committed config L parent (some split) L' (parent :: children) := by
  cases h with
  | whole cost seq fits allowed =>
    simp [Event.apply, Ledger.accept, stateOf] at hwaiting
  | sliced planned children seq fits allowed =>
    exact ⟨planned, children, rfl, .sliced planned children seq fits allowed⟩

/-- The commit of a split, by the state it gives the parent. -/
theorem step_split [DecidableEq ν] {P : ∀ n, PluginDesc (σ n)} {s : Sched σ} {E : Env} {op : Op ν}
    {parent : TaskDesc} (hok : s.tasks.Ok) (hop : op.Commits parent)
    (hrc : (step P s E op).rc = .ok)
    (hsplit : stateOf (step P s E op).sched.tasks parent.taskId = some .waiting) :
    ∃ plan found planned children, op.commitsPlan P E s = some (plan, found) ∧
      plan.planned = some planned ∧
      Committed (configInForce P found) s.ledger parent (some planned)
        (step P s E op).sched.ledger (parent :: children) := by
  cases op with
  | submitTask task answers =>
    obtain rfl : task = parent := hop
    rcases submitTask_committed hok hrc with ⟨-, entered, h⟩ | ⟨plan, hplan, entered, h⟩
    · obtain ⟨split, -, hnone, -⟩ := h.split hsplit
      simp at hnone
    · obtain ⟨planned, children, hplanned, h⟩ := h.split hsplit
      exact ⟨plan, _, planned, children, by rw [Op.commitsPlan, hplan, Option.map_some], hplanned, h⟩
  | submitEnd plan answers =>
    obtain ⟨rfl, hplan⟩ := hop
    obtain ⟨entered, -, h⟩ := submitFinish_committed hok hplan hrc
    obtain ⟨planned, children, hplanned, h⟩ := h.split hsplit
    exact ⟨plan, s, planned, children, rfl, hplanned, h⟩
  | _ => exact hop.elim

/-- **The slices handed out partition the request.**  For every accepted split and
every run after it, with any plugins: its plan meets the configuration in force at its
second section, and the assignments returned for its slices name the parent and the
number of slices, have distinct indexes below it, and stand for shots within the limit of
the plan that add up to at most the request, and to all of it once every slice was handed
out. -/
theorem slices_partition [DecidableEq ν] (P : ∀ n, PluginDesc (σ n)) (metadata : KvArray)
    (is js : List (Env × Op ν)) (E : Env) (op : Op ν) (parent : TaskDesc)
    (hop : op.Commits parent) :
    let s := Foundations.run (nextState P) (schedCreate (qpuCreate metadata)) is
    let s' := (step P s E op).sched
    (step P s E op).rc = .ok → stateOf s'.tasks parent.taskId = some .waiting →
    ∃ plan found planned children,
      op.commitsPlan P E s = some (plan, found) ∧ plan.planned = some planned ∧
      Committed (configInForce P found) s.ledger parent (some planned) s'.ledger
        (parent :: children) ∧
      HandedOut parent planned.sliceShots.toNat children
        (Foundations.run (nextState P) s' js).tasks
        ((assignments P s' js).filter fun a => a.taskId ∈ taskIds children) := by
  intro s s' hrc hsplit
  have hinit : Proper (schedCreate (qpuCreate metadata) : Sched σ) := by
    refine ⟨TaskTable.ok_empty, fun id state h => ?_⟩
    simp [stateOf, taskTableFind, schedCreate, TaskTable.empty] at h
  have hs : Proper s :=
    Foundations.run_invariant (motive := Proper) (fun _ i h => h.next i) hinit is
  obtain ⟨plan, found, planned, children, hplan, hplanned, hcommit⟩ :=
    step_split hs.1 hop hrc hsplit
  refine ⟨plan, found, planned, children, hplan, hplanned, hcommit, ?_⟩
  have hs' : Proper s' := hs.next (E, op)
  generalize hled : s'.ledger = L at hcommit
  cases hcommit with
  | sliced planned children seq fits allowed =>
    refine slices_handedOut hs' fits.valid ?_ hled js
    rw [← fits.valid.total, fits.total]

/-- The fifo plugin, loaded and active, and a callback that splits. -/
def fifoRun : List (Env × Op Unit) :=
  [(.still 0, .loadPlugin () true), (.still 0, .setPolicy () (some [])),
    (.still 0, .setCallbacks { splitTask := true })]

/-- Twenty shots in two slices, both handed out. -/
theorem slices_partition_fifoRun :
    let P := fun _ : Unit => fifoPlugin Foundations.binaryHeap
    let s := Foundations.run (nextState P) (schedCreate (qpuCreate tenShots)) fifoRun
    let parent : TaskDesc := { taskId := 1, metadata := some [⟨metaShots, .u64 20⟩] }
    let s' := (step P s (.still 0) (.submitTask parent twoSlices)).sched
    let js : List (Env × Op Unit) := [(.still 0, .selectNext), (.still 0, .selectNext)]
    ((assignments P s' js).map Assignment.taskId = [2, 3]) ∧
    ∃ plan found planned children,
      (Op.submitTask parent twoSlices).commitsPlan P (.still 0) s = some (plan, found) ∧
      plan.planned = some planned ∧
      Committed (configInForce P found) s.ledger parent (some planned) s'.ledger
        (parent :: children) ∧
      HandedOut parent planned.sliceShots.toNat children
        (Foundations.run (nextState P) s' js).tasks
        ((assignments P s' js).filter fun a => a.taskId ∈ taskIds children) := by
  intro P s parent s' js
  refine ⟨by decide +kernel, ?_⟩
  exact slices_partition P tenShots fifoRun js (.still 0) (.submitTask parent twoSlices) parent rfl
    (by decide +kernel) (by decide +kernel)

end QhwScheduler
