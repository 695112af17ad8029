import QhwScheduler.Core.Partition
import QhwScheduler.Foundations.Drain
import QhwScheduler.Plugins.PolicyReset

/-!
# The order in which a policy drains

A worker selects tasks, starts and completes them. It gets the waiting tasks in the order
of the keys.

* `schedSelectNext_hands` — the scheduler hands out what the hook names.
* `Op.ByWorker`, `worker_waiting` — what a worker calls, and that only a selection takes a
  task out.
* `standing` — how two waiting tasks compare by the keys of a policy.
* `drained_in_order` — what a policy with one queue hands out, after every run.
-/

namespace QhwScheduler

open Foundations DeadlineQueue
open Std (TransCmp)

/-! ## One selection -/

section Selection

variable {ν : Type} {σ : ν → Type} {P : ∀ n, PluginDesc (σ n)} {E : Env} {s : Sched σ} {n : ν}
  {state : σ n} {Good : UInt64 → Env → UInt64 → Prop} {R : ∀ n, UInt64 → σ n → List TaskDesc → Prop}
  {τ t : UInt64}

/-- The scheduler hands out the waiting task that the hook names, which then waits no more. -/
theorem schedSelectNext_hands (hP : ∀ n, PolicyInv (P n) Good (R n)) (hE : Good τ E t)
    (h : Agreed R τ s) (hpolicy : s.policy = some ⟨n, state⟩) (c : Cursor) :
    let r := schedSelectNext P E s c
    let hook := (P n).selectNext E state c
    r.sched.policy = some ⟨n, hook.state⟩ ∧
    ((hook.rc = .errNotFound ∧ waiting s.tasks = [] ∧ waiting r.sched.tasks = [] ∧
        r.assignment = none) ∨
      ∃ d ∈ waiting s.tasks, hook.rc = .ok ∧ hook.taskId = d.taskId ∧
        waiting r.sched.tasks = withoutTask d.taskId (waiting s.tasks) ∧
        r.assignment.map Assignment.taskId = some d.taskId) := by
  obtain ⟨hok, hholds⟩ := h
  rw [hpolicy] at hholds
  have hhook := (hP n).select (c := c) hE hholds
  dsimp only
  unfold schedSelectNext
  rw [hpolicy]
  dsimp only
  rcases hhook with ⟨hrc, hnil, -⟩ | ⟨d, hd, hrc, hid, -⟩
  · rw [if_pos (by rw [hrc]; simp)]
    exact ⟨rfl, Or.inl ⟨hrc, hnil, hnil, rfl⟩⟩
  · rw [if_neg (not_not.2 hrc), hid]
    obtain ⟨record, hr, hq, hdesc⟩ := hok.mem_waiting.1 hd
    rw [hr]
    dsimp only
    rw [if_neg (not_not.2 hq), setState_of_find hr]
    refine ⟨rfl, Or.inr ⟨d, hd, hrc, rfl, ?_, ?_⟩⟩
    · exact hok.waiting_leave d.taskId (by simp)
    · exact congrArg (fun d : TaskDesc => some d.taskId) hdesc

end Selection

/-! ## A worker -/

/-- A call that takes a task out of the line. -/
def Op.isSelect {ν : Type} : Op ν → Bool
  | .selectNext => true
  | _ => false

/-- A call that brings no task into the line, and takes none out but to hand it out. -/
def Op.ByWorker {ν : Type} : Op ν → Prop
  | .selectNext => True
  | .taskStarted _ => True
  | .taskCompleted _ => True
  | .setCallbacks _ => True
  | .loadPlugin _ _ => True
  | _ => False

section Worker

variable {ν : Type} {σ : ν → Type} {P : ∀ n, PluginDesc (σ n)} {E : Env} {s : Sched σ}
  {R : ∀ n, UInt64 → σ n → List TaskDesc → Prop} {t : UInt64}

/-- With a policy only an assigned task is started. -/
theorem taskStarted_waiting (h : Agreed R t s) (hpolicy : s.policy.isSome = true) (id : TaskId)
    (c : Cursor) : waiting (taskStarted P E s id c).sched.tasks = waiting s.tasks := by
  obtain ⟨hok, -⟩ := h
  unfold taskStarted
  split
  · rfl
  · next r hr =>
    split
    · rfl
    · next hstate =>
      have hnot : r.state ≠ .queued := by
        intro hq
        simp [hq, hpolicy] at hstate
      have hwaiting : waiting (s.tasks.update id { r with state := .running }) =
          waiting s.tasks := by
        rw [hok.waiting_leave id (by simp), hok.withoutTask_waiting hr hnot]
      dsimp only
      rw [setState_of_find hr]
      obtain ⟨⟨n, state⟩, hsome⟩ := Option.isSome_iff_exists.1 hpolicy
      rw [hsome]
      split
      · rfl
      · dsimp only
        split
        · rw [setState_of_find (by rw [find_update, if_pos rfl]), update_update, update_self hr]
        · exact hwaiting

/-- Only a running task is completed. -/
theorem taskCompleted_waiting (h : Agreed R t s) (id : TaskId) (c : Cursor) :
    waiting (finishTask P E s id .completed c).sched.tasks = waiting s.tasks := by
  obtain ⟨hok, -⟩ := h
  unfold finishTask
  split
  · rfl
  · next r hr =>
    split
    · rfl
    · split
      · rfl
      · split
        · rfl
        · next hrunning =>
          have hstate : r.state = .running := by simpa using hrunning
          have hwaiting : waiting (updateParentAfterChildLocked
              (s.tasks.update id { r with state := .completed }) r .completed) =
              waiting s.tasks := by
            rw [waiting_updateParent, hok.waiting_leave id (by simp),
              hok.withoutTask_waiting hr (by simp [hstate])]
          rw [setState_of_find hr]
          cases s.policy with
          | none => exact hwaiting
          | some policy => exact hwaiting

variable [DecidableEq ν]

/-- A call of a worker other than a selection leaves the line, -/
theorem worker_waiting (h : Agreed R t s) (hpolicy : s.policy.isSome = true) {op : Op ν}
    (hop : op.ByWorker) (hselect : op.isSelect = false) :
    waiting (step P s E op).sched.tasks = waiting s.tasks := by
  cases op with
  | setCallbacks callbacks => rfl
  | loadPlugin name valid =>
    show waiting (loadPlugin E s name valid .start).sched.tasks = waiting s.tasks
    unfold loadPlugin
    split <;> rfl
  | selectNext => simp [Op.isSelect] at hselect
  | taskStarted id => exact taskStarted_waiting h hpolicy id .start
  | taskCompleted id => exact taskCompleted_waiting h id .start
  | setPolicy name options => exact hop.elim
  | submitTask task answers => exact hop.elim
  | submitBegin task => exact hop.elim
  | submitEnd plan answers => exact hop.elim
  | taskUpdatePriority id priority => exact hop.elim
  | taskFailed id => exact hop.elim
  | taskCancelled id => exact hop.elim

/-- and hands nothing out. -/
theorem assignment_of_waiting (hok : s.tasks.Ok) {op : Op ν} (hok' : (step P s E op).sched.tasks.Ok)
    (hwaiting : waiting (step P s E op).sched.tasks = waiting s.tasks) :
    (step P s E op).assignment = none := by
  by_contra hsome
  obtain ⟨a, ha⟩ := Option.ne_none_iff_exists'.1 hsome
  obtain ⟨r, hr, hq, -, hstate⟩ := step_assignment hok ha
  have hin := hok.mem_taskIds_waiting.2 ⟨r, hr, hq⟩
  rw [← hwaiting] at hin
  obtain ⟨r', hr', hq'⟩ := hok'.mem_taskIds_waiting.1 hin
  rw [stateOf, hr', Option.map_some, hq'] at hstate
  simp at hstate

/-- The id that a call hands out. -/
def taskHandedOut (P : ∀ n, PluginDesc (σ n)) (s : Sched σ) (i : Env × Op ν) : Option TaskId :=
  (step P s i.1 i.2).assignment.map Assignment.taskId

theorem assignments_taskIds (s : Sched σ) (is : List (Env × Op ν)) :
    (assignments P s is).map Assignment.taskId =
      (outputs (nextState P) (taskHandedOut P) s is).reduceOption := by
  induction is generalizing s with
  | nil => rfl
  | cons i is ih =>
    rw [assignments, List.map_append, ih, outputs, taskHandedOut]
    cases (step P s i.1 i.2).assignment with
    | none => rfl
    | some a => rfl

end Worker

/-! ## Standing -/

section Standing

variable {order : OrderConfig} {u : UInt64} {l l₀ : List TaskDesc} {a a' b b' : Candidate}
  {d e : TaskDesc}

/-- Two pairs of candidates compare alike when their tasks are the same and their numbers
and turns compare alike. -/
theorem Candidate.compare_congr (ha : a.task = a'.task) (hb : b.task = b'.task)
    (hnumber : compareAsc a.number b.number = compareAsc a'.number b'.number)
    (hturn : compareAsc a.turn b.turn = compareAsc a'.turn b'.turn) :
    Candidate.compare order u a b = Candidate.compare order u a' b' := by
  have hkey : ∀ key : OrderKey, key.compareCandidates order.deadline.boost u a b =
      key.compareCandidates order.deadline.boost u a' b' := by
    intro key
    cases key with
    | priority => simp only [OrderKey.compareCandidates, ha, hb]
    | sjf => simp only [OrderKey.compareCandidates, ha, hb]
    | ljf => simp only [OrderKey.compareCandidates, ha, hb]
    | roundRobin => exact hturn
    | fifo => exact hnumber
  unfold Candidate.compare
  induction order.keys with
  | nil =>
    rw [List.map_nil, List.nil_append, lexCompare_cons, lexCompare_cons, ha, hb]
    rfl
  | cons key rest ih =>
    rw [List.map_cons, List.cons_append, lexCompare_cons, lexCompare_cons, hkey, ih]

/-- A task as a selection sees it that has only this line. -/
def inLine (l : List TaskDesc) (d : TaskDesc) : Candidate := ⟨d, l.idxOf d, 0⟩

/-- How two tasks of a line compare by the keys, the task id last. -/
def standing (order : OrderConfig) (u : UInt64) (l : List TaskDesc) (d e : TaskDesc) : Ordering :=
  Candidate.compare order u (inLine l d) (inLine l e)

instance standing_transCmp (order : OrderConfig) (u : UInt64) (l : List TaskDesc) :
    TransCmp (standing order u l) :=
  transCmp_comap (Candidate.compare order u) (inLine l)

/-- The task ids decide at the end. -/
theorem taskId_eq_of_standing (h : standing order u l d e = .eq) : d.taskId = e.taskId := by
  have hids : compareAsc d.taskId e.taskId = .eq :=
    (lexCompare_eq_iff _ _ _).1 h _ (List.mem_append_right _ (List.mem_singleton_self _))
  by_contra hne
  simp only [compareAsc, if_neg hne] at hids
  split at hids <;> simp at hids

/-- Some tasks of a line compare as they did at another time. -/
def Unmoved (order : OrderConfig) (t : UInt64) (l : List TaskDesc) (u : UInt64) : Prop :=
  ∀ d ∈ l, ∀ e ∈ l, standing order (clockValue order.deadline u) l d e =
    standing order (clockValue order.deadline t) l d e

instance (order : OrderConfig) (t : UInt64) (l : List TaskDesc) (u : UInt64) :
    Decidable (Unmoved order t l u) :=
  inferInstanceAs (Decidable (∀ d ∈ l, ∀ e ∈ l, _ = _))

/-- Positions grow along a list without repetitions. -/
theorem idxOf_growing (hnd : l₀.Nodup) : l₀.Pairwise fun d e => l₀.idxOf d < l₀.idxOf e := by
  rw [List.pairwise_iff_getElem]
  intro i j hi hj hij
  rwa [hnd.idxOf_getElem i hi, hnd.idxOf_getElem j hj]

/-- The candidates of a line that got shorter stand as they stood at first. -/
theorem compare_candidates_standing (hnd : l₀.Nodup) (hsub : l.Sublist l₀)
    (ha : a ∈ (ReferenceReady.queue l).candidates) (hb : b ∈ (ReferenceReady.queue l).candidates) :
    Candidate.compare order u a b = standing order u l₀ a.task b.task := by
  obtain ⟨hi, hturn⟩ := mem_queue_candidates.1 ha
  obtain ⟨hj, hturn'⟩ := mem_queue_candidates.1 hb
  refine Candidate.compare_congr rfl rfl ?_ (by rw [hturn, hturn']; rfl)
  exact (compareAsc_positions ((idxOf_growing hnd).sublist hsub) hi hj).symm

/-- The first candidate stands before all tasks of the line. -/
theorem standing_first (hnd : l₀.Nodup) (hsub : l.Sublist l₀)
    (ha : leastBy (Candidate.compare order u) (ReferenceReady.queue l).candidates = some a)
    (he : e ∈ l) : (standing order u l₀ a.task e).isLE := by
  obtain ⟨j, hj⟩ := List.mem_iff_getElem?.1 he
  have hb : (⟨e, j, 0⟩ : Candidate) ∈ (ReferenceReady.queue l).candidates :=
    mem_queue_candidates.2 ⟨hj, rfl⟩
  rw [show standing order u l₀ a.task e = standing order u l₀ a.task (⟨e, j, 0⟩ : Candidate).task
    from rfl, ← compare_candidates_standing hnd hsub (leastBy_mem ha) hb]
  exact leastBy_le ha hb

/-- A task and what is left without it. -/
theorem perm_cons_withoutTask (hnd : (taskIds l).Nodup) (hd : d ∈ l) :
    l.Perm (d :: withoutTask d.taskId l) := by
  induction l with
  | nil => simp at hd
  | cons e l ih =>
    have hnd' := hnd
    rw [taskIds_cons, List.nodup_cons] at hnd'
    rcases List.mem_cons.1 hd with rfl | hin
    · rw [withoutTask_cons_self hnd]
    · have hne : e.taskId ≠ d.taskId := fun h => hnd'.1 (h ▸ mem_taskIds_of_mem hin)
      rw [withoutTask, List.filter_cons_of_pos (by simpa using hne)]
      exact ((ih hnd'.2 hin).cons e).trans (List.Perm.swap d e _)

end Standing

/-! ## Draining -/

section Drain

variable {H : HeapOps} {t t' : UInt64} {n : Builtin} {config : OrderConfig × SplitConfig}
  {l₀ : List TaskDesc}

/-- What a scheduler has to hand out: these tasks, which are left of a line. -/
structure ToDrain (n : Builtin) (config : OrderConfig × SplitConfig) (l₀ : List TaskDesc)
    (t : UInt64) (s : Sched BuiltinState) (l : List TaskDesc) : Prop where
  agreed : Agreed (BuiltinInv True) t s
  inForce : Installed (InForce n config) [] s
  waits : waiting s.tasks = l
  sublist : l.Sublist l₀

/-- A call of a worker at a time at which the tasks of the line compare as they did. -/
def Drain (order : OrderConfig) (t : UInt64) (l₀ : List TaskDesc) (τ : UInt64)
    (i : Env × Op Builtin) (u : UInt64) : Prop :=
  (Calm τ i.1 u ∧ Unmoved order t l₀ u) ∧ i.2.ByWorker

/-- **A policy with one queue** hands out the task that stands first. -/
theorem single_drains (hH : H.Lawful) (hkeys : .roundRobin ∉ config.1.keys)
    (hnd : (taskIds l₀).Nodup) :
    Drains (nextState (builtinPlugins H)) (taskHandedOut (builtinPlugins H)) TaskDesc.taskId
      (standing config.1 (clockValue config.1.deadline t) l₀) (fun i => i.2.isSelect)
      (Drain config.1 t l₀) (ToDrain n config l₀) where
  take := by
    rintro τ ⟨E, op⟩ u s l ⟨⟨⟨hle, hE⟩, hunmoved⟩, -⟩ hselect ⟨hagreed, hforce, rfl, hsub⟩
    obtain ⟨order, splitConfig⟩ := config
    obtain rfl : op = .selectNext := by cases op <;> simp_all [Op.isSelect]
    have hP := fun n => builtin_policyInv hH True n
    have hagreed : Agreed (BuiltinInv True) u s := hagreed.mono hP fun _ => hE.within hle
    have hwithin := fun _ : True => hE.within (UInt64.le_refl u)
    have hnext : Agreed (BuiltinInv True) u (nextState (builtinPlugins H) s (E, .selectNext)) :=
      step_agreed hP hwithin hagreed .selectNext
    have hstill : Installed (InForce n (order, splitConfig)) []
        (nextState (builtinPlugins H) s (E, .selectNext)) :=
      step_installed inForce_kept hforce trivial
    obtain ⟨⟨n', π⟩, hpolicy, hforce⟩ := hforce.policy
    have hholds := hagreed.holds
    rw [hpolicy] at hholds
    have hids : (taskIds (waiting s.tasks)).Nodup := (hP n').nodup hholds
    obtain ⟨-, hcase⟩ := schedSelectNext_hands hP hwithin hagreed hpolicy .start
    rcases hcase with ⟨-, hnil, hnil', hnone⟩ | ⟨d, hd, hrc, hid, hrest, hsome⟩
    · exact Or.inl ⟨hnil, congrArg (Option.map _) hnone, hnext, hstill, hnil', List.nil_sublist l₀⟩
    · refine Or.inr ⟨d, _, perm_cons_withoutTask hids hd, hsome, fun e he => ?_,
        hnext, hstill, hrest, withoutTask_sublist.trans hsub⟩
      -- the hook names the task that its reference names
      obtain ⟨hrc', hid', -⟩ := (builtin_follows hH u n').select .start .start hE
        (single_matches hholds hforce.2 hkeys)
      rw [hrc] at hrc'
      rw [hid] at hid'
      have hid' := hid' hrc
      dsimp only [referencePlugin] at hrc' hid'
      rw [deadlineNow_clockValue hE.clock] at hrc' hid'
      cases hfirst : leastBy (Candidate.compare order (clockValue order.deadline u))
          (ReferenceReady.queue (waiting s.tasks)).candidates with
      | none =>
        rw [ReferenceState.first, hfirst] at hrc'
        simp at hrc'
      | some a =>
        rw [ReferenceState.first, hfirst] at hid'
        have ha : a.task ∈ waiting s.tasks :=
          List.mem_of_getElem? (mem_queue_candidates.1 (leastBy_mem hfirst)).1
        obtain rfl : d = a.task := eq_of_taskId_eq hids hd ha hid'
        rw [← hunmoved _ (hsub.subset ha) _ (hsub.subset he)]
        exact standing_first hnd.of_map hsub hfirst he
  keep := by
    rintro τ ⟨E, op⟩ u s l ⟨⟨⟨hle, hE⟩, -⟩, hop⟩ hselect ⟨hagreed, hforce, rfl, hsub⟩
    have hP := fun n => builtin_policyInv hH True n
    obtain ⟨π, hpolicy, -⟩ := hforce.policy
    have hwaiting := worker_waiting (P := builtinPlugins H) (E := E) hagreed (by rw [hpolicy]; rfl)
      hop hselect
    have hnext : Agreed (BuiltinInv True) u (step (builtinPlugins H) s E op).sched :=
      step_agreed hP (fun _ => hE.within hle) hagreed op
    have hnone := assignment_of_waiting hagreed.ok hnext.ok hwaiting
    refine ⟨congrArg (Option.map _) hnone, hnext, step_installed inForce_kept hforce ?_, hwaiting,
      hsub⟩
    cases op <;> first | exact hop.elim | trivial

end Drain

/-- A run of a worker is timed. -/
theorem timed_drain {order : OrderConfig} {t τ u : UInt64} {l : List TaskDesc}
    {is : List (Env × Op Builtin)}
    (his : GoodRun (fun τ E u => Calm τ E u ∧ Unmoved order t l u) τ is u)
    (hworker : ∀ i ∈ is, i.2.ByWorker) : Timed (Drain order t l) τ is u := by
  induction is generalizing τ with
  | nil => exact his
  | cons i is ih =>
    obtain ⟨u', hgood, hrest⟩ := his
    exact ⟨u', ⟨hgood, hworker i List.mem_cons_self⟩,
      ih hrest fun j hj => hworker j (List.mem_cons_of_mem i hj)⟩

/-- **A policy with one queue drains in the order of its keys.** After every run, in which
allocations may fail and the clock may run, a worker selects tasks, starts and completes
them, as often and in any order. As long as no boost changes how two of the waiting tasks
compare, it gets them in the order of the keys, ties by the task id, until none is left. -/
theorem drained_in_order {H : HeapOps} (hH : H.Lawful) (metadata : KvArray)
    {before is : List (Env × Op Builtin)} {t t' t'' : UInt64}
    (hbefore : GoodRun Within 0 before t) (hle : t ≤ t') :
    let s := builtinRun H metadata before
    let l := waiting s.tasks
    ∀ π, s.policy = some π → .roundRobin ∉ (settings π).1.keys →
      GoodRun (fun τ E u => Calm τ E u ∧ Unmoved (settings π).1 t' l u) t' is t'' →
      (∀ i ∈ is, i.2.ByWorker) →
      (assignments (builtinPlugins H) s is).map Assignment.taskId =
        (taskIds (sortBy (standing (settings π).1 (clockValue (settings π).1.deadline t') l) l)).take
          (is.countP fun i => i.2.isSelect) := by
  intro s l π hpolicy hkeys his hworker
  have hP := fun n => builtin_policyInv hH True n
  have hagreed : Agreed (BuiltinInv True) t' s := by
    have hstill : Within t (.still t') t' := ⟨fun _ => hle, fun _ => UInt64.le_refl t'⟩
    exact (builtinRun_fresh hH metadata hbefore).mono hP fun _ => hstill
  have hnd : (taskIds l).Nodup := by
    have hholds := hagreed.holds
    rw [hpolicy] at hholds
    exact (hP π.1).nodup hholds
  have hforce : Installed (InForce π.1 (settings π)) [] s :=
    ⟨⟨π, hpolicy, rfl, rfl⟩, List.nil_subset _⟩
  rw [assignments_taskIds, taskIds, ← List.map_take]
  exact outputs_drain (single_drains hH hkeys hnd) (timed_drain his hworker)
    ⟨hagreed, hforce, rfl, List.Sublist.refl l⟩ fun d hd e he heq =>
      eq_of_taskId_eq hnd hd he (taskId_eq_of_standing heq)

/-- Four tasks wait for the ordered policy, by priority and then the shorter one. -/
def lineOfFour : List (Env × Op Builtin) :=
  [(.still 0, .loadPlugin .ordered true),
    (.still 0, .setPolicy .ordered (some [⟨optOrderKey, .u64 1⟩, ⟨optOrderKey, .u64 2⟩,
      ⟨optDeadlineBoostEnable, .u64 1⟩])),
    (.still 0, .submitTask { taskId := 1, priority := 5, estimatedRuntimeNs := 80 } {}),
    (.still 0, .submitTask { taskId := 2, deadlineNs := 210, estimatedRuntimeNs := 100 } {}),
    (.still 0, .submitTask { taskId := 3, priority := 5, estimatedRuntimeNs := 70 } {}),
    (.still 0, .submitTask { taskId := 4, priority := 9, estimatedRuntimeNs := 70 } {})]

/-- A worker comes when the second task has become urgent. -/
def lateWorker : List (Env × Op Builtin) :=
  [(.still 120, .selectNext), (.still 120, .taskStarted 2), (.still 130, .selectNext),
    (.still 140, .taskCompleted 2), (.still 140, .taskStarted 4), (.still 150, .selectNext)]

/-- It gets the urgent task, the most important one, and the shorter one of the others. -/
theorem drained_in_order_lateWorker :
    (assignments (builtinPlugins binaryHeap) (builtinRun binaryHeap (some []) lineOfFour)
      lateWorker).map Assignment.taskId = [2, 4, 3] := by
  have hstill : ∀ i ∈ lineOfFour, i.1 = Env.still 0 := by simp [lineOfFour]
  have hbefore : GoodRun Within 0 lineOfFour 0 := goodRun_of_forall fun i hi => by
    rw [hstill i hi]
    exact ⟨fun _ => UInt64.le_refl 0, fun _ => UInt64.le_refl 0⟩
  have hsome : (builtinRun binaryHeap (some []) lineOfFour).policy.isSome = true := by decide +kernel
  obtain ⟨π, hπ⟩ := Option.isSome_iff_exists.1 hsome
  have horder : (settings π).1 = (builtinRun binaryHeap (some []) lineOfFour).policy.elim fifoOrder
      fun π => (settings π).1 := by
    rw [hπ]
    rfl
  have hkeys : .roundRobin ∉ (settings π).1.keys := by
    rw [horder]
    decide +kernel
  have hrun : GoodRun (fun τ E u => Calm τ E u ∧ Unmoved (settings π).1 120
      (waiting (builtinRun binaryHeap (some []) lineOfFour).tasks) u) 120 lateWorker 150 := by
    rw [horder]
    exact ⟨120, ⟨calm_still (by decide) (by decide), by decide +kernel⟩,
      120, ⟨calm_still (by decide) (by decide), by decide +kernel⟩,
      130, ⟨calm_still (by decide) (by decide), by decide +kernel⟩,
      140, ⟨calm_still (by decide) (by decide), by decide +kernel⟩,
      140, ⟨calm_still (by decide) (by decide), by decide +kernel⟩,
      150, ⟨calm_still (by decide) (by decide), by decide +kernel⟩, rfl⟩
  have hworker : ∀ i ∈ lateWorker, i.2.ByWorker := by simp [lateWorker, Op.ByWorker]
  have hlater : (0 : UInt64) ≤ 120 := by decide
  rw [drained_in_order binaryHeap_lawful (some []) hbefore hlater π hπ hkeys hrun hworker,
    horder]
  decide +kernel

end QhwScheduler
