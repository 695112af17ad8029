import QhwScheduler.Plugins.Instants

/-!
# Ties and the order of insertion

The documentation lets tied tasks go in the order in which they entered the policy.  The
ordered plugin lets them go by what its comparison says next.

* `OrderedState.compareBy`, `OrderedState.compareRest` — the comparison of a selection, up
  to a key and from there on.
* `HandsOutOldest` — a selection passes no tied task over that was inserted earlier;
  `handsOutOldest_iff` — when it does.
* `tie_break` — keys without fifo and round_robin: when ids follow the insertions.
* `fifo_age` — keys with fifo before round_robin: when the numbers of the groups do.
-/

namespace QhwScheduler

open Foundations DeadlineQueue
open Std (TransCmp)

/-! ## What a selection compares -/

/-- The ticket of a group; one heap of tasks has none. -/
def OrderedState.ticket (s : OrderedState) (key : GroupKey) : ℕ :=
  match s.ready with
  | .flat _ => 0
  | .grouped queue => queue.ready.ticket key

section Compare

variable (s : OrderedState) (j : Judgement)

/-- A waiting task as a selection sees it, with the ticket of its group. -/
def OrderedState.standing (d : TaskDesc) : Ticketed :=
  ⟨j.mem d.taskId, s.ticket (groupKeyFromTask d)⟩

/-- The comparison of two waiting tasks by these keys in turn. -/
def OrderedState.compareBy (keys : List OrderKey) (d e : TaskDesc) : Ordering :=
  lexCompare (keys.map OrderKey.compare) (s.standing j d) (s.standing j e)

/-- The comparison by these keys and then by the ids. -/
def OrderedState.compareRest (keys : List OrderKey) (d e : TaskDesc) : Ordering :=
  orderCompareLoop keys (s.standing j d) (s.standing j e)

instance (keys : List OrderKey) : TransCmp (s.compareBy j keys) := by
  have : TransCmp (lexCompare (keys.map OrderKey.compare)) := by
    refine lexCompare_transCmp _ fun c hc => ?_
    obtain ⟨key, -, rfl⟩ := List.mem_map.1 hc
    infer_instance
  exact transCmp_comap (lexCompare (keys.map OrderKey.compare)) (s.standing j)

instance (keys : List OrderKey) : TransCmp (s.compareRest j keys) :=
  transCmp_comap (orderCompareLoop keys) (s.standing j)

theorem compareRest_append (keys rest : List OrderKey) (d e : TaskDesc) :
    s.compareRest j (keys ++ rest) d e = (s.compareBy j keys d e).then (s.compareRest j rest d e) := by
  unfold OrderedState.compareRest OrderedState.compareBy
  rw [orderCompareLoop_eq_lex, orderCompareLoop_eq_lex, List.map_append, List.append_assoc,
    lexCompare_append]

end Compare

/-! ## The task that is handed out -/

/-- The selection hands out no task that ties by these keys with one that was inserted
before it. -/
def HandsOutOldest (H : HeapOps) (s : Sched BuiltinState) (E : Env) (π : OrderedState)
    (keys : List OrderKey) : Prop :=
  ∀ j, judgement H E ⟨.ordered, π⟩ = some j →
    ∀ a, (schedSelectNext (builtinPlugins H) E s .start).assignment = some a →
      ∀ d e, d.taskId = a.taskId → [e, d].Sublist (waiting s.tasks) →
        π.compareBy j keys e d ≠ .eq

section Select

variable {H : HeapOps} {E : Env} {π : OrderedState} {l : List TaskDesc} {j : Judgement}
  {s : Sched BuiltinState} {keys rest : List OrderKey}

/-- The plugin names the task that comes first by all keys and the ids. -/
theorem orderedSelectNext_least (hH : H.Lawful) (hπ : OrderedInv False 0 π l)
    (hj : judgement H E ⟨.ordered, π⟩ = some j) :
    (∀ e ∈ l, (j.mem e.taskId).desc.taskId = e.taskId) ∧
      (l = [] ∨ ∃ d ∈ l, (orderedSelectNext H E π .start).taskId = d.taskId ∧
        ∀ e ∈ l, (π.compareRest j π.order.keys d e).isLE) := by
  obtain ⟨order, splitConfig, ready⟩ := π
  obtain ⟨hready, -⟩ := hπ
  have hE : False → Within 0 E 0 := False.elim
  cases hready with
  | @flat queue _ hkeys ok =>
    obtain rfl := Option.some.inj hj
    obtain ⟨-, htracked, -, -⟩ := refreshExpired_spec hH E order.deadline .start
      (flat_touches (orderConfigUsesCost order) l hH (orderCompare_reads order)) ok.tracked ok.ready
    refine ⟨fun e he => htracked.taskId_eq _ (mem_taskIds_of_mem he), ?_⟩
    rcases flatSelect_spec hH (orderCompare_reads order) hE ok .start
      with ⟨-, hnil, -⟩ | ⟨d, hd, -, hid, -, hleast⟩
    · exact Or.inl hnil
    · exact Or.inr ⟨d, hd, hid, hleast⟩
  | @grouped queue _ ring hkeys ok =>
    obtain rfl := Option.some.inj hj
    have hto := ordered_touches_tickets hH order (orderConfigUsesCost order) l ring queue.ready.ticket
    obtain ⟨-, htracked, ⟨-, htickets⟩, -⟩ := refreshExpired_spec hH E order.deadline .start hto
      ok.tracked ⟨ok.groups, fun _ => rfl⟩
    refine ⟨fun e he => htracked.taskId_eq _ (mem_taskIds_of_mem he), ?_⟩
    rcases orderedSelectGroups_spec hH hE ok .start
      with ⟨-, hnil, -⟩ | ⟨d, hd, -, hid, -, hleast⟩
    · exact Or.inl hnil
    · refine Or.inr ⟨d, hd, hid, fun e he => ?_⟩
      have hle := hleast e he
      rw [htickets, htickets] at hle
      exact hle

/-- **When a selection hands out the oldest of the tied tasks**: when the rest of the
comparison puts the one that was inserted first before all others. -/
theorem handsOutOldest_iff (hH : H.Lawful) (h : Agreed (BuiltinInv False) 0 s)
    (hpolicy : s.policy = some ⟨.ordered, π⟩) (hkeys : π.order.keys = keys ++ rest) :
    HandsOutOldest H s E π keys ↔ ∀ j, judgement H E ⟨.ordered, π⟩ = some j →
      ∀ d others, firsts (π.compareBy j keys) (waiting s.tasks) = d :: others →
        ∀ e ∈ others, (π.compareRest j rest d e).isLE := by
  have hinv : OrderedInv False 0 π (waiting s.tasks) := by
    have hholds := h.holds
    rw [hpolicy] at hholds
    exact hholds
  have hids : (taskIds (waiting s.tasks)).Nodup := (ordered_policyInv hH False).nodup hinv
  have hnd : (waiting s.tasks).Nodup := hids.of_map _
  obtain ⟨-, hserved⟩ := schedSelectNext_served (fun n => builtin_policyInv hH False n) (E := E)
    (t := 0) False.elim h hpolicy .start
  refine forall₂_congr fun j hj => ?_
  obtain ⟨hdesc, hleast⟩ := orderedSelectNext_least hH hinv hj
  rcases hserved with ⟨-, hnil, hnone⟩ | ⟨record, hrecord, hqueued, -, hsome⟩
  · rw [hnone, hnil]
    simp [firsts]
  · obtain ⟨d, hd, hid, hleast⟩ := hleast.resolve_left fun hnil => by
      have hmem := h.ok.mem_taskIds_waiting.2 ⟨record, hrecord, hqueued⟩
      rw [hnil] at hmem
      simp at hmem
    rw [show ((builtinPlugins H .ordered).selectNext E π .start).taskId = d.taskId from hid] at hrecord
    have ha : (fillAssignmentFromRecord record).taskId = d.taskId := h.ok.desc_id _ record hrecord
    have hdecides : ∀ x ∈ waiting s.tasks, ∀ y ∈ waiting s.tasks,
        π.compareRest j rest x y = .eq → x = y := by
      intro x hx y hy heq
      refine eq_of_taskId_eq hids hx hy ?_
      rw [← hdesc x hx, ← hdesc y hy]
      exact taskId_eq_of_orderCompareLoop heq
    rw [hkeys] at hleast
    have hiff : (∀ e, [e, d].Sublist (waiting s.tasks) → π.compareBy j keys e d ≠ .eq) ↔ _ :=
      untied_iff hnd hdecides hd fun e he => by rw [← compareRest_append]; exact hleast e he
    rw [← hiff, hsome]
    constructor
    · intro hold e he
      exact hold _ rfl d e ha.symm he
    · rintro hold a hassigned d' e hid' he
      obtain rfl := Option.some.inj hassigned
      have hd' : d' ∈ waiting s.tasks := he.subset (by simp)
      obtain rfl := eq_of_taskId_eq hids hd' hd (hid'.trans ha)
      exact hold e he

end Select

/-! ## Ties without fifo -/

section Runs

variable (H : HeapOps)

/-- A selection by keys without fifo and round_robin hands out the oldest of the tasks that
tie on all of them. -/
def TiesByAge (s : Sched BuiltinState) (i : Env × Op Builtin) : Prop :=
  i.2 = .selectNext → ∀ π, s.policy = some ⟨.ordered, π⟩ → OrderKey.fifo ∉ π.order.keys →
    OrderKey.roundRobin ∉ π.order.keys → HandsOutOldest H s i.1 π π.order.keys

/-- Of the tasks that come first by these keys, the one that was inserted first has the
smallest id. -/
def OldestHasSmallestId (s : Sched BuiltinState) (i : Env × Op Builtin) : Prop :=
  i.2 = .selectNext → ∀ π, s.policy = some ⟨.ordered, π⟩ → OrderKey.fifo ∉ π.order.keys →
    OrderKey.roundRobin ∉ π.order.keys → ∀ j, judgement H i.1 ⟨.ordered, π⟩ = some j →
      ∀ d others, firsts (π.compareBy j π.order.keys) (waiting s.tasks) = d :: others →
        ∀ e ∈ others, d.taskId ≤ e.taskId

end Runs

/-- An equivalence of two conditions on the steps that rests on the agreement of the policy
and the table. -/
theorem along_iff_of_agreed {H : HeapOps} (hH : H.Lawful) (metadata : KvArray)
    {ok ok' : Sched BuiltinState → Env × Op Builtin → Prop}
    (hiff : ∀ s i, Agreed (BuiltinInv False) 0 s → (ok s i ↔ ok' s i)) (is : List (Env × Op Builtin)) :
    Along (nextState (builtinPlugins H)) ok (schedCreate (qpuCreate metadata)) is ↔
      Along (nextState (builtinPlugins H)) ok' (schedCreate (qpuCreate metadata)) is := by
  refine along_iff_of_invariant hiff (fun s i h => ?_) (create_agreed _ _ _) is
  exact step_agreed (builtin_policyInv hH False) (t := 0) (E := i.1) False.elim h i.2

/-- **Ties go by id.**  In every run, the selections by keys without fifo and round_robin
hand out the oldest of the tied tasks if and only if at each of them the oldest of those
that come first has the smallest id. -/
theorem tie_break {H : HeapOps} (hH : H.Lawful) (metadata : KvArray) (is : List (Env × Op Builtin)) :
    let P := builtinPlugins H
    Along (nextState P) (TiesByAge H) (schedCreate (qpuCreate metadata)) is ↔
      Along (nextState P) (OldestHasSmallestId H) (schedCreate (qpuCreate metadata)) is := by
  intro P
  refine along_iff_of_agreed hH metadata (fun s i h => ?_) is
  refine forall_congr' fun _ => forall_congr' fun π => forall_congr' fun hpolicy => ?_
  refine forall_congr' fun _ => forall_congr' fun _ => ?_
  rw [handsOutOldest_iff hH h hpolicy (List.append_nil _).symm]
  have hinv : OrderedInv False 0 π (waiting s.tasks) := by
    have hholds := h.holds
    rw [hpolicy] at hholds
    exact hholds
  refine forall₂_congr fun j hj => forall₂_congr fun d others => forall_congr' fun hfirsts => ?_
  obtain ⟨hdesc, -⟩ := orderedSelectNext_least hH hinv hj
  have hmem : ∀ e ∈ d :: others, (j.mem e.taskId).desc.taskId = e.taskId := fun e he =>
    hdesc e (mem_firsts.1 (hfirsts ▸ he)).1
  refine forall₂_congr fun e he => ?_
  show (compareAsc (j.mem d.taskId).desc.taskId (j.mem e.taskId).desc.taskId).isLE ↔ _
  rw [hmem d List.mem_cons_self, hmem e (List.mem_cons_of_mem d he), compareAsc_u64, compareAsc_nat,
    Nat.isLE_compare, UInt64.le_iff_toNat_le]

/-- Two tasks of one priority, inserted against the order of their ids. -/
def idsDescend : List TaskDesc :=
  [{ taskId := 2, estimatedCost := 1 }, { taskId := 1, estimatedCost := 1 }]

/-- By priority alone the second of them is handed out. -/
theorem ties_by_id :
    let P := builtinPlugins binaryHeap
    let s := builtinRun binaryHeap (some []) (orderedRun [1] idsDescend)
    taskIds (waiting s.tasks) = [2, 1] ∧
      (schedSelectNext P (.still 0) s .start).assignment.map Assignment.taskId = some 1 ∧
      ¬ Along (nextState P) (TiesByAge binaryHeap) (schedCreate (qpuCreate (some [])))
        (orderedRun [1] idsDescend ++ [(.still 0, .selectNext)]) := by
  intro P s
  refine ⟨by decide +kernel, by decide +kernel, fun h => ?_⟩
  have hstep : TiesByAge binaryHeap s (.still 0, .selectNext) := (along_append.1 h).2.1
  obtain ⟨π, j, a, hpolicy, hfifo, hrr, hj, ha, hid, hbefore, htie⟩ : ∃ π j a,
      s.policy = some ⟨.ordered, π⟩ ∧ OrderKey.fifo ∉ π.order.keys ∧
      OrderKey.roundRobin ∉ π.order.keys ∧ judgement binaryHeap (.still 0) ⟨.ordered, π⟩ = some j ∧
      (schedSelectNext P (.still 0) s .start).assignment = some a ∧ a.taskId = 1 ∧
      idsDescend.Sublist (waiting s.tasks) ∧ ∀ d ∈ idsDescend, ∀ e ∈ idsDescend,
        π.compareBy j π.order.keys d e = .eq :=
    ⟨_, _, _, rfl, by decide +kernel, by decide +kernel, rfl, rfl, by decide +kernel,
      by decide +kernel, by decide +kernel⟩
  exact hstep rfl π hpolicy hfifo hrr j hj a ha _ _ hid.symm hbefore
    (htie _ List.mem_cons_self _ (List.mem_cons_of_mem _ List.mem_cons_self))

/-- Submitted in the order of the ids, the oldest is handed out. -/
theorem tie_break_idsAscend :
    Along (nextState (builtinPlugins binaryHeap)) (TiesByAge binaryHeap)
      (schedCreate (qpuCreate (some [])))
      (orderedRun [1] idsDescend.reverse ++ [(.still 0, .selectNext)]) := by
  refine (tie_break binaryHeap_lawful (some []) _).2 (along_append.2 ⟨?_, ?_, trivial⟩)
  · exact ⟨nofun, nofun, nofun, nofun, trivial⟩
  · intro _ π hpolicy _ _ j hj d others hfirsts e he
    obtain ⟨π', j', hpolicy', hj', hfirsts'⟩ : ∃ π' j',
        (builtinRun binaryHeap (some []) (orderedRun [1] idsDescend.reverse)).policy =
          some ⟨.ordered, π'⟩ ∧ judgement binaryHeap (.still 0) ⟨.ordered, π'⟩ = some j' ∧
        firsts (π'.compareBy j' π'.order.keys) (waiting (builtinRun binaryHeap (some [])
          (orderedRun [1] idsDescend.reverse)).tasks) = idsDescend.reverse :=
      ⟨_, _, rfl, rfl, by decide +kernel⟩
    obtain rfl := eq_of_heq (Sigma.mk.inj (Option.some.inj (hpolicy'.symm.trans hpolicy))).2
    obtain rfl := Option.some.inj (hj'.symm.trans hj)
    obtain ⟨rfl, rfl⟩ := List.cons.inj (hfirsts'.symm.trans hfirsts)
    rw [List.mem_singleton.1 he]
    decide

/-! ## Ages of groups -/

section Runs

variable (H : HeapOps)

/-- A selection by keys with fifo before round_robin hands out the oldest of the tasks that
tie on the keys before fifo, of whatever groups. -/
def AgesByInsertion (s : Sched BuiltinState) (i : Env × Op Builtin) : Prop :=
  i.2 = .selectNext → ∀ π, s.policy = some ⟨.ordered, π⟩ →
    [OrderKey.fifo, .roundRobin].Sublist π.order.keys →
      HandsOutOldest H s i.1 π (π.order.keys.takeWhile (· ≠ .fifo))

/-- Of the tasks that come first by the keys before fifo, the one that was inserted first
has the smallest number, which the queue of its group gave it; where numbers are equal,
what follows fifo puts it first. -/
def OldestHasSmallestNumber (s : Sched BuiltinState) (i : Env × Op Builtin) : Prop :=
  i.2 = .selectNext → ∀ π, s.policy = some ⟨.ordered, π⟩ →
    [OrderKey.fifo, .roundRobin].Sublist π.order.keys →
      ∀ j, judgement H i.1 ⟨.ordered, π⟩ = some j → ∀ d others,
        firsts (π.compareBy j (π.order.keys.takeWhile (· ≠ .fifo))) (waiting s.tasks) = d :: others →
          ∀ e ∈ others, (j.mem d.taskId).seq < (j.mem e.taskId).seq ∨
            (j.mem d.taskId).seq = (j.mem e.taskId).seq ∧
              (π.compareRest j (π.order.keys.dropWhile (· ≠ .fifo)).tail d e).isLE

end Runs

/-- From the first fifo key on. -/
theorem dropWhile_fifo {keys : List OrderKey} (hfifo : OrderKey.fifo ∈ keys) :
    keys.dropWhile (· ≠ .fifo) = .fifo :: (keys.dropWhile (· ≠ .fifo)).tail := by
  induction keys with
  | nil => simp at hfifo
  | cons key rest ih =>
    by_cases hkey : key = .fifo
    · rw [List.dropWhile_cons_of_neg (by simpa using hkey), hkey, List.tail_cons]
    · rw [List.dropWhile_cons_of_pos (by simpa using hkey)]
      exact ih ((List.mem_cons.1 hfifo).resolve_left (Ne.symm hkey))

theorem orderCompareLoop_fifo_isLE {rest : List OrderKey} {a b : Ticketed} :
    (orderCompareLoop (.fifo :: rest) a b).isLE ↔
      a.task.seq < b.task.seq ∨ a.task.seq = b.task.seq ∧ (orderCompareLoop rest a b).isLE := by
  have hcmp : OrderKey.fifo.compare a b = compare a.task.seq b.task.seq := compareAsc_nat _ _
  rw [orderCompareLoop, hcmp]
  rcases lt_trichotomy a.task.seq b.task.seq with hlt | heq | hgt
  · rw [Nat.compare_eq_lt.2 hlt]
    simp [hlt]
  · rw [Nat.compare_eq_eq.2 heq]
    simp [heq]
  · rw [Nat.compare_eq_gt.2 hgt]
    simp [hgt.ne', hgt.le]

/-- **The age of a task is that in its group.**  In every run, the selections by keys with
fifo before round_robin hand out the oldest of the tasks that tie on the keys before fifo
if and only if at each of them the oldest of those that come first has the smallest number
in its group, or follows first where the numbers are equal. -/
theorem fifo_age {H : HeapOps} (hH : H.Lawful) (metadata : KvArray) (is : List (Env × Op Builtin)) :
    let P := builtinPlugins H
    Along (nextState P) (AgesByInsertion H) (schedCreate (qpuCreate metadata)) is ↔
      Along (nextState P) (OldestHasSmallestNumber H) (schedCreate (qpuCreate metadata)) is := by
  intro P
  refine along_iff_of_agreed hH metadata (fun s i h => ?_) is
  refine forall_congr' fun _ => forall_congr' fun π => forall_congr' fun hpolicy => ?_
  refine forall_congr' fun hkeys => ?_
  rw [handsOutOldest_iff hH h hpolicy List.takeWhile_append_dropWhile.symm,
    dropWhile_fifo (hkeys.subset List.mem_cons_self)]
  refine forall₂_congr fun j _ => forall₂_congr fun d others => forall_congr' fun _ => ?_
  exact forall₂_congr fun e _ => orderCompareLoop_fifo_isLE

/-- Two tasks of a job, and then one of another. -/
def laterJob : List TaskDesc :=
  [{ taskId := 1, jobId := 1, estimatedCost := 1 }, { taskId := 2, jobId := 1, estimatedCost := 1 },
    { taskId := 3, jobId := 2, estimatedCost := 1 }]

/-- By fifo and round_robin, with the first task gone. -/
def laterJobRun : List (Env × Op Builtin) := orderedRun [4, 5] laterJob ++ [(.still 0, .selectNext)]

/-- The first selection hands out the oldest task, whose group has the first ticket. -/
theorem fifo_age_laterJob :
    Along (nextState (builtinPlugins binaryHeap)) (AgesByInsertion binaryHeap)
      (schedCreate (qpuCreate (some []))) laterJobRun := by
  refine (fifo_age binaryHeap_lawful (some []) _).2 (along_append.2 ⟨?_, ?_, trivial⟩)
  · exact ⟨nofun, nofun, nofun, nofun, nofun, trivial⟩
  · intro _ π hpolicy _ j hj d others hfirsts
    obtain ⟨π', j', hpolicy', hj', hfirsts', hnumbers⟩ : ∃ π' j',
        (builtinRun binaryHeap (some []) (orderedRun [4, 5] laterJob)).policy =
          some ⟨.ordered, π'⟩ ∧ judgement binaryHeap (.still 0) ⟨.ordered, π'⟩ = some j' ∧
        firsts (π'.compareBy j' (π'.order.keys.takeWhile (· ≠ .fifo))) (waiting (builtinRun
          binaryHeap (some []) (orderedRun [4, 5] laterJob)).tasks) = laterJob ∧
        ∀ e ∈ laterJob.tail, (j'.mem 1).seq < (j'.mem e.taskId).seq ∨
          (j'.mem 1).seq = (j'.mem e.taskId).seq ∧ (π'.compareRest j'
            (π'.order.keys.dropWhile (· ≠ .fifo)).tail (laterJob.headD default) e).isLE :=
      ⟨_, _, rfl, rfl, by decide +kernel, by decide +kernel⟩
    obtain rfl := eq_of_heq (Sigma.mk.inj (Option.some.inj (hpolicy'.symm.trans hpolicy))).2
    obtain rfl := Option.some.inj (hj'.symm.trans hj)
    obtain ⟨rfl, rfl⟩ := List.cons.inj (hfirsts'.symm.trans hfirsts)
    exact hnumbers

/-- The task of the other job is the first one in its group, and handed out before the
second task, which was inserted earlier. -/
theorem fifo_age_per_group :
    let P := builtinPlugins binaryHeap
    let s := builtinRun binaryHeap (some []) laterJobRun
    taskIds (waiting s.tasks) = [2, 3] ∧
      (schedSelectNext P (.still 0) s .start).assignment.map Assignment.taskId = some 3 ∧
      ¬ Along (nextState P) (AgesByInsertion binaryHeap) (schedCreate (qpuCreate (some [])))
        (laterJobRun ++ [(.still 0, .selectNext)]) := by
  intro P s
  refine ⟨by decide +kernel, by decide +kernel, fun h => ?_⟩
  have hstep : AgesByInsertion binaryHeap s (.still 0, .selectNext) := (along_append.1 h).2.1
  obtain ⟨π, j, a, hpolicy, hkeys, hj, ha, hid, hbefore, htie⟩ : ∃ π j a,
      s.policy = some ⟨.ordered, π⟩ ∧ [OrderKey.fifo, .roundRobin].Sublist π.order.keys ∧
      judgement binaryHeap (.still 0) ⟨.ordered, π⟩ = some j ∧
      (schedSelectNext P (.still 0) s .start).assignment = some a ∧ a.taskId = 3 ∧
      laterJob.tail.Sublist (waiting s.tasks) ∧ ∀ d ∈ laterJob, ∀ e ∈ laterJob,
        π.compareBy j (π.order.keys.takeWhile (· ≠ .fifo)) d e = .eq :=
    ⟨_, _, _, rfl, by decide +kernel, rfl, rfl, by decide +kernel, by decide +kernel,
      by decide +kernel⟩
  exact hstep rfl π hpolicy hkeys j hj a ha _ _ hid.symm hbefore (htie _ (by simp [laterJob]) _
    (by simp [laterJob]))

end QhwScheduler
