import QhwScheduler.Core.Plugin
import QhwScheduler.Policy.DeadlineRefresh

/-!
# Ready tasks with deadlines

The part that the priority policy and the ordered policy share: effective
priorities that are refreshed lazily, over any structure of ready tasks.

* `DeadlineQueue` — the items, the refresh queue and the ready structure;
  `Touch` — how the structure puts a task in its place after a refresh.
* `refreshTask`, `refreshExpired`, `priorityChanged` — the code.
* `Tracked`, `Touches` — the invariant, and what the structure has to promise.
* `refreshTask_spec`, `refreshExpired_spec` — they keep the invariant whatever the
  allocator answers, and afterwards no refresh is overdue.
* `Tracked.arrive`, `Tracked.leave` — tasks that come and go.
* `Fresh` — every effective priority is the one of a clock value that was read, and
  is scheduled to change at the right time; with a clock that does not run
  backwards all of the above keep this, even without memory.
* `refreshExpired_current` — with a steady clock every effective priority is then
  the one of the clock value; `refreshExpired_judged` — with a clock that moves
  during the call, the one of some reading of the call.
-/

namespace QhwScheduler

open Foundations

/-! ## The code -/

/-- Put a task whose item was refreshed in its place; the flag tells whether its
effective priority changed. -/
abbrev Touch (ρ : Type) := Memory → ρ → TaskId → Bool → Rc × ρ

/-- The items of the ready tasks, the refresh queue and the ready structure. -/
structure DeadlineQueue (ρ : Type) where
  mem : Memory
  refresh : Heap TaskId
  ready : ρ

/-- The queue of a policy that has just been set. -/
def freshQueue {ρ : Type} (refresh : Heap TaskId) (ready : ρ) : DeadlineQueue ρ :=
  ⟨emptyMemory, refresh, ready⟩

/-- The item with the outcome of a boost computation. -/
def ReadyTask.boost (t : ReadyTask) (r : BoostResult) : ReadyTask :=
  { t with effectivePriority := r.effectivePriority, nextRefreshNs := r.nextRefreshNs }

/-- The boost of an item at a clock value, as `qhw_order_refresh_task` asks for it. -/
def ReadyTask.boosted (t : ReadyTask) (config : BoostConfig) (nowNs : UInt64) : BoostResult :=
  deadlineBoostCompute config t.basePriority t.desc.deadlineNs t.desc.estimatedRuntimeNs nowNs

/-- The boost of a task at a clock value. -/
def TaskDesc.boosted (d : TaskDesc) (config : BoostConfig) (nowNs : UInt64) : BoostResult :=
  deadlineBoostCompute config d.priority d.deadlineNs d.estimatedRuntimeNs nowNs

theorem Mirrors.boosted {estimateCost : Bool} {item : ReadyTask} {d : TaskDesc}
    (h : Mirrors estimateCost item d) (config : BoostConfig)
    (u : UInt64) : item.boosted config u = d.boosted config u := by
  rw [ReadyTask.boosted, TaskDesc.boosted, h.basePriority, h.deadlineNs, h.estimatedRuntimeNs]

namespace DeadlineQueue

variable {ρ : Type}

section Code

variable (H : HeapOps) (E : Env) (settings : DeadlineSettings) (touch : Touch ρ)

/-- `priority_refresh_task`, `ordered_refresh_task`. -/
def refreshTask (q : DeadlineQueue ρ) (id : TaskId) (c : Cursor) : HookResult (DeadlineQueue ρ) :=
  let old := (q.mem id).effectivePriority
  let (mem, refresh) := deadlineRefreshRemove H q.mem q.refresh id
  let (nowNs, c) := deadlineNow settings E c
  let mem := Function.update mem id ((mem id).boost ((mem id).boosted settings.boost nowNs))
  let (rc, ready) := touch mem q.ready id (decide (old ≠ (mem id).effectivePriority))
  if rc ≠ .ok then ⟨rc, ⟨mem, refresh, ready⟩, c⟩
  else
    let r := deadlineRefreshInsert H E mem refresh id c
    ⟨r.rc, ⟨mem, r.heap, ready⟩, r.cursor⟩

/-- The loop of `priority_refresh_expired` and `ordered_refresh_expired`, with a
bound on its turns. -/
def refreshLoop (nowNs : UInt64) :
    ℕ → DeadlineQueue ρ → Cursor → HookResult (DeadlineQueue ρ)
  | 0, q, c => ⟨.ok, q, c⟩
  | fuel + 1, q, c =>
    match deadlineRefreshPopExpired H q.mem q.refresh nowNs with
    | none => ⟨.ok, q, c⟩
    | some (id, mem, refresh) =>
      let r := refreshTask H E settings touch ⟨mem, refresh, q.ready⟩ id c
      if r.rc ≠ .ok then r else refreshLoop nowNs fuel r.state r.cursor

/-- `priority_refresh_expired`, `ordered_refresh_expired`.  A task that was
refreshed is not due again, so no more turns happen than the queue has entries. -/
def refreshExpired (q : DeadlineQueue ρ) (c : Cursor) : HookResult (DeadlineQueue ρ) :=
  let (nowNs, c) := deadlineNow settings E c
  refreshLoop H E settings touch nowNs q.refresh.items.length q c

/-- Write the base priority of an item. -/
def setBasePriority (q : DeadlineQueue ρ) (id : TaskId) (priority : Int64) : DeadlineQueue ρ :=
  { q with mem := Function.update q.mem id { q.mem id with basePriority := priority } }

/-- `priority_on_task_priority_changed`, `ordered_on_task_priority_changed`. -/
def priorityChanged (find : ρ → TaskId → Bool) (q : DeadlineQueue ρ) (id : TaskId)
    (priority : Int64) (c : Cursor) : HookResult (DeadlineQueue ρ) :=
  if !find q.ready id then ⟨.errNotFound, q, c⟩
  else
    let old := (q.mem id).basePriority
    let r := refreshTask H E settings touch (q.setBasePriority id priority) id c
    if r.rc ≠ .ok then
      let b := refreshTask H E settings touch (r.state.setBasePriority id old) id r.cursor
      ⟨.errState, b.state, b.cursor⟩
    else ⟨.ok, r.state, r.cursor⟩

end Code

/-! ## The invariant -/

/-- The items mirror the tasks, and only tasks that are there wait for a refresh. -/
structure Tracked (estimateCost : Bool) (mem : Memory) (refresh : Heap TaskId)
    (l : List TaskDesc) : Prop where
  mirrored : Mirrored estimateCost mem l
  refresh : ∃ S, RefreshOk mem refresh S ∧ ∀ x ∈ S, x ∈ taskIds l

/-- The two items differ in the priorities and the refresh time only. -/
structure SameTask (t t' : ReadyTask) : Prop where
  desc : t'.desc = t.desc
  estimatedCost : t'.estimatedCost = t.estimatedCost
  seq : t'.seq = t.seq

/-- What refreshing relies on: an invariant `I` of the ready structure that
survives changes the order does not see, and is restored by `touch` after the
item of one task changed. -/
structure Touches (touch : Touch ρ) (I : Memory → ρ → Prop) (l : List TaskDesc) : Prop where
  frame : ∀ {mem mem' : Memory} {ready : ρ}, I mem ready →
    (∀ x ∈ taskIds l, SameOrder (mem x) (mem' x)) → I mem' ready
  touch : ∀ {mem mem' : Memory} {ready : ρ} {id : TaskId}, I mem ready → id ∈ taskIds l →
    (∀ x, x ≠ id → mem' x = mem x) → SameTask (mem id) (mem' id) →
    ∃ ready', touch mem' ready id
      (decide ((mem id).effectivePriority ≠ (mem' id).effectivePriority)) = (.ok, ready') ∧
      I mem' ready'

section Spec

variable {H : HeapOps} {E : Env} {settings : DeadlineSettings} {touch : Touch ρ}
  {estimateCost : Bool} {l : List TaskDesc} {q : DeadlineQueue ρ} {id : TaskId} {c : Cursor}
  {I I' : Memory → ρ → Prop} {mem mem' : Memory} {refresh : Heap TaskId} {nowNs : UInt64}

theorem Tracked.nodup (ht : Tracked estimateCost mem refresh l) : (taskIds l).Nodup :=
  ht.mirrored.nodup

/-- The refresh queue with its own entries as the set. -/
theorem Tracked.items (ht : Tracked estimateCost mem refresh l) :
    RefreshOk mem refresh {x | x ∈ refresh.items} ∧ ∀ x ∈ refresh.items, x ∈ taskIds l := by
  obtain ⟨S, hr, hS⟩ := ht.refresh
  have heq : S = {x | x ∈ refresh.items} := by
    ext x
    exact (hr.holds.mem x).symm
  exact ⟨heq ▸ hr, fun x hx => hS x ((hr.holds.mem x).1 hx)⟩

theorem Tracked.taskId_eq (ht : Tracked estimateCost mem refresh l) :
    ∀ x ∈ taskIds l, (mem x).desc.taskId = x := by
  intro x hx
  obtain ⟨d, hd, rfl⟩ := mem_taskIds.1 hx
  exact (ht.mirrored.mirrors d hd).taskId

theorem deadlineNow_mono {c c' : Cursor} (h : c.reads ≤ c'.reads) :
    (deadlineNow settings E c).1 ≤ (deadlineNow settings E c').1 := by
  unfold deadlineNow
  split
  · exact UInt64.le_refl _
  · exact E.clock_mono _ _ h

theorem deadlineNow_reads : c.reads ≤ (deadlineNow settings E c).2.reads := by
  unfold deadlineNow
  split
  · exact le_rfl
  · exact Nat.le_succ _

/-- The reading after the one that opens the refresh pass is not earlier. -/
theorem deadlineNow_le_next : (deadlineNow settings E c).1 ≤
    (deadlineNow settings E (deadlineNow settings E c).2).1 :=
  deadlineNow_mono deadlineNow_reads

/-- After its reading a refresh reads the clock no more. -/
theorem refreshTask_reads (H : HeapOps) (E : Env) (settings : DeadlineSettings) (touch : Touch ρ)
    (q : DeadlineQueue ρ) (id : TaskId) (c : Cursor) : (deadlineNow settings E c).2.reads ≤
    (refreshTask H E settings touch q id c).cursor.reads := by
  have hins : ∀ mem heap c, c.reads ≤ (deadlineRefreshInsert H E mem heap id c).cursor.reads := by
    intro mem heap c
    have hpush : ∀ heap : Heap TaskId,
        (heapPush H E (onMemory refreshCompare mem) heap id c).cursor.reads = c.reads := by
      intro heap
      unfold heapPush
      split
      · rfl
      · split <;> rfl
    unfold deadlineRefreshInsert
    dsimp only
    split
    · exact le_rfl
    · split <;> exact (hpush _).ge
  unfold refreshTask
  dsimp only
  split
  · exact le_rfl
  · exact hins _ _ _

/-- **A refresh**: the item gets the boost of the clock value, the structure is put
in order, and the task waits for its next refresh, unless memory is missing and
there was no room. -/
theorem refreshTask_spec (hH : H.Lawful) (E : Env) (settings : DeadlineSettings) (c : Cursor)
    (I' : Memory → ρ → Prop) (ht : Tracked estimateCost q.mem q.refresh l)
    (hid : id ∈ taskIds l)
    (htouch : ∀ mem' : Memory, (∀ x, x ≠ id → mem' x = q.mem x) → SameTask (q.mem id) (mem' id) →
      ∃ ready', touch mem' q.ready id
        (decide ((q.mem id).effectivePriority ≠ (mem' id).effectivePriority)) = (.ok, ready') ∧
        I' mem' ready') :
    let r := refreshTask H E settings touch q id c
    let b := (q.mem id).boosted settings.boost (deadlineNow settings E c).1
    (∀ x, x ≠ id → r.state.mem x = q.mem x) ∧ r.state.mem id = (q.mem id).boost b ∧
    Tracked estimateCost r.state.mem r.state.refresh l ∧ I' r.state.mem r.state.ready ∧
    ((r.rc = .ok ∧ ∀ x, x ∈ r.state.refresh.items ↔
        (x ∈ q.refresh.items ∧ x ≠ id) ∨ (x = id ∧ b.nextRefreshNs ≠ deadlineBoostNever)) ∨
      (r.rc ≠ .ok ∧ id ∉ q.refresh.items ∧ ¬ q.refresh.items.length < q.refresh.peak ∧
        (¬ ∀ n, E.alloc n = true) ∧ b.nextRefreshNs ≠ deadlineBoostNever ∧
        ∀ x, x ∈ r.state.refresh.items ↔ x ∈ q.refresh.items ∧ x ≠ id)) := by
  obtain ⟨hr, hsub⟩ := ht.items
  obtain ⟨hrem, hoff, hself, hroom⟩ := hr.remove hH id
  -- what the refresh removal leaves of the item does not matter: it is overwritten
  have habsent : id ∉ q.refresh.items →
      deadlineRefreshRemove H q.mem q.refresh id = (q.mem, q.refresh) := by
    intro hnot
    have hidx := hr.exact id hnot
    simp [deadlineRefreshRemove, hidx]
  dsimp only
  unfold refreshTask
  dsimp only
  generalize hrm : deadlineRefreshRemove H q.mem q.refresh id = rm at hrem hoff hself hroom habsent ⊢
  obtain ⟨mem₁, refresh₁⟩ := rm
  dsimp only at hrem hoff hself hroom ⊢
  generalize (deadlineNow settings E c).1 = u
  generalize (deadlineNow settings E c).2 = c'
  have hb : (mem₁ id).boost ((mem₁ id).boosted settings.boost u) =
      (q.mem id).boost ((q.mem id).boosted settings.boost u) := by
    rcases hself with h | h
    · rw [h]
    · rw [h]
      rfl
  rw [hb]
  set b := (q.mem id).boosted settings.boost u with hbdef
  generalize hmem' : Function.update mem₁ id ((q.mem id).boost b) = mem'
  have hmem : ∀ x, x ≠ id → mem' x = q.mem x := by
    intro x hx
    rw [← hmem', Function.update_of_ne hx, hoff x hx]
  have hitem : mem' id = (q.mem id).boost b := by rw [← hmem', Function.update_self]
  obtain ⟨ready', hready, hI⟩ := htouch mem' hmem (by rw [hitem]; exact ⟨rfl, rfl, rfl⟩)
  have hmirr : Mirrored estimateCost mem' l := by
    refine ht.mirrored.congr fun d hd hm => ?_
    by_cases hdid : d.taskId = id
    · rw [hdid] at hm ⊢
      rw [hitem]
      exact ⟨hm.taskId, hm.deadlineNs, hm.estimatedRuntimeNs, hm.basePriority, hm.estimatedCost⟩
    · rw [hmem _ hdid]
      exact hm
  have hrem' : RefreshOk mem' refresh₁ ({x | x ∈ q.refresh.items} \ {id}) := by
    refine hrem.congr fun x hx => ?_
    rw [hmem x hx.2, hoff x hx.2]
  have hsub' : ∀ x ∈ {x | x ∈ q.refresh.items} \ {id}, x ∈ taskIds l := fun x hx => hsub x hx.1
  have hins := hrem'.insert hH (show id ∉ {x | x ∈ q.refresh.items} \ {id} by simp) E c'
  rw [hready]
  simp only [ne_eq, not_true_eq_false, if_false]
  refine ⟨hmem, hitem, ⟨hmirr, ?_⟩, hI, ?_⟩
  · rcases hins with ⟨-, hok⟩ | ⟨-, hfail, -⟩
    · refine ⟨_, hok, ?_⟩
      rintro x (hx | ⟨rfl, -⟩)
      · exact hsub' x hx
      · exact hid
    · exact ⟨_, hfail, hsub'⟩
  · rcases hins with ⟨hrc, hok⟩ | ⟨hrc, hfail, hno, halloc, hnext⟩
    · refine Or.inl ⟨hrc, fun x => ?_⟩
      rw [hok.holds.mem, Set.mem_ofPred_eq, hitem]
      rfl
    · have hnot : id ∉ q.refresh.items := fun hin => hno (hroom hin)
      refine Or.inr ⟨by simp [hrc], hnot, ?_, halloc, ?_, fun x => ?_⟩
      · have heq := habsent hnot
        simp only [Prod.mk.injEq] at heq
        rw [← heq.2]
        exact hno
      · rw [hitem] at hnext
        exact hnext
      · rw [hfail.holds.mem]
        rfl

/-! ## The refresh loop -/

/-- One turn of the loop that found a due task. -/
theorem turn_spec (hH : H.Lawful) (E : Env) (settings : DeadlineSettings) (c : Cursor)
    (ht : Tracked estimateCost q.mem q.refresh l) (hto : Touches touch I l) (hI : I q.mem q.ready)
    (hp : deadlineRefreshPopExpired H q.mem q.refresh nowNs = some (id, mem, refresh)) :
    let r := refreshTask H E settings touch ⟨mem, refresh, q.ready⟩ id c
    let b := (q.mem id).boosted settings.boost (deadlineNow settings E c).1
    id ∈ q.refresh.items ∧ (q.mem id).nextRefreshNs ≤ nowNs ∧ r.rc = .ok ∧
    (∀ x, x ≠ id → r.state.mem x = q.mem x) ∧ r.state.mem id = (q.mem id).boost b ∧
    Tracked estimateCost r.state.mem r.state.refresh l ∧ I r.state.mem r.state.ready ∧
    ∀ x, x ∈ r.state.refresh.items ↔
      (x ∈ q.refresh.items ∧ x ≠ id) ∨ (x = id ∧ b.nextRefreshNs ≠ deadlineBoostNever) := by
  obtain ⟨hr, hsub⟩ := ht.items
  obtain ⟨hin, hdue, hpop, hmem, hself, hroom⟩ := hr.popExpired_some hH hp
  have hid := hsub id hin
  have hframe : ∀ x ∈ taskIds l, SameOrder (q.mem x) (mem x) := by
    intro x _
    by_cases hx : x = id
    · rw [hx, hself]
      exact ⟨rfl, rfl, rfl, rfl⟩
    · rw [hmem x hx]
      exact SameOrder.refl _
  have ht₁ : Tracked estimateCost mem refresh l := by
    refine ⟨ht.mirrored.congr fun d _ hm => ?_, _, hpop, fun x hx => hsub x hx.1⟩
    by_cases hx : d.taskId = id
    · rw [hx] at hm ⊢
      rw [hself]
      exact ⟨hm.taskId, hm.deadlineNs, hm.estimatedRuntimeNs, hm.basePriority, hm.estimatedCost⟩
    · rw [hmem _ hx]
      exact hm
  obtain ⟨hoff, hitem, htr, hIr, hrc⟩ := refreshTask_spec (q := ⟨mem, refresh, q.ready⟩) hH E settings c
    I ht₁ hid fun mem' hm hs => hto.touch (hto.frame hI hframe) hid hm hs
  have hb : (mem id).boosted settings.boost (deadlineNow settings E c).1 =
      (q.mem id).boosted settings.boost (deadlineNow settings E c).1 := by
    rw [hself]
    rfl
  dsimp only at hoff hitem htr hIr hrc ⊢
  rw [hb] at hitem hrc
  refine ⟨hin, hdue, ?_, ?_, ?_, htr, hIr, ?_⟩
  · rcases hrc with ⟨hrc, -⟩ | ⟨-, -, hno, -⟩
    · exact hrc
    · exact absurd hroom hno
  · exact fun x hx => (hoff x hx).trans (hmem x hx)
  · rw [hitem, hself]
    rfl
  · rcases hrc with ⟨-, hitems⟩ | ⟨-, -, hno, -⟩
    · intro x
      rw [hitems, hpop.holds.mem, Set.mem_sdiff, Set.mem_singleton_iff, Set.mem_ofPred_eq]
      tauto
    · exact absurd hroom hno

/-- The tasks that are due. -/
def due (nowNs : UInt64) (q : DeadlineQueue ρ) : Finset TaskId :=
  q.refresh.items.toFinset.filter fun x => (q.mem x).nextRefreshNs ≤ nowNs

/-- **A task that was refreshed is not due again**, and no other task falls due. -/
theorem turn_due (hH : H.Lawful) (E : Env) (settings : DeadlineSettings)
    (ht : Tracked estimateCost q.mem q.refresh l) (hto : Touches touch I l) (hI : I q.mem q.ready)
    (hnow : nowNs ≤ (deadlineNow settings E c).1)
    (hp : deadlineRefreshPopExpired H q.mem q.refresh nowNs = some (id, mem, refresh)) :
    id ∈ q.due nowNs ∧
      (refreshTask H E settings touch ⟨mem, refresh, q.ready⟩ id c).state.due nowNs ⊆
        (q.due nowNs).erase id := by
  obtain ⟨hin, hdue, -, hoff, hself, -, -, hitems⟩ := turn_spec hH E settings c ht hto hI hp
  refine ⟨?_, fun x hx => ?_⟩
  · rw [due, Finset.mem_filter, List.mem_toFinset]
    exact ⟨hin, hdue⟩
  · rw [due, Finset.mem_filter, List.mem_toFinset, hitems] at hx
    rw [Finset.mem_erase, due, Finset.mem_filter, List.mem_toFinset]
    obtain ⟨⟨hmem, hne⟩ | ⟨rfl, hnever⟩, hle⟩ := hx
    · rw [hoff x hne] at hle
      exact ⟨hne, hmem, hle⟩
    · -- the new refresh time lies after the reading of the refresh
      rw [hself] at hle
      rcases deadlineBoostCompute_next settings.boost (q.mem x).basePriority
        (q.mem x).desc.deadlineNs (q.mem x).desc.estimatedRuntimeNs
        (deadlineNow settings E c).1 with hn | hn
      · exact absurd hn hnever
      · exact absurd (UInt64.lt_of_lt_of_le hn (UInt64.le_trans hle hnow)) (UInt64.lt_irrefl _)

/-- Whatever each turn keeps holds after the loop, no turn fails, and with a turn
for every due task none is due afterwards. -/
theorem refreshLoop_spec (hH : H.Lawful) (E : Env) (settings : DeadlineSettings)
    (hto : Touches touch I l) {fuel : ℕ} (M : DeadlineQueue ρ → Cursor → Prop)
    (hM : ∀ q c id mem refresh, M q c → Tracked estimateCost q.mem q.refresh l → I q.mem q.ready →
      deadlineRefreshPopExpired H q.mem q.refresh nowNs = some (id, mem, refresh) →
      let r := refreshTask H E settings touch ⟨mem, refresh, q.ready⟩ id c
      M r.state r.cursor)
    (hq : M q c) (ht : Tracked estimateCost q.mem q.refresh l) (hI : I q.mem q.ready)
    (hnow : nowNs ≤ (deadlineNow settings E c).1) (hfuel : (q.due nowNs).card ≤ fuel) :
    let r := refreshLoop H E settings touch nowNs fuel q c
    r.rc = .ok ∧ M r.state r.cursor ∧ Tracked estimateCost r.state.mem r.state.refresh l ∧
      I r.state.mem r.state.ready ∧
      ∀ x ∈ r.state.refresh.items, nowNs < (r.state.mem x).nextRefreshNs := by
  induction fuel generalizing q c with
  | zero =>
    refine ⟨rfl, hq, ht, hI, ?_⟩
    intro x hx
    by_contra hle
    have hin : x ∈ q.due nowNs := by
      rw [due, Finset.mem_filter, List.mem_toFinset]
      exact ⟨hx, UInt64.not_lt.1 hle⟩
    rw [Finset.card_eq_zero.1 (Nat.le_zero.1 hfuel)] at hin
    simp at hin
  | succ fuel ih =>
    dsimp only
    rw [refreshLoop]
    split
    · next hnone => exact ⟨rfl, hq, ht, hI, ht.items.1.popExpired_none hnone⟩
    · next id mem refresh hsome =>
      obtain ⟨-, -, hrc, -, -, htr, hIr, -⟩ := turn_spec hH E settings c ht hto hI hsome
      have hMr := hM q c id mem refresh hq ht hI hsome
      rw [if_neg (by rw [hrc]; simp)]
      refine ih hMr htr hIr ?_ ?_
      · exact UInt64.le_trans hnow
          (deadlineNow_mono (le_trans deadlineNow_reads (refreshTask_reads _ _ _ _ _ _ _)))
      · obtain ⟨hin, hsub⟩ := turn_due hH E settings ht hto hI hnow hsome
        have hlt := Finset.card_erase_lt_of_mem hin
        have hle := Finset.card_le_card hsub
        omega

theorem due_card_le (q : DeadlineQueue ρ) (nowNs : UInt64) :
    (q.due nowNs).card ≤ q.refresh.items.length :=
  le_trans (Finset.card_filter_le _ _) (List.toFinset_card_le _)

/-- What a refresh leaves alone. -/
def Refreshed (mem mem' : Memory) : Prop :=
  ∀ x, (mem' x).desc = (mem x).desc ∧ (mem' x).basePriority = (mem x).basePriority ∧
    (mem' x).estimatedCost = (mem x).estimatedCost ∧ (mem' x).seq = (mem x).seq

/-- **The refresh pass** never fails, keeps the invariant, and leaves no refresh
overdue, for any allocator and any clock. -/
theorem refreshExpired_spec (hH : H.Lawful) (E : Env) (settings : DeadlineSettings) (c : Cursor)
    (hto : Touches touch I l)
    (ht : Tracked estimateCost q.mem q.refresh l) (hI : I q.mem q.ready) :
    let r := refreshExpired H E settings touch q c
    r.rc = .ok ∧ Tracked estimateCost r.state.mem r.state.refresh l ∧
      I r.state.mem r.state.ready ∧ Refreshed q.mem r.state.mem := by
  have hturn : ∀ (q' : DeadlineQueue ρ) (c' : Cursor) (id : TaskId) (mem : Memory)
      (refresh : Heap TaskId), Refreshed q.mem q'.mem →
      Tracked estimateCost q'.mem q'.refresh l → I q'.mem q'.ready →
      deadlineRefreshPopExpired H q'.mem q'.refresh (deadlineNow settings E c).1 =
        some (id, mem, refresh) →
      Refreshed q.mem
        (refreshTask H E settings touch ⟨mem, refresh, q'.ready⟩ id c').state.mem := by
    intro q' c' id mem refresh hM ht' hI' hp
    obtain ⟨-, -, -, hoff, hself, -⟩ := turn_spec hH E settings c' ht' hto hI' hp
    intro x
    by_cases hx : x = id
    · rw [hx, hself]
      exact hM id
    · rw [hoff x hx]
      exact hM x
  obtain ⟨hrc, hM, htr, hIr, -⟩ := refreshLoop_spec hH E settings hto
    (fun q' _ => Refreshed q.mem q'.mem) hturn (fun _ => ⟨rfl, rfl, rfl, rfl⟩) ht hI
    deadlineNow_le_next (due_card_le q _)
  exact ⟨hrc, htr, hIr, hM⟩

/-! ## Priority changes -/

theorem setBasePriority_off {priority : Int64} {x : TaskId} (hx : x ≠ id) :
    (q.setBasePriority id priority).mem x = q.mem x := Function.update_of_ne hx _ _

theorem setBasePriority_self {priority : Int64} :
    (q.setBasePriority id priority).mem id = { q.mem id with basePriority := priority } :=
  Function.update_self _ _ _

theorem setBasePriority_sameOrder (q : DeadlineQueue ρ) (id : TaskId) (priority : Int64) (x : TaskId) :
    SameOrder (q.mem x) ((q.setBasePriority id priority).mem x) := by
  by_cases hx : x = id
  · rw [hx, setBasePriority_self]
    exact ⟨rfl, rfl, rfl, rfl⟩
  · rw [setBasePriority_off hx]
    exact SameOrder.refl _

theorem Tracked.setBasePriority (ht : Tracked estimateCost q.mem q.refresh l) (id : TaskId)
    (priority : Int64) :
    Tracked estimateCost (q.setBasePriority id priority).mem
      (q.setBasePriority id priority).refresh (reprioritize id priority l) := by
  obtain ⟨S, hr, hS⟩ := ht.refresh
  refine ⟨ht.mirrored.reprioritize id priority (fun x hx => setBasePriority_off hx)
    setBasePriority_self, S, hr.congr_next ?_, ?_⟩
  · intro x _
    by_cases hx : x = id
    · rw [hx, setBasePriority_self]
      exact ⟨rfl, rfl, rfl⟩
    · rw [setBasePriority_off hx]
      exact ⟨rfl, rfl, rfl⟩
  · intro x hx
    rw [taskIds_reprioritize]
    exact hS x hx

/-- Changing a priority back restores the list. -/
theorem reprioritize_back {old priority : Int64} (hold : ∀ d ∈ l, d.taskId = id → d.priority = old) :
    reprioritize id old (reprioritize id priority l) = l := by
  rw [reprioritize, reprioritize, List.map_map, List.map_congr_left (g := fun d => d), List.map_id']
  intro d hd
  simp only [Function.comp_apply]
  by_cases hid : d.taskId = id
  · rw [if_pos hid, if_pos (by exact hid), TaskDesc.withPriority, ← hold d hd hid]
    rfl
  · rw [if_neg hid, if_neg hid]

theorem Touches.of_ids {l' : List TaskDesc} (hto : Touches touch I l)
    (hids : taskIds l' = taskIds l) : Touches touch I l' :=
  ⟨fun hI hm => hto.frame hI (hids ▸ hm), fun hI hid hm hs => hto.touch hI (hids ▸ hid) hm hs⟩

/-- **A priority change** takes effect, or everything is as before it. -/
theorem priorityChanged_spec (hH : H.Lawful) (E : Env) (settings : DeadlineSettings) (c : Cursor)
    (hto : Touches touch I l) (ht : Tracked estimateCost q.mem q.refresh l)
    (hI : I q.mem q.ready) (find : ρ → TaskId → Bool) (hfind : find q.ready id = true)
    (hid : id ∈ taskIds l) (priority : Int64) :
    let r := priorityChanged H E settings touch find q id priority c
    I r.state.mem r.state.ready ∧
    ((r.rc = .ok ∧ Tracked estimateCost r.state.mem r.state.refresh (reprioritize id priority l)) ∨
      (r.rc = .errState ∧ Tracked estimateCost r.state.mem r.state.refresh l ∧
        ¬ ∀ n, E.alloc n = true)) := by
  have hids : taskIds (reprioritize id priority l) = taskIds l := taskIds_reprioritize
  have hto' := hto.of_ids hids
  have ht' := ht.setBasePriority id priority
  have hI' := hto.frame hI fun x _ => setBasePriority_sameOrder q id priority x
  obtain ⟨hoff, hself, htr, hIr, hrc⟩ := refreshTask_spec hH E settings c I ht' (hids ▸ hid)
    fun mem' hm hs => hto'.touch hI' (hids ▸ hid) hm hs
  dsimp only
  unfold priorityChanged
  rw [hfind]
  simp only [Bool.not_true, Bool.false_eq_true, if_false]
  split
  · next hfail =>
    obtain ⟨-, -, -, halloc, -⟩ := hrc.resolve_left fun h => hfail h.1
    generalize hr : refreshTask H E settings touch (q.setBasePriority id priority) id c = r at *
    have ht₂ := htr.setBasePriority id (q.mem id).basePriority
    have hback : reprioritize id (q.mem id).basePriority (reprioritize id priority l) = l := by
      refine reprioritize_back fun d hd hdid => ?_
      have := (ht.mirrored.mirrors d hd).basePriority
      rw [hdid] at this
      exact this.symm
    rw [hback] at ht₂
    have hI₂ := hto.frame hIr fun x _ =>
      setBasePriority_sameOrder r.state id (q.mem id).basePriority x
    obtain ⟨-, -, htb, hIb, -⟩ := refreshTask_spec hH E settings r.cursor I ht₂ hid
      fun mem' hm hs => hto.touch hI₂ hid hm hs
    exact ⟨hIb, Or.inr ⟨rfl, htb, halloc⟩⟩
  · exact ⟨hIr, Or.inl ⟨rfl, htr⟩⟩

end Spec

/-! ## Freshness -/

/-- The clock values a policy can have seen up to `τ`. -/
def Seen (settings : DeadlineSettings) (τ u : UInt64) : Prop :=
  if settings.useStaticNow then u = settings.nowNs else u ≤ τ

/-- The item carries the boost of a clock value seen up to `τ`, and waits for its
next refresh if there is one. -/
structure FreshTask (settings : DeadlineSettings) (τ : UInt64) (mem : Memory)
    (refresh : Heap TaskId) (d : TaskDesc) : Prop where
  seen : ∃ u, Seen settings τ u ∧
    (mem d.taskId).effectivePriority = (d.boosted settings.boost u).effectivePriority ∧
    (mem d.taskId).nextRefreshNs = (d.boosted settings.boost u).nextRefreshNs
  due : d.taskId ∈ refresh.items ↔ (mem d.taskId).nextRefreshNs ≠ deadlineBoostNever

/-- All items do. -/
def Fresh (settings : DeadlineSettings) (τ : UInt64) (mem : Memory) (refresh : Heap TaskId)
    (l : List TaskDesc) : Prop :=
  ∀ d ∈ l, FreshTask settings τ mem refresh d

/-- The readings of a call lie between two times. -/
structure Within (τ : UInt64) (E : Env) (t : UInt64) : Prop where
  ge : ∀ n, τ ≤ E.clock n
  le : ∀ n, E.clock n ≤ t

/-- During the call no request for memory fails and the clock stands at `t`,
which is not the largest number. -/
structure Steady (E : Env) (t : UInt64) : Prop where
  alloc : ∀ n, E.alloc n = true
  clock : ∀ n, E.clock n = t
  lt_max : t < u64Max

theorem Steady.within {E : Env} {τ t : UInt64} (h : Steady E t) (hle : τ ≤ t) : Within τ E t :=
  ⟨fun n => by rw [h.clock]; exact hle, fun n => by rw [h.clock]; exact UInt64.le_refl t⟩

theorem Within.mono {E : Env} {τ t : UInt64} (h : Within τ E t) : τ ≤ t :=
  UInt64.le_trans (h.ge 0) (h.le 0)

section Freshness

variable {H : HeapOps} {E : Env} {settings : DeadlineSettings} {touch : Touch ρ}
  {estimateCost : Bool} {l : List TaskDesc} {q : DeadlineQueue ρ} {id : TaskId} {c : Cursor}
  {I I' : Memory → ρ → Prop} {mem mem' : Memory} {refresh refresh' : Heap TaskId}
  {τ t : UInt64} {d : TaskDesc}

theorem Seen.mono {u : UInt64} (h : Seen settings τ u) (hle : τ ≤ t) : Seen settings t u := by
  unfold Seen at h ⊢
  split at h
  · next hs => rw [if_pos hs]; exact h
  · next hs => rw [if_neg hs]; exact UInt64.le_trans h hle

/-- The clock value of a call. -/
def clockValue (settings : DeadlineSettings) (t : UInt64) : UInt64 :=
  if settings.useStaticNow then settings.nowNs else t

theorem deadlineNow_clockValue (hE : ∀ n, E.clock n = t) :
    (deadlineNow settings E c).1 = clockValue settings t := by
  unfold deadlineNow clockValue
  split
  · rfl
  · exact hE _

/-- What a reading shows has been seen at the end of the call. -/
theorem Within.seen (hE : Within τ E t) (settings : DeadlineSettings) (c : Cursor) :
    Seen settings t (deadlineNow settings E c).1 := by
  unfold Seen deadlineNow
  split
  · rfl
  · exact hE.le _

/-- What was seen before the call is not later than its readings. -/
theorem Within.le_now (hE : Within τ E t) {u : UInt64} (hu : Seen settings τ u) (c : Cursor) :
    u ≤ (deadlineNow settings E c).1 := by
  unfold Seen at hu
  unfold deadlineNow
  split
  · next hs =>
    rw [if_pos hs] at hu
    exact UInt64.le_of_eq hu
  · next hs =>
    rw [if_neg hs] at hu
    exact UInt64.le_trans hu (hE.ge _)

theorem FreshTask.mono (h : FreshTask settings τ mem refresh d) (hle : τ ≤ t) :
    FreshTask settings t mem refresh d := by
  obtain ⟨u, hu, heff, hnext⟩ := h.seen
  exact ⟨⟨u, hu.mono hle, heff, hnext⟩, h.due⟩

theorem FreshTask.congr (h : FreshTask settings τ mem refresh d)
    (hmem : mem' d.taskId = mem d.taskId)
    (hitems : d.taskId ∈ refresh'.items ↔ d.taskId ∈ refresh.items) :
    FreshTask settings τ mem' refresh' d := by
  obtain ⟨u, hu, heff, hnext⟩ := h.seen
  exact ⟨⟨u, hu, by rw [hmem]; exact heff, by rw [hmem]; exact hnext⟩,
    by rw [hitems, hmem]; exact h.due⟩

theorem Fresh.mono (h : Fresh settings τ mem refresh l) (hle : τ ≤ t) :
    Fresh settings t mem refresh l := fun d hd => (h d hd).mono hle

/-- A refresh makes the refreshed task fresh and leaves the others as they are. -/
theorem fresh_refreshed {q' : DeadlineQueue ρ} {u : UInt64} (hm : Mirrored estimateCost q.mem l)
    (hu : Seen settings t u)
    (hfresh : ∀ d ∈ l, d.taskId ≠ id → FreshTask settings t q.mem q.refresh d)
    (hoff : ∀ x, x ≠ id → q'.mem x = q.mem x)
    (hself : q'.mem id = (q.mem id).boost ((q.mem id).boosted settings.boost u))
    (hitems : ∀ x, x ∈ q'.refresh.items ↔ (x ∈ q.refresh.items ∧ x ≠ id) ∨
      (x = id ∧ ((q.mem id).boosted settings.boost u).nextRefreshNs ≠ deadlineBoostNever)) :
    Fresh settings t q'.mem q'.refresh l := by
  intro d hd
  by_cases hdid : d.taskId = id
  · have hb := (hm.mirrors d hd).boosted settings.boost u
    rw [hdid] at hb
    refine ⟨⟨u, hu, ?_, ?_⟩, ?_⟩
    · rw [hdid, hself, hb]
      rfl
    · rw [hdid, hself, hb]
      rfl
    · rw [hdid, hitems, hself]
      simp [ReadyTask.boost]
  · refine (hfresh d hd hdid).congr (hoff _ hdid) ?_
    rw [hitems]
    simp [hdid]

/-- A refresh leaves the other tasks fresh, and makes its own task fresh unless it
failed. -/
theorem refreshTask_fresh (hH : H.Lawful) (hE : Within τ E t) (c : Cursor)
    (I' : Memory → ρ → Prop)
    (ht : Tracked estimateCost q.mem q.refresh l) (hid : id ∈ taskIds l)
    (htouch : ∀ mem' : Memory, (∀ x, x ≠ id → mem' x = q.mem x) → SameTask (q.mem id) (mem' id) →
      ∃ ready', touch mem' q.ready id
        (decide ((q.mem id).effectivePriority ≠ (mem' id).effectivePriority)) = (.ok, ready') ∧
        I' mem' ready')
    (hfresh : ∀ d ∈ l, d.taskId ≠ id → FreshTask settings t q.mem q.refresh d) :
    let r := refreshTask H E settings touch q id c
    ∀ d ∈ l, r.rc = .ok ∨ d.taskId ≠ id → FreshTask settings t r.state.mem r.state.refresh d := by
  obtain ⟨hoff, hself, -, -, hrc⟩ := refreshTask_spec hH E settings c I' ht hid htouch
  dsimp only
  rcases hrc with ⟨-, hitems⟩ | ⟨hfail, -, -, -, -, hitems⟩
  · exact fun d hd _ =>
      fresh_refreshed ht.mirrored (hE.seen settings c) hfresh hoff hself hitems d hd
  · intro d hd hor
    have hne := hor.resolve_left hfail
    refine (hfresh d hd hne).congr (hoff _ hne) ?_
    rw [hitems]
    simp [hne]

/-- **A refresh of a task that was scheduled does not fail**: the task gives back
the place it takes in the refresh queue, or needs none. -/
theorem refreshTask_ok (hH : H.Lawful) (hE : Within τ E t) (c : Cursor)
    (hconfig : settings.boost.thresholdsRejected = false) (I' : Memory → ρ → Prop)
    (ht : Tracked estimateCost q.mem q.refresh l) (hid : id ∈ taskIds l)
    (htouch : ∀ mem' : Memory, (∀ x, x ≠ id → mem' x = q.mem x) → SameTask (q.mem id) (mem' id) →
      ∃ ready', touch mem' q.ready id
        (decide ((q.mem id).effectivePriority ≠ (mem' id).effectivePriority)) = (.ok, ready') ∧
        I' mem' ready')
    {u : UInt64} (hu : Seen settings τ u)
    (hnext : (q.mem id).nextRefreshNs = ((q.mem id).boosted settings.boost u).nextRefreshNs)
    (hdue : id ∈ q.refresh.items ↔ (q.mem id).nextRefreshNs ≠ deadlineBoostNever) :
    (refreshTask H E settings touch q id c).rc = .ok := by
  obtain ⟨-, -, -, -, hrc⟩ := refreshTask_spec hH E settings c I' ht hid htouch
  rcases hrc with ⟨hok, -⟩ | ⟨-, hnot, -, -, hwaits, -⟩
  · exact hok
  · have hnever := not_not.1 fun h => hnot (hdue.2 h)
    rw [hnext] at hnever
    exact absurd (deadlineBoostCompute_never hconfig _ _ _ (hE.le_now hu c) hnever) hwaits

/-- The refresh pass keeps all tasks fresh. -/
theorem refreshExpired_fresh (hH : H.Lawful) (hE : Within τ E t) (c : Cursor)
    (hto : Touches touch I l) (ht : Tracked estimateCost q.mem q.refresh l) (hI : I q.mem q.ready)
    (hfresh : Fresh settings t q.mem q.refresh l) :
    let r := refreshExpired H E settings touch q c
    Fresh settings t r.state.mem r.state.refresh l := by
  have hturn : ∀ (q' : DeadlineQueue ρ) (c' : Cursor) (id : TaskId) (mem : Memory)
      (refresh : Heap TaskId), Fresh settings t q'.mem q'.refresh l →
      Tracked estimateCost q'.mem q'.refresh l → I q'.mem q'.ready →
      deadlineRefreshPopExpired H q'.mem q'.refresh (deadlineNow settings E c).1 =
        some (id, mem, refresh) →
      Fresh settings t (refreshTask H E settings touch ⟨mem, refresh, q'.ready⟩ id c').state.mem
        (refreshTask H E settings touch ⟨mem, refresh, q'.ready⟩ id c').state.refresh l := by
    intro q' c' id mem refresh hf ht' hI' hp
    obtain ⟨-, -, -, hoff, hself, -, -, hitems⟩ := turn_spec hH E settings c' ht' hto hI' hp
    exact fresh_refreshed ht'.mirrored (hE.seen settings c') (fun d hd _ => hf d hd) hoff hself hitems
  obtain ⟨-, hf, -⟩ := refreshLoop_spec hH E settings hto
    (fun q' _ => Fresh settings t q'.mem q'.refresh l) hturn hfresh ht hI deadlineNow_le_next
    (due_card_le q _)
  exact hf

/-- **After the refresh pass every effective priority is current**: it is the
boost at the clock value of the call. -/
theorem refreshExpired_current (hH : H.Lawful) (hE : Steady E t) (c : Cursor)
    (hconfig : settings.boost.thresholdsRejected = false) (hto : Touches touch I l)
    (ht : Tracked estimateCost q.mem q.refresh l) (hI : I q.mem q.ready)
    (hfresh : Fresh settings t q.mem q.refresh l) :
    let r := refreshExpired H E settings touch q c
    Fresh settings t r.state.mem r.state.refresh l ∧
      ∀ d ∈ l, (r.state.mem d.taskId).effectivePriority =
        (d.boosted settings.boost (clockValue settings t)).effectivePriority := by
  have hf := refreshExpired_fresh hH (hE.within (UInt64.le_refl t)) c hto ht hI hfresh
  obtain ⟨-, -, -, -, hlater⟩ := refreshLoop_spec hH E settings hto (fun _ _ => True)
    (fun _ _ _ _ _ _ _ _ _ => trivial) trivial ht hI deadlineNow_le_next (due_card_le q _)
  refine ⟨hf, fun d hd => ?_⟩
  obtain ⟨⟨u, hu, heff, hnext⟩, hdue⟩ := hf d hd
  refine heff.trans ?_
  unfold Seen at hu
  by_cases hs : settings.useStaticNow
  · rw [if_pos hs] at hu
    rw [clockValue, if_pos hs, hu]
  · rw [if_neg hs] at hu
    rw [clockValue, if_neg hs]
    refine (deadlineBoostCompute_fresh hconfig d.priority d.deadlineNs d.estimatedRuntimeNs hu ?_).symm
    show t < (d.boosted settings.boost u).nextRefreshNs
    rw [← hnext]
    by_cases hin : d.taskId ∈ (refreshLoop H E settings touch (deadlineNow settings E c).1
        q.refresh.items.length q (deadlineNow settings E c).2).state.refresh.items
    · have hnowt : t = (deadlineNow settings E c).1 := by
        rw [deadlineNow_clockValue hE.clock, clockValue, if_neg hs]
      exact UInt64.lt_of_le_of_lt (UInt64.le_of_eq hnowt) (hlater _ hin)
    · have hnever := not_not.1 fun h => hin (hdue.2 h)
      rw [hnever]
      exact hE.lt_max

/-- During a refresh pass that began at `c` with the items `mem`: the item of the task
is as it was, or it was due and carries the boost at a reading before `c'`. -/
structure Judged (settings : DeadlineSettings) (E : Env) (mem : Memory) (c c' : Cursor)
    (mem' : Memory) (refresh : Heap TaskId) (d : TaskDesc) : Prop where
  due : d.taskId ∈ refresh.items ↔ (mem' d.taskId).nextRefreshNs ≠ deadlineBoostNever
  item : mem' d.taskId = mem d.taskId ∨
    (mem d.taskId).nextRefreshNs ≤ E.clock c.reads ∧ ∃ k, c.reads ≤ k ∧ k < c'.reads ∧
      (mem' d.taskId).effectivePriority = (d.boosted settings.boost (E.clock k)).effectivePriority

theorem deadlineNow_dynamic (hdynamic : settings.useStaticNow = false) (c : Cursor) :
    deadlineNow settings E c = (E.clock c.reads, c.read) := by
  rw [deadlineNow, if_neg (by simp [hdynamic])]
  rfl

/-- One turn of the loop keeps that, and takes one reading. -/
theorem judged_turn (hH : H.Lawful) (hdynamic : settings.useStaticNow = false)
    (hto : Touches touch I l) {q' : DeadlineQueue ρ} {c' : Cursor}
    (hreads : c.reads < c'.reads) (hq : ∀ d ∈ l, Judged settings E q.mem c c' q'.mem q'.refresh d)
    (ht : Tracked estimateCost q'.mem q'.refresh l) (hI : I q'.mem q'.ready)
    (hp : deadlineRefreshPopExpired H q'.mem q'.refresh (E.clock c.reads) =
      some (id, mem, refresh)) :
    let r := refreshTask H E settings touch ⟨mem, refresh, q'.ready⟩ id c'
    c.reads < r.cursor.reads ∧
      ∀ d ∈ l, Judged settings E q.mem c r.cursor r.state.mem r.state.refresh d := by
  obtain ⟨-, hdue, -, hoff, hself, -, -, hitems⟩ := turn_spec hH E settings c' ht hto hI hp
  have hlater := refreshTask_reads H E settings touch ⟨mem, refresh, q'.ready⟩ id c'
  rw [deadlineNow_dynamic hdynamic] at hself hitems hlater
  have hlater : c'.reads < _ := hlater
  refine ⟨lt_trans hreads hlater, fun d hd => ?_⟩
  obtain ⟨hin, hcase⟩ := hq d hd
  by_cases hdid : d.taskId = id
  · have hb := (ht.mirrored.mirrors d hd).boosted settings.boost (E.clock c'.reads)
    rw [hdid] at hb
    refine ⟨?_, Or.inr ⟨?_, c'.reads, le_of_lt hreads, hlater, ?_⟩⟩
    · rw [hdid, hitems, hself]
      simp [ReadyTask.boost]
    · rcases hcase with h | h
      · rw [← h, hdid]
        exact hdue
      · exact h.1
    · rw [hdid, hself, hb]
      rfl
  · refine ⟨?_, ?_⟩
    · rw [hoff _ hdid, hitems]
      simpa [hdid] using hin
    · rw [hoff _ hdid]
      exact hcase.imp_right fun ⟨hd, k, hk, hlt, heff⟩ => ⟨hd, k, hk, lt_trans hlt hlater, heff⟩

/-- **What the refresh pass leaves**, when the clock may move during the call: a task
that was not due at the first reading carries the boost at that reading, every other
the boost at one of the readings. -/
theorem refreshExpired_judged (hH : H.Lawful) (hE : Within τ E t) (c : Cursor)
    (hconfig : settings.boost.thresholdsRejected = false) (hdynamic : settings.useStaticNow = false)
    (hmax : E.clock c.reads < u64Max) (hto : Touches touch I l)
    (ht : Tracked estimateCost q.mem q.refresh l) (hI : I q.mem q.ready)
    (hfresh : Fresh settings τ q.mem q.refresh l) :
    let r := refreshExpired H E settings touch q c
    ∀ d ∈ l, ∃ k, c.reads ≤ k ∧ k < r.cursor.reads ∧
      (E.clock c.reads < (q.mem d.taskId).nextRefreshNs → k = c.reads) ∧
      (r.state.mem d.taskId).effectivePriority =
        (d.boosted settings.boost (E.clock k)).effectivePriority := by
  have hnow : (deadlineNow settings E c).1 = E.clock c.reads := by
    rw [deadlineNow_dynamic hdynamic]
  have hstart : c.reads < (deadlineNow settings E c).2.reads ∧
      ∀ d ∈ l, Judged settings E q.mem c (deadlineNow settings E c).2 q.mem q.refresh d := by
    rw [deadlineNow_dynamic hdynamic]
    exact ⟨Nat.lt_succ_self _, fun d hd => ⟨(hfresh d hd).due, Or.inl rfl⟩⟩
  obtain ⟨-, ⟨hreads, hjudged⟩, -, -, hlater⟩ := refreshLoop_spec hH E settings hto
    (fun q' c' => c.reads < c'.reads ∧
      ∀ d ∈ l, Judged settings E q.mem c c' q'.mem q'.refresh d)
    (fun _ _ _ _ _ hM ht' hI' hp =>
      judged_turn hH hdynamic hto hM.1 hM.2 ht' hI' (hnow ▸ hp)) hstart ht hI
    deadlineNow_le_next (due_card_le q _)
  intro r d hd
  obtain ⟨hin, hcase⟩ := hjudged d hd
  rcases hcase with hsame | ⟨hdue, k, hk, hlt, heff⟩
  · refine ⟨c.reads, le_rfl, hreads, fun _ => rfl, ?_⟩
    obtain ⟨u, hu, heff, hnext⟩ := (hfresh d hd).seen
    have hle : u ≤ E.clock c.reads := UInt64.le_trans (hE.le_now hu c) (UInt64.le_of_eq hnow)
    rw [show r.state.mem d.taskId = q.mem d.taskId from hsame, heff]
    refine (deadlineBoostCompute_fresh hconfig d.priority d.deadlineNs d.estimatedRuntimeNs hle ?_).symm
    show E.clock c.reads < (d.boosted settings.boost u).nextRefreshNs
    rw [← hnext, ← hsame]
    by_cases hmem : d.taskId ∈ r.state.refresh.items
    · exact UInt64.lt_of_le_of_lt (UInt64.le_of_eq hnow.symm) (hlater _ hmem)
    · have hnever := not_not.1 fun h => hmem (hin.2 h)
      rw [hnever]
      exact hmax
  · exact ⟨k, hk, hlt, fun h => absurd (UInt64.lt_of_lt_of_le h hdue) (UInt64.lt_irrefl _), heff⟩

/-- When the tasks are fresh, a priority change takes effect, and they stay fresh. -/
theorem priorityChanged_fresh (hH : H.Lawful) (hE : Within τ E t) (c : Cursor)
    (hconfig : settings.boost.thresholdsRejected = false)
    (hto : Touches touch I l) (ht : Tracked estimateCost q.mem q.refresh l)
    (hI : I q.mem q.ready) (find : ρ → TaskId → Bool) (hfind : find q.ready id = true)
    (hid : id ∈ taskIds l) (priority : Int64) (hfresh : Fresh settings τ q.mem q.refresh l) :
    let r := priorityChanged H E settings touch find q id priority c
    r.rc = .ok ∧ Fresh settings t r.state.mem r.state.refresh (reprioritize id priority l) := by
  have hids : taskIds (reprioritize id priority l) = taskIds l := taskIds_reprioritize
  have hto' := hto.of_ids hids
  have ht' := ht.setBasePriority id priority
  have hI' := hto.frame hI fun x _ => setBasePriority_sameOrder q id priority x
  have htouch := fun (mem' : Memory) hm hs =>
    @Touches.touch _ _ _ _ hto' _ mem' q.ready id hI' (hids ▸ hid) hm hs
  have hbut : ∀ d ∈ reprioritize id priority l, d.taskId ≠ id →
      FreshTask settings t (q.setBasePriority id priority).mem
        (q.setBasePriority id priority).refresh d := by
    intro e he hne
    obtain ⟨d, hd, rfl⟩ := mem_reprioritize.1 he
    by_cases hdid : d.taskId = id
    · rw [if_pos hdid] at hne
      exact absurd hdid hne
    · rw [if_neg hdid]
      exact ((hfresh d hd).mono hE.mono).congr (setBasePriority_off hdid) Iff.rfl
  -- the new priority leaves the schedule of the task alone
  have hok : (refreshTask H E settings touch (q.setBasePriority id priority) id c).rc = .ok := by
    obtain ⟨d, hd, hdid⟩ := mem_taskIds.1 hid
    obtain ⟨⟨u, hu, -, hnext⟩, hdue⟩ := hfresh d hd
    have hm := (ht.mirrored.mirrors d hd).boosted settings.boost u
    rw [hdid] at hnext hdue hm
    refine refreshTask_ok hH hE c hconfig I ht' (hids ▸ hid) htouch hu ?_ ?_
    · rw [setBasePriority_self]
      show (q.mem id).nextRefreshNs = _
      rw [hnext, ← hm]
      exact deadlineBoostCompute_next_base _ _ _ _ _ _
    · rw [setBasePriority_self]
      exact hdue
  have hf := refreshTask_fresh hH hE c I ht' (hids ▸ hid) htouch hbut
  dsimp only
  unfold priorityChanged
  rw [hfind]
  simp only [Bool.not_true, Bool.false_eq_true, if_false]
  rw [if_neg (by rw [hok]; simp)]
  exact ⟨rfl, fun d hd => hf d hd (Or.inl hok)⟩

/-! ## Arrivals and departures -/

/-- A new item, marked as waiting for no refresh. -/
theorem Tracked.arrive (ht : Tracked estimateCost mem refresh l) (hnew : d.taskId ∉ taskIds l)
    (seq : ℕ) (hoff : ∀ x, x ≠ d.taskId → mem' x = mem x)
    (hitem : mem' d.taskId = newReadyTask estimateCost seq d) :
    Tracked estimateCost mem' (refresh.setIndex d.taskId none) (l ++ [d]) := by
  obtain ⟨S, hr, hS⟩ := ht.refresh
  have hnot : d.taskId ∉ S := fun h => hnew (hS _ h)
  refine ⟨ht.mirrored.insert hnew seq hoff hitem, S, ?_, ?_⟩
  · exact (hr.congr fun x hx => hoff x fun h => hnot (h ▸ hx)).setIndex hnot
  · intro x hx
    rw [taskIds_append]
    exact List.mem_append_left _ (hS x hx)

/-- A change of an item nobody uses. -/
theorem Tracked.congr (ht : Tracked estimateCost mem refresh l)
    (hmem : ∀ x ∈ taskIds l, mem' x = mem x) : Tracked estimateCost mem' refresh l := by
  obtain ⟨S, hr, hS⟩ := ht.refresh
  refine ⟨ht.mirrored.congr fun d hd hm => ?_, S, hr.congr fun x hx => hmem x (hS x hx), hS⟩
  rw [hmem _ (mem_taskIds_of_mem hd)]
  exact hm

theorem Fresh.congr (h : Fresh settings t mem refresh l)
    (hmem : ∀ x ∈ taskIds l, mem' x = mem x) : Fresh settings t mem' refresh l :=
  fun d hd => (h d hd).congr (hmem _ (mem_taskIds_of_mem hd)) Iff.rfl

/-- A task that leaves stops waiting for a refresh. -/
theorem Tracked.leave (hH : H.Lawful) (ht : Tracked estimateCost mem refresh l) (id : TaskId) :
    let m := deadlineRefreshRemove H mem refresh id
    Tracked estimateCost m.1 m.2 (withoutTask id l) ∧ ∀ x, SameOrder (mem x) (m.1 x) := by
  obtain ⟨hr, hsub⟩ := ht.items
  obtain ⟨hrem, hoff, hself, -⟩ := hr.remove hH id
  have hmirr : Mirrored estimateCost mem (withoutTask id l) := ht.mirrored.sublist withoutTask_sublist
  dsimp only
  refine ⟨⟨hmirr.congr fun d hd hm => ?_, _, hrem, ?_⟩, ?_⟩
  · rw [hoff _ (mem_withoutTask.1 hd).2]
    exact hm
  · rintro x ⟨hx, hne⟩
    exact mem_taskIds_withoutTask.2 ⟨hsub x hx, hne⟩
  · intro x
    by_cases hx : x = id
    · rw [hx]
      rcases hself with h | h
      · rw [h]
        exact SameOrder.refl _
      · rw [h]
        exact ⟨rfl, rfl, rfl, rfl⟩
    · rw [hoff x hx]
      exact SameOrder.refl _

theorem FreshTask.leave (hH : H.Lawful) (ht : Tracked estimateCost mem refresh l)
    (hf : FreshTask settings t mem refresh d) (hne : d.taskId ≠ id) :
    FreshTask settings t (deadlineRefreshRemove H mem refresh id).1
      (deadlineRefreshRemove H mem refresh id).2 d := by
  obtain ⟨hrem, hoff, -, -⟩ := ht.items.1.remove hH id
  refine hf.congr (hoff _ hne) ?_
  rw [hrem.holds.mem, Set.mem_sdiff, Set.mem_singleton_iff]
  simp [hne]

theorem Fresh.leave (hH : H.Lawful) (ht : Tracked estimateCost mem refresh l) (id : TaskId)
    (hf : Fresh settings t mem refresh l) :
    Fresh settings t (deadlineRefreshRemove H mem refresh id).1
      (deadlineRefreshRemove H mem refresh id).2 (withoutTask id l) := by
  intro d hd
  obtain ⟨hd, hne⟩ := mem_withoutTask.1 hd
  exact (hf d hd).leave hH ht hne

end Freshness

end DeadlineQueue

end QhwScheduler
