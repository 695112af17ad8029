import QhwScheduler.Core.Estimates
import QhwScheduler.Plugins.Instants

/-!
# Lazy and eager selection

The priorities in a queue are refreshed only when a second heap says so, and the order
of the queue is repaired only where it changed.  A selection takes all the same what it
would take if it computed everything afresh.

* `OrderKey.compareRecords` — what a key compares of two records at an instant.
* `EagerFirst` — the record that comes first among the queued ones.
* `flatSelect_first` — the policies with one queue select it.
* `eager_selection` — in every reachable state.
-/

namespace QhwScheduler

open Foundations DeadlineQueue

/-! ## Eager selection -/

/-- What a key compares of two records at an instant `u`: the priority with the boost of
that instant, the cached cost, or the order of submission. -/
def OrderKey.compareRecords (boost : BoostConfig) (u : UInt64) (key : OrderKey)
    (left right : TaskRecord) : Ordering :=
  match key with
  | .priority => compareI64Desc (left.desc.boosted boost u).effectivePriority
      (right.desc.boosted boost u).effectivePriority
  | .sjf => compareAsc left.desc.estimatedCost right.desc.estimatedCost
  | .ljf => compareAsc right.desc.estimatedCost left.desc.estimatedCost
  | .roundRobin => .eq
  | .fifo => compareAsc left.enqueueSeq right.enqueueSeq

/-- The record comes strictly before all other queued ones, by the keys in turn. -/
structure EagerFirst (order : OrderConfig) (u : UInt64) (table : TaskTable)
    (record : TaskRecord) : Prop where
  find : taskTableFind table record.desc.taskId = some record
  queued : record.state = .queued
  first : ∀ id other, taskTableFind table id = some other → other.state = .queued →
    other ≠ record →
    lexCompare (order.keys.map (OrderKey.compareRecords order.deadline.boost u)) record other = .lt

/-- The keys and the deadline settings of a policy that orders its tasks. -/
def orderInForce : Sigma BuiltinState → Option OrderConfig
  | ⟨.priority, s⟩ => some ⟨priorityKeys, s.deadline⟩
  | ⟨.ordered, s⟩ => some s.order
  | _ => none

/-! ## The queue compares what the records say -/

/-- When the keys compare alike, and one of them tells the two apart, the comparison of
the items decides that of the records. -/
theorem lexCompare_lt_of_loop {α : Type} {keys : List OrderKey} {a b : Ticketed} {x y : α}
    {cmp : OrderKey → α → α → Ordering} (hsame : ∀ key ∈ keys, key.compare a b = cmp key x y)
    {key : OrderKey} (hkey : key ∈ keys) (hne : key.compare a b ≠ .eq)
    (hle : (orderCompareLoop keys a b).isLE) : lexCompare (keys.map cmp) x y = .lt := by
  have hsame : lexCompare (keys.map cmp) x y = lexCompare (keys.map OrderKey.compare) a b := by
    clear hkey hle
    induction keys with
    | nil => rfl
    | cons key rest ih =>
      rw [List.forall_mem_cons] at hsame
      rw [List.map_cons, List.map_cons, lexCompare_cons, lexCompare_cons, ih hsame.2, hsame.1]
  have hdecided : lexCompare (keys.map OrderKey.compare) a b ≠ .eq := by
    rw [ne_eq, lexCompare_eq_iff]
    exact fun h => hne (h _ (List.mem_map_of_mem hkey))
  rw [orderCompareLoop_eq_lex, lexCompare_append] at hle
  rw [hsame]
  generalize lexCompare (keys.map OrderKey.compare) a b = o at hdecided hle ⊢
  cases o with
  | lt => rfl
  | eq => exact absurd rfl hdecided
  | gt => simp [Ordering.then] at hle

section Records

variable {table : TaskTable} {mem : Memory} {next nextSeq : ℕ} {r r' : TaskRecord}

/-- A queued record is one of the queued records. -/
theorem TaskTable.Ok.mem_queued (hok : table.Ok) (hr : taskTableFind table r.desc.taskId = some r)
    (hq : r.state = .queued) : r ∈ taskTableQueued table := by
  refine List.mem_filter.2 ⟨List.mem_filterMap.2 ⟨r.desc.taskId, ?_, hr⟩, by simpa using hq⟩
  exact (hok.mem_order _).2 (by simp [hr])

/-- Two entries of a list that a relation orders are related one way or the other. -/
theorem pairwise_or {α : Type} {R : α → α → Prop} {l : List α} {a b : α} (h : l.Pairwise R)
    (ha : a ∈ l) (hb : b ∈ l) (hne : a ≠ b) : R a b ∨ R b a := by
  have hsymm : Std.Symm fun a b => R a b ∨ R b a := ⟨fun _ _ => Or.symm⟩
  have hor : l.Pairwise fun a b => R a b ∨ R b a := h.imp Or.inl
  exact hor.forall ha hb hne

/-- The sequence numbers of the queue and the numbers of the records grow alike. -/
theorem Numbered.compare_records (hn : Numbered mem (waiting table) nextSeq)
    (hs : table.Sequenced next) (hr : r ∈ taskTableQueued table) (hr' : r' ∈ taskTableQueued table)
    (hne : r ≠ r') :
    compareAsc (mem r.desc.taskId).seq (mem r'.desc.taskId).seq =
        compareAsc r.enqueueSeq r'.enqueueSeq ∧
      compareAsc (mem r.desc.taskId).seq (mem r'.desc.taskId).seq ≠ .eq := by
  have hseq : (taskTableQueued table).Pairwise fun a b =>
      (mem a.desc.taskId).seq < (mem b.desc.taskId).seq := by
    have hgrowing := hn.growing
    unfold waiting at hgrowing
    rwa [List.pairwise_map] at hgrowing
  have hnumber : (taskTableQueued table).Pairwise fun a b => a.enqueueSeq < b.enqueueSeq :=
    hs.increasing.sublist List.filter_sublist
  simp only [compareAsc_nat]
  rcases pairwise_or (hseq.and hnumber) hr hr' hne with ⟨h, h'⟩ | ⟨h, h'⟩
  · rw [Nat.compare_eq_lt.2 h, Nat.compare_eq_lt.2 h']
    exact ⟨rfl, nofun⟩
  · rw [Nat.compare_eq_gt.2 h, Nat.compare_eq_gt.2 h']
    exact ⟨rfl, nofun⟩

end Records

/-- **One queue selects the record that comes first**, or finds none when none is queued. -/
theorem flatSelect_first {H : HeapOps} (hH : H.Lawful) {E : Env} {t : UInt64} (hE : Steady E t)
    (order : OrderConfig) (hconfig : order.deadline.boost.thresholdsRejected = false)
    (hrr : OrderKey.roundRobin ∉ order.keys) (hfifo : OrderKey.fifo ∈ order.keys)
    {table : TaskTable} {next : ℕ} (hs : table.Sequenced next) (hpriced : table.Priced)
    {q : DeadlineQueue ReadyQueue}
    (hq : FlatOk order.deadline (orderCompare order) (orderConfigUsesCost order) True t q
      (waiting table)) (c : Cursor) :
    let r := flatSelect H E order.deadline (orderCompare order) q c
    waiting table = [] ∨ ∃ record, r.taskId = record.desc.taskId ∧
      EagerFirst order (clockValue order.deadline t) table record := by
  have hcur := flatRefreshed_current hH (orderCompare_reads order) hconfig hE hq c
  dsimp only
  rcases flatSelect_spec hH (orderCompare_reads order) (fun _ => hE.within (UInt64.le_refl t)) hq c
    with ⟨-, hnil, -⟩ | ⟨d, hd, -, hid, -, hleast⟩
  · exact Or.inl hnil
  · generalize flatRefreshed H E order.deadline (orderCompare order) q c = m at hcur hleast
    obtain ⟨record, hr, hqueued, rfl⟩ := hs.ok.mem_waiting.1 hd
    refine Or.inr ⟨record, hid, hr, hqueued, fun id other hother hqueued' hne => ?_⟩
    obtain rfl := hs.ok.desc_id id other hother
    have he : other.desc ∈ waiting table := hs.ok.mem_waiting.2 ⟨other, hother, hqueued', rfl⟩
    obtain ⟨hseq, hdiffer⟩ := hq.ready.numbered.compare_records hs (hs.ok.mem_queued hr hqueued)
      (hs.ok.mem_queued hother hqueued') (Ne.symm hne)
    obtain ⟨heff, hmirrors, hkept⟩ := hcur _ hd
    obtain ⟨heff', hmirrors', hkept'⟩ := hcur _ he
    have hcost : orderConfigUsesCost order = true →
        (m record.desc.taskId).estimatedCost = record.desc.estimatedCost ∧
          (m other.desc.taskId).estimatedCost = other.desc.estimatedCost := by
      intro huses
      rw [hmirrors.estimatedCost, hmirrors'.estimatedCost, if_pos huses, if_pos huses]
      exact ⟨policyTaskEstimatedCost_of_ne_zero (hpriced _ record hr hqueued),
        policyTaskEstimatedCost_of_ne_zero (hpriced _ other hother hqueued')⟩
    have huses : ∀ key ∈ order.keys, (key = .sjf || key = .ljf) → orderConfigUsesCost order = true :=
      fun key hkey h => List.any_eq_true.2 ⟨key, hkey, h⟩
    refine lexCompare_lt_of_loop (a := ⟨m record.desc.taskId, 0⟩) (b := ⟨m other.desc.taskId, 0⟩)
      ?_ hfifo ?_ (hleast _ he)
    · intro key hkey
      cases key with
      | priority => simp only [OrderKey.compare, OrderKey.compareRecords, heff, heff']
      | sjf =>
        obtain ⟨h, h'⟩ := hcost (huses _ hkey rfl)
        simp only [OrderKey.compare, OrderKey.compareRecords, h, h']
      | ljf =>
        obtain ⟨h, h'⟩ := hcost (huses _ hkey rfl)
        simp only [OrderKey.compare, OrderKey.compareRecords, h, h']
      | roundRobin => exact absurd hkey hrr
      | fifo =>
        simp only [OrderKey.compare, OrderKey.compareRecords, hkept, hkept']
        exact hseq
    · show compareAsc (m record.desc.taskId).seq (m other.desc.taskId).seq ≠ .eq
      rw [hkept, hkept']
      exact hdiffer

/-! ## Every reachable state -/

/-- **Lazy selection refines eager selection.**  After every run with a clock that does
not run backwards, whatever the policies, the switches, the splits and the failures in
it: with the priority policy, or an ordered one whose keys contain fifo and not
round_robin, a selection that reads one clock value and gets its memory hands out the
queued record that comes first, its priority boosted at that value. -/
theorem eager_selection {H : HeapOps} (hH : H.Lawful) (metadata : KvArray)
    {is : List (Env × Op Builtin)} {t₀ t t' : UInt64} (his : GoodRun Within t₀ is t) {E : Env}
    (hE : Steady E t') (hle : t ≤ t') :
    let s := builtinRun H metadata is
    let r := schedSelectNext (builtinPlugins H) E s .start
    ∀ order ∈ s.policy.bind orderInForce, OrderKey.fifo ∈ order.keys →
      OrderKey.roundRobin ∉ order.keys →
      ((∀ id record, taskTableFind s.tasks id = some record → record.state ≠ .queued) ∧
        r.rc = .errNotFound ∧ r.assignment = none) ∨
      ∃ record, EagerFirst order (clockValue order.deadline t') s.tasks record ∧
        r.rc = .ok ∧ r.assignment = some (fillAssignmentFromRecord record) := by
  intro s r order horder hfifo hrr
  have hagreed := builtinRun_fresh hH metadata his
  obtain ⟨hs, hpriced⟩ : s.Priced := run_priced (builtinPlugins H) (qpuCreate metadata) is
  obtain ⟨⟨n, π⟩, hpolicy, horder⟩ := Option.bind_eq_some_iff.1 horder
  have hwithin : Within t E t' := hE.within hle
  -- the id the policy names, whatever comes of it
  have hfirst : waiting s.tasks = [] ∨ ∃ record,
      ((builtinPlugins H n).selectNext E π .start).taskId = record.desc.taskId ∧
        EagerFirst order (clockValue order.deadline t') s.tasks record := by
    have hinv : BuiltinInv True n t π (waiting s.tasks) := by
      have hholds := hagreed.holds
      rw [show (builtinRun H metadata is).policy = some ⟨n, π⟩ from hpolicy] at hholds
      exact hholds
    cases n with
    | fifo => simp [orderInForce] at horder
    | roundRobin => simp [orderInForce] at horder
    | priority =>
      obtain ⟨hflat, hthr⟩ : PriorityInv True t π (waiting s.tasks) := hinv
      obtain rfl := Option.some.inj horder
      have hflat := hflat.mono fun _ => hle
      rw [← orderCompare_priorityKeys π.deadline] at hflat
      have hselect := flatSelect_first hH hE ⟨priorityKeys, π.deadline⟩ hthr hrr hfifo hs
        hpriced hflat .start
      rw [orderCompare_priorityKeys] at hselect
      exact hselect
    | ordered =>
      obtain ⟨hready, hthr⟩ : OrderedInv True t π (waiting s.tasks) := hinv
      obtain ⟨config, splitConfig, ready⟩ := π
      obtain rfl := Option.some.inj horder
      cases hready with
      | flat keys ok =>
        exact flatSelect_first hH hE config hthr hrr hfifo hs hpriced (ok.mono fun _ => hle) .start
      | grouped ring keys ok => exact absurd keys hrr
  obtain ⟨-, ⟨hrc, hnil, hnone⟩ | ⟨record, hr, hq, hrc, hsome⟩⟩ := schedSelectNext_served
    (fun n => builtin_policyInv hH True n) (E := E) (fun _ => hwithin) hagreed hpolicy .start
  · refine Or.inl ⟨fun id record hr hq => ?_, hrc, hnone⟩
    have hmem := hs.ok.mem_taskIds_waiting.2 ⟨record, hr, hq⟩
    rw [show waiting s.tasks = [] from hnil] at hmem
    simp at hmem
  · rcases hfirst with hnil | ⟨record', hid, hfirst⟩
    · have hmem := hs.ok.mem_taskIds_waiting.2 ⟨record, hr, hq⟩
      rw [hnil] at hmem
      simp at hmem
    · rw [hid, hfirst.find] at hr
      obtain rfl := Option.some.inj hr
      exact Or.inr ⟨record', hfirst, hrc, hsome⟩

/-- The second task becomes urgent while both wait. -/
def becomesUrgent : List TaskDesc :=
  [{ taskId := 1, priority := 5 }, { taskId := 2, deadlineNs := 210, estimatedRuntimeNs := 100 }]

/-- At 120 it comes first, although its stored priority was the lower one. -/
theorem eager_selection_becomesUrgent :
    let s := builtinRun binaryHeap (some []) (boostedRun becomesUrgent 0)
    ∃ order ∈ s.policy.bind orderInForce, ∃ record,
      EagerFirst order (clockValue order.deadline 120) s.tasks record ∧ record.desc.taskId = 2 := by
  intro s
  obtain ⟨order, horder⟩ := Option.isSome_iff_exists.1
    (show (s.policy.bind orderInForce).isSome by decide +kernel)
  have hkeys : ∀ order ∈ s.policy.bind orderInForce,
      OrderKey.fifo ∈ order.keys ∧ OrderKey.roundRobin ∉ order.keys := by decide +kernel
  have hselected : (schedSelectNext (builtinPlugins binaryHeap) (.still 120) s .start).assignment.map
      Assignment.taskId = some 2 := by decide +kernel
  have hE : Steady (.still 120) 120 := ⟨fun _ => rfl, fun _ => rfl, by decide⟩
  refine ⟨order, horder, ?_⟩
  rcases eager_selection binaryHeap_lawful (some []) (boostedRun_within becomesUrgent) hE (by decide)
    order horder (hkeys order horder).1 (hkeys order horder).2 with ⟨-, -, hnone⟩ | ⟨r, hr, -, hsome⟩
  · rw [hnone] at hselected
    simp at hselected
  · rw [hsome] at hselected
    exact ⟨r, hr, Option.some.inj hselected⟩

end QhwScheduler
