import QhwScheduler.Foundations.BinaryHeap
import QhwScheduler.Plugins.Builtin

/-!
# The instants of a selection

A selection reads the clock once to see what is due, and once more for each task that
it refreshes.

* `Judgement`, `judgement` — what a selection has before it when it pops.
* `selection_two_instants` — the readings can come from both sides of a threshold, and
  then no single instant explains the priorities that are compared.
* `selection_instants` — each task is judged at one of the readings, and at the first
  one unless it was due.
-/

namespace QhwScheduler

open Foundations DeadlineQueue

/-- What a selection compares: the settings, the items before the call and when the
task is popped, and the number of readings up to then. -/
structure Judgement where
  settings : DeadlineSettings
  before : Memory
  mem : Memory
  reads : ℕ

section

variable {ρ : Type} (H : HeapOps) (E : Env)

/-- The judgement of a selection from these queues. -/
def queueJudgement (settings : DeadlineSettings) (touch : Touch ρ) (q : DeadlineQueue ρ) :
    Judgement :=
  let r := refreshExpired H E settings touch q .start
  ⟨settings, q.mem, r.state.mem, r.cursor.reads⟩

/-- The judgement of `priority_select_next` and `ordered_select_next`; the other
plugins know no deadlines. -/
def judgement : Sigma BuiltinState → Option Judgement
  | ⟨.priority, s⟩ => some (queueJudgement H E s.deadline (flatTouch H priorityCompare) s.queue)
  | ⟨.ordered, s⟩ =>
    match s.ready with
    | .flat queue =>
      some (queueJudgement H E s.order.deadline (flatTouch H (orderCompare s.order)) queue)
    | .grouped queue => some (queueJudgement H E s.order.deadline (orderedTouch H s.order) queue)
  | _ => none

/-- One instant between the first and the last reading explains every priority. -/
def OneInstant (j : Judgement) (l : List TaskDesc) : Prop :=
  ∃ u, E.clock 0 ≤ u ∧ u ≤ E.clock (j.reads - 1) ∧ ∀ d ∈ l,
    (j.mem d.taskId).effectivePriority = (d.boosted j.settings.boost u).effectivePriority

end

/-! ## Two instants -/

/-- A clock that shows one value first and another one from then on. -/
def Env.ticking (first later : UInt64) (h : first ≤ later) : Env where
  alloc := fun _ => true
  clock := fun n => if n = 0 then first else later
  clock_mono := by
    intro i j hij
    by_cases hi : i = 0
    · by_cases hj : j = 0
      · rw [if_pos hi, if_pos hj]
        exact UInt64.le_refl first
      · rw [if_pos hi, if_neg hj]
        exact h
    · rw [if_neg hi, if_neg (by omega)]
      exact UInt64.le_refl later

/-- The priority plugin with boosting. -/
def boostedRun (tasks : List TaskDesc) (t : UInt64) : List (Env × Op Builtin) :=
  (.still 0, .loadPlugin .priority true) ::
    (.still 0, .setPolicy .priority (some [⟨optDeadlineBoostEnable, .u64 1⟩])) ::
      tasks.map fun d => (.still t, .submitTask d {})

/-- Both tasks cross a threshold between the readings at 120 and 200; only the second
was due at 120. -/
def crossing : List TaskDesc :=
  [{ taskId := 1, priority := 95, deadlineNs := 160, estimatedRuntimeNs := 10 },
    { taskId := 2, deadlineNs := 210, estimatedRuntimeNs := 100 }]

/-- A task that becomes critical at the largest clock value. -/
def latest : List TaskDesc := [{ taskId := 1, deadlineNs := u64Max, estimatedRuntimeNs := 1 }]

theorem boostedRun_within (tasks : List TaskDesc) : GoodRun Within 0 (boostedRun tasks 0) 0 := by
  have hstill : ∀ i ∈ boostedRun tasks 0, i.1 = Env.still 0 := by
    simp [boostedRun]
  refine goodRun_of_forall fun i hi => ?_
  rw [hstill i hi]
  exact ⟨fun _ => UInt64.le_refl 0, fun _ => UInt64.le_refl 0⟩

/-- **No single instant.**  The first task is judged before it crosses its threshold at
150, the second after it crossed its own at 176; task 2 is handed out, which at no
instant between the readings comes first.  And at the largest clock value a task is
stale that crosses its threshold there, as this value stands for never. -/
theorem selection_two_instants :
    let H := binaryHeap
    let E := Env.ticking 120 200 (by decide)
    let s := builtinRun H (some []) (boostedRun crossing 0)
    let s' := builtinRun H (some []) (boostedRun latest (u64Max - 1))
    ((s.policy.bind (judgement H E)).any fun j =>
        j.settings.boost.enabled && !j.settings.useStaticNow) ∧
      (∀ j ∈ s.policy.bind (judgement H E), ¬ OneInstant E j (waiting s.tasks)) ∧
      (schedSelectNext (builtinPlugins H) E s .start).assignment.map Assignment.taskId = some 2 ∧
      (s'.policy.bind (judgement H (.still u64Max))).isSome ∧
      ∀ j ∈ s'.policy.bind (judgement H (.still u64Max)),
        ¬ OneInstant (.still u64Max) j (waiting s'.tasks) := by
  intro H E s s'
  have hinstants : ∀ j ∈ s.policy.bind (judgement H E), j.reads = 2 ∧ ∀ k : Fin 81,
      ¬ ∀ d ∈ waiting s.tasks, (j.mem d.taskId).effectivePriority =
        (d.boosted j.settings.boost (UInt64.ofNat (120 + k))).effectivePriority := by
    decide +kernel
  have hlatest : ∀ j ∈ s'.policy.bind (judgement H (.still u64Max)),
      ¬ ∀ d ∈ waiting s'.tasks, (j.mem d.taskId).effectivePriority =
        (d.boosted j.settings.boost u64Max).effectivePriority := by
    decide +kernel
  refine ⟨by decide +kernel, ?_, by decide +kernel, by decide +kernel, ?_⟩
  · rintro j hj ⟨u, hfirst, hlast, hall⟩
    obtain ⟨hreads, hno⟩ := hinstants j hj
    rw [hreads] at hlast
    have hge : 120 ≤ u.toNat := UInt64.le_iff_toNat_le.1 hfirst
    have hle : u.toNat ≤ 200 := UInt64.le_iff_toNat_le.1 hlast
    refine hno ⟨u.toNat - 120, by omega⟩ fun d hd => ?_
    have hu : UInt64.ofNat (120 + (u.toNat - 120)) = u := by
      rw [Nat.add_sub_of_le hge, UInt64.ofNat_toNat]
    show _ = (d.boosted j.settings.boost (UInt64.ofNat (120 + (u.toNat - 120)))).effectivePriority
    rw [hu]
    exact hall d hd
  · rintro j hj ⟨u, hfirst, hlast, hall⟩
    have hu : u = u64Max := UInt64.le_antisymm hlast hfirst
    exact hlatest j hj (hu ▸ hall)

/-! ## One reading for each task -/

/-- The invariant of a policy tells how a selection judges the tasks. -/
theorem judgement_judged {H : HeapOps} (hH : H.Lawful) {E : Env} {τ t : UInt64}
    (hE : Within τ E t) (hmax : E.clock 0 < u64Max) {π : Sigma BuiltinState} {l : List TaskDesc}
    (hπ : BuiltinInv True π.1 τ π.2 l) {j : Judgement} (hj : judgement H E π = some j)
    (hdynamic : j.settings.useStaticNow = false) :
    ∀ d ∈ l, ∃ k < j.reads, (E.clock 0 < (j.before d.taskId).nextRefreshNs → k = 0) ∧
      (j.mem d.taskId).effectivePriority =
        (d.boosted j.settings.boost (E.clock k)).effectivePriority := by
  obtain ⟨n, s⟩ := π
  cases n with
  | fifo => simp [judgement] at hj
  | roundRobin => simp [judgement] at hj
  | priority =>
    obtain ⟨hflat, hthr⟩ : PriorityInv True τ s l := hπ
    obtain rfl := Option.some.inj hj
    intro d hd
    obtain ⟨k, -, hlt, hk, heff⟩ := refreshExpired_judged hH hE .start hthr hdynamic hmax
      (flat_touches false l hH priorityCompare_reads) hflat.tracked hflat.ready
      (hflat.fresh trivial) d hd
    exact ⟨k, hlt, hk, heff⟩
  | ordered =>
    obtain ⟨hready, hthr⟩ : OrderedInv True τ s l := hπ
    obtain ⟨order, splitConfig, ready⟩ := s
    cases hready with
    | flat keys ok =>
      obtain rfl := Option.some.inj hj
      intro d hd
      obtain ⟨k, -, hlt, hk, heff⟩ := refreshExpired_judged hH hE .start hthr hdynamic hmax
        (flat_touches _ l hH (orderCompare_reads order)) ok.tracked ok.ready (ok.fresh trivial) d hd
      exact ⟨k, hlt, hk, heff⟩
    | grouped ring keys ok =>
      obtain rfl := Option.some.inj hj
      intro d hd
      obtain ⟨k, -, hlt, hk, heff⟩ := refreshExpired_judged hH hE .start hthr hdynamic hmax
        (ordered_touches hH order _ l ring) ok.tracked ok.groups (ok.fresh trivial) d hd
      exact ⟨k, hlt, hk, heff⟩

/-- **Each task is judged at one reading.**  In every state that a run with a clock that
does not run backwards can reach, with any allocator: when the task is popped, every
queued task has the boost at one of the readings of the call, at the first one if it
was not due then.  So one instant is enough when the readings show the same value. -/
theorem selection_instants {H : HeapOps} (hH : H.Lawful) (metadata : KvArray)
    {is : List (Env × Op Builtin)} {t₀ t t' : UInt64} (his : GoodRun Within t₀ is t) {E : Env}
    (hE : Within t E t') (hmax : E.clock 0 < u64Max) :
    let s := builtinRun H metadata is
    ∀ j ∈ s.policy.bind (judgement H E), j.settings.useStaticNow = false →
      (∀ d ∈ waiting s.tasks, ∃ k < j.reads,
        (E.clock 0 < (j.before d.taskId).nextRefreshNs → k = 0) ∧
        (j.mem d.taskId).effectivePriority =
          (d.boosted j.settings.boost (E.clock k)).effectivePriority) ∧
      ((∀ k < j.reads, E.clock k = E.clock 0) → OneInstant E j (waiting s.tasks)) := by
  intro s j hj hdynamic
  obtain ⟨π, hπ, hj⟩ := Option.bind_eq_some_iff.1 hj
  have hagreed := (builtinRun_fresh hH metadata his).holds
  have hinv : BuiltinInv True π.1 t π.2 (waiting s.tasks) := by
    rw [show (builtinRun H metadata is).policy = some π from hπ] at hagreed
    exact hagreed
  have hjudged := judgement_judged hH hE hmax hinv hj hdynamic
  refine ⟨hjudged, fun hsame => ⟨E.clock 0, UInt64.le_refl _, E.clock_mono _ _ (Nat.zero_le _), ?_⟩⟩
  intro d hd
  obtain ⟨k, hk, -, heff⟩ := hjudged d hd
  rw [heff, hsame k hk]

/-- Task 1 is judged at 120, when it was not due; task 2 at one of 120 and 200. -/
theorem selection_instants_crossing :
    let E := Env.ticking 120 200 (by decide)
    let s := builtinRun binaryHeap (some []) (boostedRun crossing 0)
    ∃ j ∈ s.policy.bind (judgement binaryHeap E), ∀ d ∈ waiting s.tasks, ∃ k < j.reads,
      (E.clock 0 < (j.before d.taskId).nextRefreshNs → k = 0) ∧
      (j.mem d.taskId).effectivePriority =
        (d.boosted j.settings.boost (E.clock k)).effectivePriority := by
  intro E s
  have hE : Within 0 E 200 := by
    refine ⟨fun n => UInt64.zero_le, fun n => ?_⟩
    show (if n = 0 then (120 : UInt64) else 200) ≤ 200
    split <;> decide
  obtain ⟨j, hj⟩ := Option.isSome_iff_exists.1
    (show (s.policy.bind (judgement binaryHeap E)).isSome by decide +kernel)
  have hdynamic : ∀ j ∈ s.policy.bind (judgement binaryHeap E), j.settings.useStaticNow = false := by
    decide +kernel
  exact ⟨j, hj, (selection_instants binaryHeap_lawful (some []) (boostedRun_within crossing) hE
    (by decide) j hj (hdynamic j hj)).1⟩

end QhwScheduler
