import QhwScheduler.Core.Settings
import QhwScheduler.Plugins.ReferencePolicies

/-!
# Setting a policy again

A policy with one queue has no history: what it will do follows from its options and
the table of the scheduler.

* `settings`, `inForce_kept` — what the options of a policy fixed, and no hook changes.
* `single_matches` — a reached policy with one queue is its reference over the records.
* `replay_matches` — so is the policy that is built from the records.
* `reset_unobservable` — to set the policy again with its options changes nothing that
  any run could tell.
-/

namespace QhwScheduler

open Foundations DeadlineQueue

/-! ## Settings -/

/-- What the options of a policy fixed. -/
def settings : Sigma BuiltinState → OrderConfig × SplitConfig
  | ⟨.fifo, s⟩ => (fifoOrder, FifoState.splitConfig s)
  | ⟨.priority, s⟩ => (⟨priorityKeys, PriorityState.deadline s⟩, PriorityState.splitConfig s)
  | ⟨.ordered, s⟩ => (OrderedState.order s, OrderedState.splitConfig s)
  | ⟨.roundRobin, s⟩ => (roundRobinFifo, RrState.splitConfig s)

/-- A plugin is active, with these settings. -/
def InForce (n : Builtin) (config : OrderConfig × SplitConfig) (π : Sigma BuiltinState) : Prop :=
  π.1 = n ∧ settings π = config

/-- A plugin is active, with the settings that its reference reads from the options. -/
def InForceOf (n : Builtin) (options : KvArray) (π : Sigma BuiltinState) : Prop :=
  ∃ r, referenceInit n options = some r ∧ InForce n (r.order, r.splitConfig) π

section Settings

variable {H : HeapOps} {n : Builtin} {config : OrderConfig × SplitConfig} {options : KvArray}

/-- No hook changes the settings of a policy. -/
theorem inForce_kept : HooksKeep (builtinPlugins H) (InForce n config) where
  submit := by
    rintro n state E task c ⟨rfl, rfl⟩
    refine ⟨rfl, ?_⟩
    cases n with
    | fifo => rfl
    | priority => rfl
    | ordered =>
      obtain ⟨order, splitConfig, ready⟩ := state
      cases ready <;> rfl
    | roundRobin => exact congrArg (Prod.mk _) (rrOnTaskSubmit_splitConfig E state task c)
  select := by
    rintro n state E c ⟨rfl, rfl⟩
    refine ⟨rfl, ?_⟩
    cases n with
    | fifo => exact congrArg (Prod.mk _) fifoSelectNext_splitConfig
    | priority => rfl
    | ordered =>
      obtain ⟨order, splitConfig, ready⟩ := state
      cases ready <;> rfl
    | roundRobin => exact congrArg (Prod.mk _) (rrSelectNext_splitConfig state c)
  config := by
    rintro n state config ⟨rfl, rfl⟩
    cases n <;> exact ⟨rfl, rfl⟩
  priorityChanged := by
    rintro n state E id priority c ⟨rfl, rfl⟩
    refine ⟨rfl, ?_⟩
    cases n with
    | fifo => rfl
    | priority => rfl
    | ordered =>
      obtain ⟨order, splitConfig, ready⟩ := state
      cases ready <;> rfl
    | roundRobin => rfl
  started := by
    rintro n state E id c ⟨rfl, rfl⟩
    cases n <;> exact ⟨rfl, rfl⟩
  finished := by
    rintro n state E id taskState c ⟨rfl, rfl⟩
    refine ⟨rfl, ?_⟩
    cases n with
    | fifo => rfl
    | priority => rfl
    | ordered =>
      obtain ⟨order, splitConfig, ready⟩ := state
      cases ready <;> rfl
    | roundRobin => exact congrArg (Prod.mk _) (rrOnTaskFinished_splitConfig state id c)

theorem inForceOf_kept : HooksKeep (builtinPlugins H) (InForceOf n options) where
  submit E task c := fun ⟨r, hr, h⟩ => ⟨r, hr, inForce_kept.submit E task c h⟩
  select E c := fun ⟨r, hr, h⟩ => ⟨r, hr, inForce_kept.select E c h⟩
  config config := fun ⟨r, hr, h⟩ => ⟨r, hr, inForce_kept.config config h⟩
  priorityChanged E id priority c := fun ⟨r, hr, h⟩ =>
    ⟨r, hr, inForce_kept.priorityChanged E id priority c h⟩
  started E id c := fun ⟨r, hr, h⟩ => ⟨r, hr, inForce_kept.started E id c h⟩
  finished E id state c := fun ⟨r, hr, h⟩ => ⟨r, hr, inForce_kept.finished E id state c h⟩

/-- A policy starts out with the settings that the reference reads from the options. -/
theorem init_settings (H : HeapOps) (E : Env) (n : Builtin) (options : KvArray) (c : Cursor) :
    (∃ rc, rc ≠ .ok ∧ ((builtinPlugins H n).init E options c).outcome = .error rc) ∨
      ∃ state, ((builtinPlugins H n).init E options c).outcome = .ok state ∧
        InForceOf n options ⟨n, state⟩ := by
  have refused : ∀ {σ : Type} {rc : Rc} (c : Cursor), rc ≠ .ok →
      ∃ rc', rc' ≠ .ok ∧ (⟨.error rc, c⟩ : InitResult σ).outcome = .error rc' :=
    fun _ hrc => ⟨_, hrc, rfl⟩
  unfold InForceOf referenceInit referenceOrder
  cases n with
  | fifo =>
    show (∃ rc, rc ≠ .ok ∧ (fifoInit E options c).outcome = .error rc) ∨
      ∃ state, (fifoInit E options c).outcome = .ok state ∧ _
    unfold fifoInit
    split
    · exact Or.inl (refused _ (by simp))
    · split
      · exact Or.inl (refused _ (by simp))
      · cases splitConfigParseOptions splitConfigInit options with
        | none => exact Or.inl (refused _ (by simp))
        | some splitConfig => exact Or.inr ⟨_, rfl, _, rfl, rfl, rfl⟩
  | priority =>
    show (∃ rc, rc ≠ .ok ∧ (priorityInit E options c).outcome = .error rc) ∨
      ∃ state, (priorityInit E options c).outcome = .ok state ∧ _
    unfold priorityInit
    split
    · exact Or.inl (refused _ (by simp))
    · cases splitConfigParseOptions splitConfigInit options with
      | none => exact Or.inl (refused _ (by simp))
      | some splitConfig =>
        cases deadlineBoostConfigParseOptions deadlineBoostConfigInit options with
        | none => exact Or.inl (refused _ (by simp))
        | some boost =>
          dsimp only [Option.bind_some]
          cases priorityParseNowOption { boost := boost } options with
          | none => exact Or.inl (refused _ (by simp))
          | some deadline =>
            dsimp only
            split
            · exact Or.inl (refused _ (by simp))
            · split
              · exact Or.inl (refused _ (by simp))
              · exact Or.inr ⟨_, rfl, _, rfl, rfl, rfl⟩
  | ordered =>
    show (∃ rc, rc ≠ .ok ∧ (orderedInit E options c).outcome = .error rc) ∨
      ∃ state, (orderedInit E options c).outcome = .ok state ∧ _
    unfold orderedInit
    split
    · exact Or.inl (refused _ (by simp))
    · cases splitConfigParseOptions splitConfigInit options with
      | none => exact Or.inl (refused _ (by simp))
      | some splitConfig =>
        cases orderConfigParseOptions orderConfigInit options with
        | error rc => exact Or.inl (refused _ (by simp))
        | ok order =>
          dsimp only
          split
          · exact Or.inl (refused _ (by simp))
          · split <;> split
            · exact Or.inl (refused _ (by simp))
            · exact Or.inr ⟨_, rfl, _, rfl, rfl, rfl⟩
            · exact Or.inl (refused _ (by simp))
            · exact Or.inr ⟨_, rfl, _, rfl, rfl, rfl⟩
  | roundRobin =>
    show (∃ rc, rc ≠ .ok ∧ (rrInit E options c).outcome = .error rc) ∨
      ∃ state, (rrInit E options c).outcome = .ok state ∧ _
    unfold rrInit
    split
    · exact Or.inl (refused _ (by simp))
    · split
      · exact Or.inl (refused _ (by simp))
      · split
        · exact Or.inl (refused _ (by simp))
        · cases splitConfigParseOptions splitConfigInit options with
          | none => exact Or.inl (refused _ (by simp))
          | some splitConfig => exact Or.inr ⟨_, rfl, _, rfl, rfl, rfl⟩

end Settings

/-! ## The records say it all -/

section Records

variable {H : HeapOps} {E : Env} {n : Builtin} {order : OrderConfig} {splitConfig : SplitConfig}
  {t : UInt64} {l : List TaskDesc}

/-- A policy with one queue is its reference over the waiting tasks. -/
theorem single_matches {π : BuiltinState n} (hπ : BuiltinInv True n t π l)
    (hset : settings ⟨n, π⟩ = (order, splitConfig)) (hkeys : .roundRobin ∉ order.keys) :
    BuiltinMatches t n π ⟨order, splitConfig, .queue l⟩ := by
  cases n with
  | fifo =>
    obtain ⟨rfl, rfl⟩ := Prod.mk.inj hset
    exact ⟨l, rfl, hπ⟩
  | priority =>
    obtain ⟨rfl, rfl⟩ := Prod.mk.inj hset
    exact ⟨l, rfl, hπ⟩
  | ordered =>
    obtain ⟨order', splitConfig', ready⟩ := π
    obtain ⟨hready, hthr⟩ : OrderedInv True t ⟨order', splitConfig', ready⟩ l := hπ
    obtain ⟨rfl, rfl⟩ := Prod.mk.inj hset
    cases hready with
    | flat keys ok => exact .queue keys hthr ok
    | grouped ring keys ok => exact absurd keys hkeys
  | roundRobin =>
    obtain ⟨rfl, rfl⟩ := Prod.mk.inj hset
    exact absurd (by simp [roundRobinFifo]) hkeys

/-- With memory the records are all taken in, in the order in which they were enqueued. -/
theorem replay_matches (hH : H.Lawful) (hE : Steady E t) {records : List TaskRecord}
    {π : BuiltinState n} (hπ : BuiltinMatches t n π ⟨order, splitConfig, .queue l⟩)
    (hnd : (taskIds (l ++ records.map TaskRecord.desc)).Nodup) (c : Cursor) :
    let r := replayQueued (builtinPlugins H) E n π records c
    r.rc = .ok ∧ BuiltinMatches t n r.state
      ⟨order, splitConfig, .queue (l ++ records.map TaskRecord.desc)⟩ := by
  induction records generalizing π l c with
  | nil =>
    rw [List.map_nil, List.append_nil]
    exact ⟨rfl, hπ⟩
  | cons record rest ih =>
    obtain ⟨hrc, hnext⟩ := (builtin_follows hH t n).submit record.desc c c hE hπ
    have hnew : record.desc.taskId ∉ taskIds l := by
      rw [List.map_cons, taskIds_append, taskIds_cons] at hnd
      exact fun h => (List.nodup_append.1 hnd).2.2 _ h _ List.mem_cons_self rfl
    have hreference : (referencePlugin n).onTaskSubmit E ⟨order, splitConfig, .queue l⟩ record.desc c =
        ⟨.ok, ⟨order, splitConfig, .queue (l ++ [record.desc])⟩, c⟩ := if_neg hnew
    rw [hreference] at hrc hnext
    dsimp only at hrc hnext ⊢
    unfold replayQueued
    dsimp only
    rw [if_neg (not_not.2 hrc), List.map_cons, List.append_cons]
    rw [List.map_cons, List.append_cons] at hnd
    exact ih hnext hnd _

end Records

/-! ## Setting a policy again -/

/-- Without a round_robin key there is one queue. -/
theorem referenceInit_queue {n : Builtin} {options : KvArray} {r : ReferenceState}
    (h : referenceInit n options = some r) (hkeys : .roundRobin ∉ r.order.keys) :
    r = ⟨r.order, r.splitConfig, .queue []⟩ := by
  obtain ⟨splitConfig, -, h⟩ := Option.bind_eq_some_iff.1 h
  obtain ⟨order, -, rfl⟩ := Option.map_eq_some_iff.1 h
  have hready : ReferenceReady.init order = .queue [] := if_neg hkeys
  rw [hready]

section Reset

variable {H : HeapOps} {E : Env} {n : Builtin} {t : UInt64} {s : Sched BuiltinState}

/-- Policies that follow the same reference answer every run alike. -/
theorem alike_replies (hH : H.Lawful) {s' : Sched BuiltinState} {t' : UInt64}
    (hs : Twins (Alike (BuiltinMatches t)) s s') {is : List (Env × Op Builtin)}
    (his : GoodRun Calm t is t') :
    replies (builtinPlugins H) s is = replies (builtinPlugins H) s' is := by
  have hrun : GoodRun (fun τ E t => τ ≤ t ∧ Steady E t) t is t' := his
  refine replies_timed (fun t => alike_lockstep (builtin_follows hH t) fun _ hE => hE.alloc)
    ?_ (Or.inl hs) hrun
  rintro τ t π π' hle ⟨n, s, s', r, hπ, hπ', hs, hs'⟩
  exact ⟨n, s, s', r, hπ, hπ', hs.mono hle, hs'.mono hle⟩

/-- Set on the same table the policy is the twin of the one that was there. -/
theorem setPolicy_again (hH : H.Lawful) (hE : Steady E t) (hs : Agreed (BuiltinInv True) t s)
    {options : List Kv} (hforce : Installed (InForceOf n (some options)) [n] s)
    (hkeys : ∀ r, referenceInit n (some options) = some r → .roundRobin ∉ r.order.keys) :
    let again := step (builtinPlugins H) s E (.setPolicy n (some options))
    again.rc = .ok ∧ Twins (Alike (BuiltinMatches t)) s again.sched := by
  obtain ⟨⟨n', π⟩, hpolicy, r, hr, rfl, hset⟩ := hforce.policy
  have hkeys := hkeys r hr
  have hholds := hs.holds
  rw [hpolicy] at hholds
  have hold : BuiltinMatches t n' π ⟨r.order, r.splitConfig, .queue (waiting s.tasks)⟩ :=
    single_matches hholds hset hkeys
  have hnd : (taskIds ([] ++ (taskTableQueued s.tasks).map TaskRecord.desc)).Nodup :=
    (builtin_policyInv hH True n').nodup hholds
  -- the plugin accepts the options that its reference accepts
  rcases (builtin_follows hH t n').init (some options) .start .start hE with
    ⟨rc, -, hno⟩ | ⟨π₀, r₀, hinit, href, hmatches⟩
  · simp [referencePlugin, hr] at hno
  · obtain rfl : r = r₀ := by simpa [referencePlugin, hr] using href
    rw [referenceInit_queue hr hkeys] at hmatches
    obtain ⟨hrc, hnew⟩ := replay_matches hH hE hmatches hnd
      ((builtinPlugins H n').init E (some options) .start).cursor
    have hagain : setPolicy (builtinPlugins H) E s n' (some options) .start =
        ⟨.ok, { s with policy := some ⟨n', (replayQueued (builtinPlugins H) E n' π₀
          (taskTableQueued s.tasks)
          ((builtinPlugins H n').init E (some options) .start).cursor).state⟩ }, none⟩ := by
      unfold setPolicy
      rw [if_neg (not_not.2 (hforce.loaded List.mem_cons_self)), if_neg (by simp)]
      dsimp only
      rw [hinit]
      dsimp only
      rw [if_neg (not_not.2 hrc)]
    show (setPolicy _ E s n' _ .start).rc = .ok ∧ Twins _ s (setPolicy _ E s n' _ .start).sched
    rw [hagain]
    exact ⟨rfl, _, _, ⟨n', π, _, _, rfl, rfl, hold, hnew⟩, hpolicy, rfl⟩

end Reset

/-- **A policy with one queue can be set again at any time.** Once it is set with options
that name no round_robin key, and after any operations but changes of the policy, in which
allocations may fail and the clock may run: to set it again with its options succeeds, and
no run of operations can tell whether this was done. -/
theorem reset_unobservable {H : HeapOps} (hH : H.Lawful) (metadata : KvArray) {n : Builtin}
    {options : List Kv} {before after : List (Env × Op Builtin)} {E₀ E : Env} {t t' t'' : UInt64}
    (hbefore : GoodRun Within 0 (before ++ (E₀, .setPolicy n (some options)) :: after) t)
    (hafter : ∀ i ∈ after, i.2.KeepsPolicy) (hle : t ≤ t') (hE : Steady E t')
    {is : List (Env × Op Builtin)} (his : GoodRun Calm t' is t'') :
    let P := builtinPlugins H
    let set := step P (builtinRun H metadata before) E₀ (.setPolicy n (some options))
    let s := run (nextState P) set.sched after
    let again := step P s E (.setPolicy n (some options))
    set.rc = .ok → (∀ order ∈ referenceOrder n (some options), .roundRobin ∉ order.keys) →
      again.rc = .ok ∧ replies P again.sched is = replies P s is := by
  intro P set s again hset hkeys
  have hagreed : Agreed (BuiltinInv True) t s := by
    have hfresh := builtinRun_fresh hH metadata hbefore
    rw [builtinRun, run_append] at hfresh
    exact hfresh
  have hnow : Agreed (BuiltinInv True) t' s :=
    hagreed.mono (fun n => builtin_policyInv hH True n) fun _ => hE.within hle
  have hforce : Installed (InForceOf n (some options)) [n] s :=
    run_installed inForceOf_kept
      (setPolicy_installed inForceOf_kept (init_settings H E₀ n (some options) .start) hset) hafter
  have hqueue : ∀ r, referenceInit n (some options) = some r → .roundRobin ∉ r.order.keys := by
    intro r hr
    obtain ⟨splitConfig, -, hr⟩ := Option.bind_eq_some_iff.1 hr
    obtain ⟨order, horder, rfl⟩ := Option.map_eq_some_iff.1 hr
    exact hkeys order horder
  obtain ⟨hrc, htwins⟩ := setPolicy_again hH hE hnow hforce hqueue
  exact ⟨hrc, (alike_replies hH htwins his).symm⟩

/-- Three tasks arrive, one is handed out and one becomes more important. -/
def someHistory : List (Env × Op Builtin) :=
  [(.still 0, .submitTask { taskId := 1, priority := 5 } {}),
    (.still 0, .submitTask { taskId := 2, deadlineNs := 210, estimatedRuntimeNs := 100 } {}),
    (.still 0, .submitTask { taskId := 3, priority := 9 } {}), (.still 0, .selectNext),
    (.still 0, .taskUpdatePriority 1 7)]

/-- Set again between its thresholds, the policy goes on as before. -/
theorem reset_unobservable_someHistory :
    let P := builtinPlugins binaryHeap
    let options := some [⟨optDeadlineBoostEnable, .u64 1⟩]
    let set := step P (builtinRun binaryHeap (some []) [(.still 0, .loadPlugin .priority true)])
      (.still 0) (.setPolicy .priority options)
    let s := run (nextState P) set.sched someHistory
    let again := step P s (.still 120) (.setPolicy .priority options)
    let selections := [(.still 120, .selectNext), (.still 130, .selectNext)]
    again.rc = .ok ∧ ((replies P s selections).filterMap fun reply =>
        reply.2.map Assignment.taskId) = [2, 1] ∧
      replies P again.sched selections = replies P s selections := by
  intro P options set s again selections
  have hstill : ∀ i ∈ (Env.still 0, Op.loadPlugin Builtin.priority true) ::
      (Env.still 0, Op.setPolicy Builtin.priority options) :: someHistory, i.1 = Env.still 0 := by
    simp [someHistory]
  have hbefore : GoodRun Within 0 ([(.still 0, .loadPlugin .priority true)] ++
      (.still 0, .setPolicy .priority options) :: someHistory) 0 := by
    refine goodRun_of_forall fun i hi => ?_
    rw [hstill i hi]
    exact ⟨fun _ => UInt64.le_refl 0, fun _ => UInt64.le_refl 0⟩
  have hafter : ∀ i ∈ someHistory, i.2.KeepsPolicy := by
    simp [someHistory, Op.KeepsPolicy]
  have hrun : GoodRun Calm 120 selections 130 :=
    ⟨120, calm_still (by decide) (by decide), 130, calm_still (by decide) (by decide), rfl⟩
  have hE : Steady (.still 120) 120 := ⟨fun _ => rfl, fun _ => rfl, by decide⟩
  have h := reset_unobservable binaryHeap_lawful (some []) hbefore hafter (by decide) hE hrun
    (by decide +kernel) (by decide +kernel)
  exact ⟨h.1, by decide +kernel, h.2⟩

end QhwScheduler
