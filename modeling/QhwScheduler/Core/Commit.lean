import QhwScheduler.Core.Lifecycle
import QhwScheduler.Core.Slices
import QhwScheduler.Foundations.Exact

/-!
# Submissions in two phases

A submission gives the lock back while its callbacks run.  What it enters in its
second critical section is judged by the configuration that is in force then.

* `shotLimit`, `shotThreshold` — the bounds on the shots of a task.
* `FitsWhole`, `FitsSliced` — a task that may enter as it is, and one that enters
  with its slices.
* `Committed` — what one commit does to the ledger.
* `InFlight`, `flightNext` — a scheduler with the plans of the submissions that
  are between their two sections, interleaved with other calls.
* `two_phase_safe` — every commit of every run is safe, and no id enters twice.
-/

namespace QhwScheduler

open Foundations

variable {ν : Type} {σ : ν → Type}

/-! ## The bounds in force -/

/-- The shots the QPU takes at most; zero is no limit. -/
def qpuShotLimit (qpuMetadata : KvArray) : UInt64 :=
  (metadataGetU64 qpuMetadata metaMaxShots).getD 0

/-- The limit on the shots of one task, by the policy and by the QPU. -/
def shotLimit (config : SplitConfig) (qpuMetadata : KvArray) : UInt64 :=
  minNonzero config.maxShots (qpuShotLimit qpuMetadata)

/-- The shots up to which a task is not split. -/
def shotThreshold (config : SplitConfig) (qpuMetadata : KvArray) : UInt64 :=
  let limit := shotLimit config qpuMetadata
  if config.shotThreshold = 0 ∨ config.shotThreshold > limit then limit else config.shotThreshold

/-- The configuration a policy answers with. -/
def configInForce (P : ∀ n, PluginDesc (σ n)) (s : Sched σ) : SplitConfig :=
  (getPolicySplitConfig P s).2.1

/-- If there is a limit and the task carries shots, they are within the
threshold. -/
def FitsWhole (config : SplitConfig) (qpuMetadata : KvArray) (task : TaskDesc) : Prop :=
  config.maxShots ≠ 0 ∨ qpuShotLimit qpuMetadata ≠ 0 →
    ∀ shots, metadataGetU64 task.metadata metaShots = some shots →
      shots ≤ shotThreshold config qpuMetadata

/-- The configuration demands a split of the task, this one. -/
structure Demands (config : SplitConfig) (qpuMetadata : KvArray) (task : TaskDesc)
    (planned : SplitConfig) : Prop where
  requested : metadataGetU64 task.metadata metaShots = some planned.requestedShots
  above : shotThreshold config qpuMetadata < planned.requestedShots
  limit : planned.sliceShots = shotLimit config qpuMetadata
  count : planned.sliceCount.toNat =
    (planned.requestedShots.toNat + planned.sliceShots.toNat - 1) / planned.sliceShots.toNat
  count_le : config.maxChildren ≠ 0 → planned.sliceCount ≤ config.maxChildren

/-- The configuration demands the split that was planned, and the slices are a
valid answer to it. -/
structure FitsSliced (config : SplitConfig) (L : Ledger) (task : TaskDesc)
    (planned : SplitConfig) (children : List TaskDesc) : Prop where
  demands : Demands config L.qpu.metadata task planned
  valid : ChildrenValid L.tasks task planned children
  count_le : config.maxChildren ≠ 0 → children.length ≤ config.maxChildren.toNat
  shots : ∀ d ∈ children, 1 ≤ shotsOf d ∧ shotsOf d ≤ (shotLimit config L.qpu.metadata).toNat
  total : (children.map shotsOf).sum = shotsOf task

theorem Demands.fits {config planned : SplitConfig} {L : Ledger} {task : TaskDesc}
    {children : List TaskDesc} (h : Demands config L.qpu.metadata task planned)
    (hvalid : ChildrenValid L.tasks task planned children) :
    FitsSliced config L task planned children where
  demands := h
  valid := hvalid
  count_le hne := by
    rw [hvalid.length]
    exact UInt64.le_iff_toNat_le.1 (h.count_le hne)
  shots d hd := by
    rw [← h.limit]
    exact hvalid.shots d hd
  total := by
    rw [hvalid.total, shotsOf, h.requested, Option.getD_some]

theorem minNonzero_ne_zero {a b : UInt64} : minNonzero a b ≠ 0 ↔ a ≠ 0 ∨ b ≠ 0 := by
  unfold minNonzero
  split
  · next ha => simp [ha]
  · next ha =>
    split
    · next hb => simp [ha, hb]
    · next hb => split <;> simp [ha, hb]

/-- The slices needed are the shots divided by the limit, rounded up. -/
theorem slices_toNat (requested : UInt64) {limit : UInt64} (hlimit : limit ≠ 0) :
    (if requested % limit ≠ 0 then requested / limit + 1 else requested / limit).toNat =
      (requested.toNat + limit.toNat - 1) / limit.toNat := by
  have hpos := toNat_pos hlimit
  have hlt := requested.toNat_lt
  have hrem : requested.toNat % limit.toNat ≠ 0 ↔ requested % limit ≠ 0 := by
    rw [← UInt64.toNat_mod, ← UInt64.toNat_zero, ne_eq, UInt64.toNat_inj]
  rw [← Nat.ceilDiv_eq_add_pred_div, ceilDiv_eq_ite _ hpos]
  by_cases hne : requested % limit ≠ 0
  · -- a remainder needs a divisor of at least two, so the quotient is not the largest number
    have hquot : requested.toNat / limit.toNat ≤ requested.toNat / 2 := by
      refine Nat.div_le_div_left ?_ (by omega)
      by_contra hone
      have : limit.toNat = 1 := by omega
      exact hrem.2 hne (this ▸ Nat.mod_one _)
    rw [if_pos hne, if_pos (hrem.2 hne), UInt64.toNat_add, UInt64.toNat_div, UInt64.toNat_one,
      Nat.mod_eq_of_lt (by omega)]
  · rw [if_neg hne, if_neg fun h => hne (hrem.1 h), UInt64.toNat_div]

theorem threshold_eq (config : SplitConfig) (qpuMetadata : KvArray) :
    (if (if config.shotThreshold = 0 then shotLimit config qpuMetadata
        else config.shotThreshold) = 0 ∨
        (if config.shotThreshold = 0 then shotLimit config qpuMetadata
          else config.shotThreshold) > shotLimit config qpuMetadata then
        shotLimit config qpuMetadata
      else if config.shotThreshold = 0 then shotLimit config qpuMetadata
        else config.shotThreshold) = shotThreshold config qpuMetadata := by
  unfold shotThreshold
  by_cases h0 : config.shotThreshold = 0
  · simp [h0]
  · simp [h0]

/-- What the decision says of the bounds. -/
theorem splitDecision_spec {config : SplitConfig} {qpuMetadata : KvArray} {b : Bool}
    {task : TaskDesc} (hrc : (splitDecision config qpuMetadata b task).rc = .ok) :
    let d := splitDecision config qpuMetadata b task
    (d.shouldSplit = false ∧ FitsWhole config qpuMetadata task) ∨
      (d.shouldSplit = true ∧ Demands config qpuMetadata task d.config) := by
  dsimp only
  unfold splitDecision at hrc ⊢
  split
  · next hnone => exact Or.inl ⟨rfl, fun _ shots hshots => by simp [hnone] at hshots⟩
  · next requested hsome =>
    simp only [hsome] at hrc
    dsimp only at hrc ⊢
    have hlimit : minNonzero config.maxShots ((metadataGetU64 qpuMetadata metaMaxShots).getD 0) =
        shotLimit config qpuMetadata := rfl
    rw [hlimit] at hrc ⊢
    by_cases h0 : shotLimit config qpuMetadata = 0
    · rw [if_pos h0]
      refine Or.inl ⟨rfl, fun hset => ?_⟩
      exact absurd h0 (minNonzero_ne_zero.2 hset)
    · rw [if_neg h0] at hrc ⊢
      rw [threshold_eq] at hrc ⊢
      by_cases hle : requested ≤ shotThreshold config qpuMetadata
      · rw [if_pos hle]
        refine Or.inl ⟨rfl, fun _ shots hshots => ?_⟩
        exact Option.some.inj (hsome.symm.trans hshots) ▸ hle
      · rw [if_neg hle] at hrc ⊢
        have hcount := slices_toNat requested h0
        generalize (if requested % shotLimit config qpuMetadata ≠ 0 then
          requested / shotLimit config qpuMetadata + 1
          else requested / shotLimit config qpuMetadata) = n at hrc hcount ⊢
        by_cases hmax : config.maxChildren ≠ 0 ∧ n > config.maxChildren
        · rw [if_pos hmax] at hrc
          simp at hrc
        rw [if_neg hmax] at hrc ⊢
        by_cases hsize : n > u64Max
        · simp [hsize] at hrc
        rw [if_neg hsize] at hrc ⊢
        cases b with
        | false => simp at hrc
        | true =>
          refine Or.inr ⟨rfl, hsome, UInt64.not_le.1 hle, rfl, hcount, fun hne => ?_⟩
          exact UInt64.not_lt.1 fun hlt => hmax ⟨hne, hlt⟩

/-! ## Commits -/

/-- What a commit enters under a configuration: the task with the cost estimated
for it, or the task with its slices as they were planned. -/
inductive Committed (config : SplitConfig) (L : Ledger) (task : TaskDesc) :
    Option SplitConfig → Ledger → List TaskDesc → Prop
  | whole (cost : UInt64) (seq : ℕ) (fits : FitsWhole config L.qpu.metadata task)
      (allowed : Event.Allowed L (.accept { task with estimatedCost := cost } seq)) :
      Committed config L task none
        (Event.apply L (.accept { task with estimatedCost := cost } seq))
        [{ task with estimatedCost := cost }]
  | sliced (planned : SplitConfig) (children : List TaskDesc) (seq : ℕ)
      (fits : FitsSliced config L task planned children)
      (allowed : Event.Allowed L (.acceptSplit task children seq)) :
      Committed config L task (some planned) (Event.apply L (.acceptSplit task children seq))
        (task :: children)

/-- The task a plan is for. -/
def SubmitPlan.task : SubmitPlan → TaskDesc
  | .estimate task => task
  | .split task .. => task

/-- The configuration a split was planned with. -/
def SubmitPlan.planned : SubmitPlan → Option SplitConfig
  | .estimate _ => none
  | .split _ config .. => some config

/-- The ids a plan enters, with these answers of the callbacks. -/
def SubmitPlan.ids (answers : CallbackAnswers) : SubmitPlan → List TaskId
  | .estimate task => [task.taskId]
  | .split task _ children _ => task.taskId :: taskIds (children.mapIdx answers.slice)

/-- A split is planned for the shots the task carries. -/
def SubmitPlan.Consistent : SubmitPlan → Prop
  | .estimate _ => True
  | .split task config .. => metadataGetU64 task.metadata metaShots = some config.requestedShots

section Sections

variable {P : ∀ n, PluginDesc (σ n)} {E : Env} {s : Sched σ} {task : TaskDesc} {c : Cursor}

theorem getPolicySplitConfig_frame (s : Sched σ) :
    ∃ policy, (getPolicySplitConfig P s).2.2 = { s with policy := policy } := by
  unfold getPolicySplitConfig
  split
  · exact ⟨s.policy, rfl⟩
  · exact ⟨_, rfl⟩

/-- The decision is made with the configuration in force. -/
theorem computeSplitConfig_eq (hrc : (computeSplitConfig P s task).1.rc = .ok) :
    (computeSplitConfig P s task).1 =
      splitDecision (configInForce P s) s.qpu.metadata s.callbacks.splitTask task := by
  obtain ⟨policy, hframe⟩ := getPolicySplitConfig_frame (P := P) s
  unfold computeSplitConfig at hrc ⊢
  unfold configInForce
  generalize getPolicySplitConfig P s = answer at hrc hframe ⊢
  obtain ⟨rc, config, s'⟩ := answer
  obtain rfl : s' = { s with policy := policy } := hframe
  cases rc <;> first | rfl | simp at hrc

/-- A decision made without error, by the bounds in force. -/
theorem computeSplitConfig_spec (hrc : (computeSplitConfig P s task).1.rc = .ok) :
    let d := (computeSplitConfig P s task).1
    (d.shouldSplit = false ∧ FitsWhole (configInForce P s) s.qpu.metadata task) ∨
      (d.shouldSplit = true ∧ Demands (configInForce P s) s.qpu.metadata task d.config) := by
  have heq := computeSplitConfig_eq hrc
  rw [heq] at hrc
  rw [heq]
  exact splitDecision_spec hrc

theorem estimateTaskCost_ok {b : Bool} {answers : CallbackAnswers} {k : ℕ} {estimated : TaskDesc}
    (h : estimateTaskCost b answers k task = .ok estimated) :
    ∃ cost, estimated = { task with estimatedCost := cost } := by
  unfold estimateTaskCost at h
  split at h
  · split at h
    · simp at h
    · split at h
      · simp at h
      · exact ⟨_, (Except.ok.inj h).symm⟩
  · exact ⟨_, (Except.ok.inj h).symm⟩

/-- The estimates change nothing else of the slices. -/
theorem estimateChildCosts_ids {b : Bool} {answers : CallbackAnswers} {k : ℕ}
    {children estimated : List TaskDesc}
    (h : estimateChildCosts b answers k children = .ok estimated) :
    taskIds estimated = taskIds children := by
  induction children generalizing k estimated with
  | nil =>
    obtain rfl := Except.ok.inj h
    rfl
  | cons d ds ih =>
    rw [estimateChildCosts] at h
    split at h
    · simp at h
    · next d' hd =>
      split at h
      · simp at h
      · next ds' hds =>
        obtain rfl := Except.ok.inj h
        obtain ⟨cost, rfl⟩ := estimateTaskCost_ok hd
        rw [taskIds_cons, taskIds_cons, ih hds]

/-- A task that enters unsplit is within the bounds of the decision just made. -/
theorem enqueueTaskLocked_committed {config : SplitConfig} {estimated : TaskDesc} {cost : UInt64}
    (hok : s.tasks.Ok) (hest : estimated = { task with estimatedCost := cost })
    (hfits : FitsWhole config s.qpu.metadata task)
    (hrc : (enqueueTaskLocked P E s estimated c).rc = .ok) :
    Committed config s.ledger task none (enqueueTaskLocked P E s estimated c).sched.ledger
      [estimated] := by
  subst hest
  obtain ⟨-, ⟨-, hnew, hid, hled⟩ | ⟨hne, -⟩⟩ :=
    enqueueTaskLocked_spec P E { task with estimatedCost := cost } c hok
  · rw [hled]
    exact .whole cost s.enqueueSeqNext hfits ⟨hnew, hid⟩
  · exact absurd hrc hne

/-- **The first section**, when it is the only one. -/
theorem submitPrepare_committed (hok : s.tasks.Ok) (hplan : (submitPrepare P E s task c).plan = none)
    (hrc : (submitPrepare P E s task c).rc = .ok) :
    ∃ entered, taskIds entered = [task.taskId] ∧
      Committed (configInForce P s) s.ledger task none (submitPrepare P E s task c).sched.ledger
        entered := by
  have hspec := @computeSplitConfig_spec _ _ P s task
  have hled := computeSplitConfig_ledger (P := P) s task
  unfold submitPrepare at hplan hrc ⊢
  split at hrc
  · simp at hrc
  · next hnew =>
    rw [if_neg hnew] at hplan ⊢
    generalize computeSplitConfig P s task = answer at hplan hrc hspec hled ⊢
    obtain ⟨d, s'⟩ := answer
    dsimp only at hplan hrc hspec hled ⊢
    split at hrc
    · next hne => exact absurd hrc hne
    · next hdec =>
      rw [if_neg hdec] at hplan ⊢
      have hspec := hspec (not_not.1 hdec)
      split at hrc
      · next hwhole =>
        rw [if_pos hwhole] at hplan ⊢
        have hfits : FitsWhole (configInForce P s) s.qpu.metadata task := by
          rcases hspec with ⟨-, hfits⟩ | ⟨hsplit, -⟩
          · exact hfits
          · simp [hsplit] at hwhole
        split at hrc
        · next hcall =>
          rw [if_pos hcall] at hplan
          simp at hplan
        · next hcall =>
          rw [if_neg hcall]
          split at hrc
          · next rc hest => exact absurd hrc (estimateTaskCost_error hest)
          · next estimated hest =>
            obtain ⟨cost, hcost⟩ := estimateTaskCost_ok hest
            have hqpu : s'.qpu = s.qpu := congrArg Ledger.qpu hled
            refine ⟨[estimated], by rw [hcost]; rfl, ?_⟩
            rw [← hled]
            exact enqueueTaskLocked_committed (ok_of_ledger hled hok) hcost (hqpu ▸ hfits) hrc
      · next hsplit =>
        rw [if_neg hsplit] at hplan
        split at hrc
        · simp at hrc
        · next hsize =>
          rw [if_neg hsize] at hplan
          split at hrc
          · simp at hrc
          · next halloc =>
            rw [if_neg halloc] at hplan
            simp at hplan

/-- A plan the first section leaves is for its task, and for the task's shots. -/
theorem submitPrepare_plan {plan : SubmitPlan}
    (hplan : (submitPrepare P E s task c).plan = some plan) :
    plan.task = task ∧ plan.Consistent := by
  have hspec := @computeSplitConfig_spec _ _ P s task
  unfold submitPrepare at hplan
  split at hplan
  · simp at hplan
  · generalize computeSplitConfig P s task = answer at hplan hspec
    obtain ⟨d, s'⟩ := answer
    dsimp only at hplan hspec
    split at hplan
    · simp at hplan
    · next hdec =>
      have hspec := hspec (not_not.1 hdec)
      split at hplan
      · split at hplan
        · obtain rfl := Option.some.inj hplan
          exact ⟨rfl, trivial⟩
        · split at hplan <;> simp [StepResult.prepared] at hplan
      · next hsplit =>
        split at hplan
        · simp at hplan
        · split at hplan
          · simp at hplan
          · obtain rfl := Option.some.inj hplan
            rcases hspec with ⟨hwhole, -⟩ | ⟨-, hdemands⟩
            · simp [hwhole] at hsplit
            · exact ⟨rfl, hdemands.requested⟩

/-- **The second section** judges the plan by the configuration it finds. -/
theorem submitFinish_committed {plan : SubmitPlan} {answers : CallbackAnswers} (hok : s.tasks.Ok)
    (hplan : plan.Consistent) (hrc : (submitFinish P E s plan answers c).rc = .ok) :
    ∃ entered, taskIds entered = plan.ids answers ∧
      Committed (configInForce P s) s.ledger plan.task plan.planned
        (submitFinish P E s plan answers c).sched.ledger entered := by
  have hspec := fun task => @computeSplitConfig_spec _ _ P s task
  have hled := computeSplitConfig_ledger (P := P) s
  unfold submitFinish at hrc ⊢
  cases plan with
  | estimate task =>
    dsimp only at hrc ⊢
    split at hrc
    · next rc hest => exact absurd hrc (estimateTaskCost_error hest)
    · next estimated hest =>
      obtain ⟨cost, hcost⟩ := estimateTaskCost_ok hest
      have hspec := hspec task
      have hled := hled task
      split at hrc
      · simp at hrc
      · next hnew =>
        rw [if_neg hnew]
        generalize computeSplitConfig P s task = answer at hrc hspec hled ⊢
        obtain ⟨d, s'⟩ := answer
        dsimp only at hrc hspec hled ⊢
        split at hrc
        · next hne => exact absurd hrc hne
        · next hdec =>
          rw [if_neg hdec]
          split at hrc
          · simp at hrc
          · next hwhole =>
            rw [if_neg hwhole]
            have hfits : FitsWhole (configInForce P s) s.qpu.metadata task := by
              rcases hspec (not_not.1 hdec) with ⟨-, hfits⟩ | ⟨hsplit, -⟩
              · exact hfits
              · exact absurd hsplit hwhole
            have hqpu : s'.qpu = s.qpu := congrArg Ledger.qpu hled
            refine ⟨[estimated], by rw [hcost]; rfl, ?_⟩
            rw [← hled]
            exact enqueueTaskLocked_committed (ok_of_ledger hled hok) hcost (hqpu ▸ hfits) hrc
  | split task planned children hasEstimateCost =>
    dsimp only at hrc ⊢
    split at hrc
    · next hne => exact absurd hrc hne
    · next hcall =>
      rw [if_neg hcall]
      split at hrc
      · next rc hest => exact absurd hrc (estimateChildCosts_error hest)
      · next estimated hest =>
        have hspec := hspec task
        have hled := hled task
        have hpos := @computeSplitConfig_sliceCount _ _ P s task
        split at hrc
        · simp at hrc
        · next hnew =>
          rw [if_neg hnew]
          generalize computeSplitConfig P s task = answer at hrc hspec hled hpos ⊢
          obtain ⟨d, s'⟩ := answer
          dsimp only at hrc hspec hled hpos ⊢
          split at hrc
          · next hne => exact absurd hrc hne
          · next hdec =>
            rw [if_neg hdec]
            split at hrc
            · simp at hrc
            · next hsame =>
              rw [if_neg hsame]
              simp only [not_or, Bool.not_eq_true, not_not, Bool.not_eq_false'] at hsame
              obtain ⟨hsplit, hcount, hlimit⟩ := hsame
              split at hrc
              · next hne => exact absurd hrc hne
              · next hchecked =>
                rw [if_neg hchecked]
                have hchecked := not_not.1 hchecked
                have hvalid := validateChildTasks_valid hchecked
                obtain ⟨hfresh, hlen⟩ := validateChildTasks_fresh hchecked
                have hne : estimated ≠ [] := by
                  have hpos := hpos (by simpa using hsplit)
                  rw [hcount, ← hlen] at hpos
                  exact List.length_pos_iff.1 hpos
                have hdemands : Demands (configInForce P s) s.qpu.metadata task planned := by
                  rcases hspec (not_not.1 hdec) with ⟨hwhole, -⟩ | ⟨-, h⟩
                  · simp [hwhole] at hsplit
                  · have hshots := Option.some.inj (h.requested.symm.trans hplan)
                    refine ⟨hplan, hshots ▸ h.above, hlimit ▸ h.limit, ?_, hcount ▸ h.count_le⟩
                    rw [← hcount, ← hlimit, ← hshots]
                    exact h.count
                refine ⟨task :: estimated, ?_, ?_⟩
                · rw [taskIds_cons, estimateChildCosts_ids hest, SubmitPlan.ids]
                · rw [← hled]
                  obtain ⟨-, hnew, hid, hafter⟩ | ⟨hbad, -⟩ :=
                    submitSplitTaskLocked_spec P E task estimated
                      (validateChildTasks E s'.tasks task estimated planned c).2
                      (ok_of_ledger hled hok)
                  · rw [hafter]
                    refine .sliced planned estimated s'.enqueueSeqNext (Demands.fits ?_ hvalid)
                      ⟨hnew, hid, hfresh, hne⟩
                    rw [hled]
                    exact hdemands
                  · exact absurd hrc hbad

/-- A submission without anything in between commits as well: in its first section, or by
its plan in the second one. -/
theorem submitTask_committed {answers : CallbackAnswers} (hok : s.tasks.Ok)
    (hrc : (submitTask P E s task answers c).rc = .ok) :
    ((submitPrepare P E s task c).plan = none ∧
      ∃ entered, Committed (configInForce P s) s.ledger task none
        (submitTask P E s task answers c).sched.ledger entered) ∨
    ∃ plan, (submitPrepare P E s task c).plan = some plan ∧
      ∃ entered, Committed (configInForce P (submitPrepare P E s task c).sched) s.ledger task
        plan.planned (submitTask P E s task answers c).sched.ledger entered := by
  have hprep := submitPrepare_submitted P E task c hok
  have hplanned := fun plan => @submitPrepare_plan _ _ P E s task c plan
  have hcommit := @submitPrepare_committed _ _ P E s task c hok
  unfold submitTask at hrc ⊢
  generalize submitPrepare P E s task c = p at hrc hprep hplanned hcommit ⊢
  obtain ⟨rc, s', c', plan⟩ := p
  cases plan with
  | none =>
    obtain ⟨entered, -, h⟩ := hcommit rfl hrc
    exact Or.inl ⟨rfl, entered, h⟩
  | some plan =>
    obtain ⟨htask, hconsistent⟩ := hplanned plan rfl
    have hled : s'.ledger = s.ledger := by
      rcases hprep with ⟨hnone, -⟩ | ⟨-, hled⟩
      · simp at hnone
      · exact hled
    obtain ⟨entered, -, h⟩ := submitFinish_committed (ok_of_ledger hled hok) hconsistent hrc
    rw [hled, htask] at h
    exact Or.inr ⟨plan, rfl, entered, h⟩

end Sections

/-! ## Interleaving -/

deriving instance DecidableEq for SubmitPlan

/-- A scheduler with the submissions that are between their two sections, and
the ids entered so far, in the order of their commits. -/
structure InFlight (σ : ν → Type) where
  sched : Sched σ
  pending : List SubmitPlan
  accepted : List TaskId

/-- A new scheduler. -/
def flightCreate (qpu : Qpu) : InFlight σ := ⟨schedCreate qpu, [], []⟩

/-- The operation is a submission or one of its sections. -/
def Op.Submits : Op ν → Prop
  | .submitTask .. | .submitBegin _ | .submitEnd .. => True
  | _ => False

/-- What a thread can do next: enter a submission, come back from its callbacks
with a plan, or call something else. -/
inductive FlightOp (ν : Type) where
  | enter (task : TaskDesc)
  | commit (plan : SubmitPlan) (answers : CallbackAnswers)
  | call (op : Op ν) (other : ¬ op.Submits)

section Flight

variable [DecidableEq ν] (P : ∀ n, PluginDesc (σ n))

/-- One section.  Only a plan that a first section left can be committed, once. -/
def flightNext (w : InFlight σ) (i : Env × FlightOp ν) : InFlight σ :=
  match i.2 with
  | .enter task =>
    let p := submitPrepare P i.1 w.sched task .start
    ⟨p.sched, p.plan.toList ++ w.pending,
      if p.plan = none ∧ p.rc = .ok then w.accepted ++ [task.taskId] else w.accepted⟩
  | .commit plan answers =>
    if plan ∈ w.pending then
      let r := submitFinish P i.1 w.sched plan answers .start
      ⟨r.sched, w.pending.erase plan,
        if r.rc = .ok then w.accepted ++ plan.ids answers else w.accepted⟩
    else w
  | .call op _ => ⟨(step P w.sched i.1 op).sched, w.pending, w.accepted⟩

/-- A section that commits does so within the bounds in force at that moment; any
other enters nothing. -/
def CommitSafe (w : InFlight σ) (i : Env × FlightOp ν) : Prop :=
  let w' := flightNext P w i
  let config := configInForce P w.sched
  match i.2 with
  | .enter task =>
    let p := submitPrepare P i.1 w.sched task .start
    if p.plan = none ∧ p.rc = .ok then
      ∃ entered, taskIds entered = [task.taskId] ∧
        Committed config w.sched.ledger task none w'.sched.ledger entered
    else w'.sched.ledger = w.sched.ledger
  | .commit plan answers =>
    if plan ∈ w.pending ∧ (submitFinish P i.1 w.sched plan answers .start).rc = .ok then
      ∃ entered, taskIds entered = plan.ids answers ∧
        Committed config w.sched.ledger plan.task plan.planned w'.sched.ledger entered
    else w'.sched.ledger = w.sched.ledger
  | .call _ _ => w'.sched.tasks.enqueueOrder = w.sched.tasks.enqueueOrder

/-- The invariant of the interleavings: the pending plans are consistent, and the
table lists exactly the accepted ids. -/
structure FlightInv (w : InFlight σ) : Prop where
  ok : w.sched.tasks.Ok
  consistent : ∀ plan ∈ w.pending, plan.Consistent
  accepted : w.accepted = w.sched.tasks.enqueueOrder

end Flight

theorem Committed.order {config : SplitConfig} {L L' : Ledger} {task : TaskDesc}
    {planned : Option SplitConfig} {entered : List TaskDesc}
    (h : Committed config L task planned L' entered) :
    L'.tasks.enqueueOrder = L.tasks.enqueueOrder ++ taskIds entered := by
  cases h with
  | whole cost seq fits allowed => rfl
  | sliced planned children seq fits allowed =>
    rw [Event.apply, acceptAll_order, order_insert, List.append_assoc]
    rfl

theorem Committed.ok {config : SplitConfig} {L L' : Ledger} {task : TaskDesc}
    {planned : Option SplitConfig} {entered : List TaskDesc}
    (h : Committed config L task planned L' entered) (hok : L.tasks.Ok) : L'.tasks.Ok := by
  cases h with
  | whole cost seq fits allowed => exact Event.ok_apply hok allowed
  | sliced planned children seq fits allowed => exact Event.ok_apply hok allowed

/-- A commit enters its task. -/
theorem Committed.enters {config : SplitConfig} {L L' : Ledger} {task : TaskDesc}
    {planned : Option SplitConfig} {entered : List TaskDesc}
    (h : Committed config L task planned L' entered) :
    taskTableFind L.tasks task.taskId = none ∧
      (taskTableFind L'.tasks task.taskId).isSome := by
  cases h with
  | whole cost seq fits allowed =>
    refine ⟨allowed.1, ?_⟩
    simp [Event.apply, Ledger.accept]
  | sliced planned children seq fits allowed =>
    refine ⟨allowed.1, ?_⟩
    rw [Event.apply, acceptAll_find_of_not_mem]
    · simp [parentRecord]
    · rw [List.mem_map]
      rintro ⟨d, hd, hid⟩
      exact fits.valid.not_parent d hd hid

theorem updateParent_order {table : TaskTable} {child : TaskRecord} {state : TaskState} :
    (updateParentAfterChildLocked table child state).enqueueOrder = table.enqueueOrder := by
  unfold updateParentAfterChildLocked
  split
  · rfl
  · split
    · rfl
    · split <;> rfl

/-- Only submissions enter tasks. -/
theorem Event.order_apply {L : Ledger} {e : Event} (he : ¬ e.Entry) :
    (e.apply L).tasks.enqueueOrder = L.tasks.enqueueOrder := by
  have hon : ∀ id f, (∀ r, taskTableFind L.tasks id = some r →
      (f r).tasks.enqueueOrder = L.tasks.enqueueOrder) →
      (L.on id f).tasks.enqueueOrder = L.tasks.enqueueOrder := by
    intro id f hf
    unfold Ledger.on
    split
    · rfl
    · next r hr => exact hf r hr
  cases e with
  | idle => rfl
  | accept task seq => exact absurd trivial he
  | acceptSplit parent children seq => exact absurd trivial he
  | assign id => exact hon id _ fun _ _ => rfl
  | reprioritize id priority => exact hon id _ fun _ _ => rfl
  | start id => exact hon id _ fun _ _ => rfl
  | finish id state =>
    refine hon id _ fun r _ => ?_
    rw [updateParent_order]
    rfl

theorem Op.entry_submits {op : Op ν} {e : Event} (he : e.Entry) (hby : Event.By op e) :
    op.Submits := by
  cases e <;> first | exact he.elim | (cases op <;> trivial)

/-! ## Runs -/

section Runs

variable {P : ∀ n, PluginDesc (σ n)} {w : InFlight σ}

/-- A commit adds its ids to the accepted ones, and to the table. -/
theorem FlightInv.commit {w' : InFlight σ} {config : SplitConfig} {task : TaskDesc}
    {planned : Option SplitConfig} {entered : List TaskDesc} (h : FlightInv w)
    (hcommit : Committed config w.sched.ledger task planned w'.sched.ledger entered)
    (hpending : ∀ plan ∈ w'.pending, plan.Consistent)
    (haccepted : w'.accepted = w.accepted ++ taskIds entered) : FlightInv w' where
  ok := ok_of_ledger rfl (hcommit.ok h.ok)
  consistent := hpending
  accepted := by
    rw [haccepted, h.accepted]
    exact hcommit.order.symm

/-- A section that fails leaves table and accepted ids alone. -/
theorem FlightInv.frame {w' : InFlight σ} (h : FlightInv w)
    (hled : w'.sched.ledger = w.sched.ledger) (hpending : ∀ plan ∈ w'.pending, plan.Consistent)
    (haccepted : w'.accepted = w.accepted) : FlightInv w' where
  ok := ok_of_ledger hled h.ok
  consistent := hpending
  accepted := by
    rw [haccepted, h.accepted]
    exact congrArg (fun L : Ledger => L.tasks.enqueueOrder) hled.symm

/-- **One section** is safe and keeps the invariant. -/
theorem FlightInv.next [DecidableEq ν] (h : FlightInv w) (i : Env × FlightOp ν) :
    CommitSafe P w i ∧ FlightInv (flightNext P w i) := by
  obtain ⟨E, op⟩ := i
  cases op with
  | enter task =>
    have hpending : ∀ plan ∈ (flightNext P w (E, .enter task)).pending, plan.Consistent := by
      intro plan hp
      rcases List.mem_append.1 hp with hp | hp
      · exact (submitPrepare_plan (Option.mem_toList.1 hp)).2
      · exact h.consistent plan hp
    by_cases hcommits : (submitPrepare P E w.sched task .start).plan = none ∧
        (submitPrepare P E w.sched task .start).rc = .ok
    · obtain ⟨entered, hids, hcommit⟩ := submitPrepare_committed h.ok hcommits.1 hcommits.2
      refine ⟨?_, show FlightInv (flightNext P w (E, .enter task)) from
        h.commit hcommit hpending ?_⟩
      · simp only [CommitSafe, if_pos hcommits]
        exact ⟨entered, hids, hcommit⟩
      · simp only [flightNext, if_pos hcommits, hids]
    · have hled : (flightNext P w (E, .enter task)).sched.ledger = w.sched.ledger := by
        rcases submitPrepare_submitted P E task .start h.ok
          with ⟨hplan, ⟨hrc, -⟩ | ⟨-, hled⟩⟩ | ⟨-, hled⟩
        · exact absurd ⟨hplan, hrc⟩ hcommits
        · exact hled
        · exact hled
      refine ⟨?_, h.frame hled hpending ?_⟩
      · simp only [CommitSafe, if_neg hcommits]
        exact hled
      · simp only [flightNext, if_neg hcommits]
  | commit plan answers =>
    by_cases hmem : plan ∈ w.pending
    · have hnext : flightNext P w (E, .commit plan answers) =
          ⟨(submitFinish P E w.sched plan answers .start).sched, w.pending.erase plan,
            if (submitFinish P E w.sched plan answers .start).rc = .ok then
              w.accepted ++ plan.ids answers else w.accepted⟩ := by
        simp only [flightNext, if_pos hmem]
      have hpending : ∀ plan' ∈ w.pending.erase plan, plan'.Consistent :=
        fun plan' hp => h.consistent plan' (List.mem_of_mem_erase hp)
      simp only [CommitSafe, hnext]
      by_cases hrc : (submitFinish P E w.sched plan answers .start).rc = .ok
      · obtain ⟨entered, hids, hcommit⟩ :=
          submitFinish_committed h.ok (h.consistent plan hmem) hrc
        rw [if_pos ⟨hmem, hrc⟩]
        refine ⟨⟨entered, hids, hcommit⟩, h.commit hcommit hpending ?_⟩
        simp only [if_pos hrc, hids]
      · have hled : (submitFinish P E w.sched plan answers .start).sched.ledger =
            w.sched.ledger := by
          rcases @submitFinish_submitted _ _ P E w.sched .start plan answers h.ok
            with ⟨hok, -⟩ | ⟨-, hled⟩
          · exact absurd hok hrc
          · exact hled
        rw [if_neg fun hboth => hrc hboth.2]
        refine ⟨hled, h.frame hled hpending ?_⟩
        simp only [if_neg hrc]
    · have hnext : flightNext P w (E, .commit plan answers) = w := by
        simp only [flightNext, if_neg hmem]
      rw [CommitSafe, hnext]
      refine ⟨?_, h⟩
      show if _ then _ else _
      rw [if_neg fun hboth => hmem hboth.1]
  | call op other =>
    obtain ⟨e, hby, hallowed, hled⟩ := step_event P E op h.ok
    have hentry : ¬ e.Entry := fun he => other (Op.entry_submits he hby)
    have horder : (step P w.sched E op).sched.tasks.enqueueOrder =
        w.sched.tasks.enqueueOrder :=
      (congrArg (fun L : Ledger => L.tasks.enqueueOrder) hled).trans (Event.order_apply hentry)
    refine ⟨horder, ok_of_ledger hled (Event.ok_apply h.ok hallowed), h.consistent, ?_⟩
    exact h.accepted.trans horder.symm

end Runs

/-- **Two-phase submission is safe under interleaving.**  In every run of first
sections, second sections and other calls, in any order and with any plugins:
every section that commits does so within the bounds of the configuration in
force at that moment, any other section enters nothing, and no id is accepted
twice. -/
theorem two_phase_safe [DecidableEq ν] (P : ∀ n, PluginDesc (σ n)) (metadata : KvArray)
    (is : List (Env × FlightOp ν)) :
    let w := Foundations.run (flightNext P) (flightCreate (qpuCreate metadata)) is
    Foundations.Along (flightNext P) (CommitSafe P) (flightCreate (qpuCreate metadata)) is ∧
      w.accepted.Nodup ∧ ∀ id, id ∈ w.accepted ↔ (taskTableFind w.sched.tasks id).isSome := by
  intro w
  have hinit : FlightInv (flightCreate (qpuCreate metadata) : InFlight σ) :=
    ⟨TaskTable.ok_empty, by simp [flightCreate], rfl⟩
  have hstep : ∀ (w : InFlight σ) i, FlightInv w → FlightInv (flightNext P w i) :=
    fun _ i h => (FlightInv.next h i).2
  have hw : FlightInv w := Foundations.run_invariant (motive := FlightInv) hstep hinit is
  refine ⟨?_, ?_, fun id => ?_⟩
  · exact Foundations.along_of_invariant (fun _ i h => (FlightInv.next h i).1) hstep hinit is
  · rw [hw.accepted]
    exact hw.ok.nodup
  · rw [hw.accepted]
    exact hw.ok.mem_order id

end QhwScheduler
