import QhwScheduler.Types

/-!
# Cost estimates

`qhw_policy_metadata.c`.

* `policyTaskEstimatedCost` — the cost of a task as far as its description tells.
* `policyTaskEstimatedCost_ne_zero` — it is never zero; and a task that carries a
  cost keeps it.
-/

namespace QhwScheduler

/-- `qhw_policy_task_estimated_cost`. -/
def policyTaskEstimatedCost (task : TaskDesc) : UInt64 :=
  if task.estimatedCost ≠ 0 then task.estimatedCost
  else if task.estimatedRuntimeNs ≠ 0 then task.estimatedRuntimeNs
  else
    let runtimeNs := (metadataGetU64 task.metadata metaEstimatedRuntimeNs).getD 0
    if runtimeNs ≠ 0 then runtimeNs
    else
      let shots := (metadataGetU64 task.metadata metaShots).getD 0
      if shots ≠ 0 then shots else 1

theorem policyTaskEstimatedCost_ne_zero (task : TaskDesc) : policyTaskEstimatedCost task ≠ 0 := by
  unfold policyTaskEstimatedCost
  dsimp only
  split
  · assumption
  · split
    · assumption
    · split
      · assumption
      · split
        · assumption
        · decide

/-- A cost that is already there is kept. -/
theorem policyTaskEstimatedCost_of_ne_zero {task : TaskDesc} (h : task.estimatedCost ≠ 0) :
    policyTaskEstimatedCost task = task.estimatedCost := by
  rw [policyTaskEstimatedCost, if_pos h]

end QhwScheduler
