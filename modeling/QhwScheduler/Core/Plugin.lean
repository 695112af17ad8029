import QhwScheduler.Types

/-!
# Plugins

The ABI of `qhw_scheduler_plugin.h` and the registry of `qhw_plugin.c`.

* `PluginDesc` — the hooks of a policy.  Their answers are not restricted: a
  hook may return any code, `selectNext` any id.
* `PluginRegistry`, `pluginRegistryAdd` — the loaded plugins.
-/

namespace QhwScheduler

/-- Result code, policy state and cursor after a hook. -/
structure HookResult (σ : Type) where
  rc : Rc
  state : σ
  cursor : Cursor

/-- The outcome of `select_next`; the id counts when the code is `ok`. -/
structure SelectResult (σ : Type) where
  rc : Rc
  taskId : TaskId
  state : σ
  cursor : Cursor

/-- The outcome of `get_split_config`. -/
structure ConfigResult (σ : Type) where
  rc : Rc
  config : SplitConfig
  state : σ

/-- The outcome of `init`. -/
structure InitResult (σ : Type) where
  outcome : Except Rc σ
  cursor : Cursor

/-- `qhw_sched_plugin_desc_t`: a policy whose state has type `σ`. -/
structure PluginDesc (σ : Type) where
  init : Env → KvArray → Cursor → InitResult σ
  onTaskSubmit : Env → σ → TaskDesc → Cursor → HookResult σ
  selectNext : Env → σ → Cursor → SelectResult σ
  getSplitConfig : SplitConfig → σ → ConfigResult σ
  onTaskPriorityChanged : Env → σ → TaskId → Int64 → Cursor → HookResult σ
  onTaskStarted : Env → σ → TaskId → Cursor → HookResult σ
  onTaskFinished : Env → σ → TaskId → TaskState → Cursor → HookResult σ

/-- No plugins at all: no policy can be set, and queued tasks are started directly. -/
def noPlugins : ∀ n : Empty, PluginDesc (n.elim : Type) := fun n => n.elim

/-- `struct qhw_plugin_registry`: the names of the loaded plugins. -/
structure PluginRegistry (ν : Type) where
  items : List ν
  capacity : ℕ

/-- `qhw_plugin_registry_add`. -/
def pluginRegistryAdd {ν : Type} [DecidableEq ν] (E : Env) (registry : PluginRegistry ν) (name : ν)
    (c : Cursor) : Rc × PluginRegistry ν × Cursor :=
  if name ∈ registry.items then (.errExists, registry, c)
  else
    let full := registry.items.length = registry.capacity
    if full ∧ !E.alloc c.allocs then (.errNoMemory, registry, c.alloc)
    else
      let capacity :=
        if full then if registry.capacity = 0 then 4 else registry.capacity * 2
        else registry.capacity
      let c := if full then c.alloc else c
      if !E.alloc c.allocs then (.errNoMemory, { registry with capacity := capacity }, c.alloc)
      else (.ok, ⟨registry.items ++ [name], capacity⟩, c.alloc)

end QhwScheduler
