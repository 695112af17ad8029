import QhwScheduler.Core.SharedQpu
import QhwScheduler.Foundations.Custody

/-!
# Creating and destroying

QPUs and schedulers come and go, plugins are loaded, policies replace each other; and with
each of these calls, what it takes from the system and gives back.

* `validatePluginDesc` — what a plugin has to say of itself.
* `World` — the objects that exist; `Resource` — what they hold.
* `User` — what the caller created and did not destroy, by its own records.
* `World.qpuCreate`, `World.qpuDestroy`, `World.create`, `World.destroy`, `World.load`,
  `World.setPolicy`, `World.call` — the calls with what they take, use and give back.
* `worldStep` — any call; `Session`, `sessionNext` — the world and its user.
* `WorldOp.Proper` — the user calls with what it has by its records.
-/

namespace QhwScheduler

open Foundations

/-! ## Plugin descriptors -/

/-- `qhw_sched_threading_t`, with the value 0 of an attribute that is not set. -/
inductive Threading where
  | unset
  | safe
  | user
  | other
  deriving DecidableEq

/-- The fields of `qhw_sched_plugin_desc_t` that are checked: sizes, version, name, flags,
and which of the hooks are there. -/
structure PluginDescriptor (ν : Type) where
  structSize : ℕ
  abiVersion : UInt32
  name : Option ν
  capabilities : UInt64
  threadFlags : UInt64
  init : Bool
  fini : Bool
  onTaskSubmit : Bool
  selectNext : Bool
  getSplitConfig : Bool
  onTaskPriorityChanged : Bool
  onTaskStarted : Bool
  onTaskFinished : Bool

/-- Offset and size of `abi_version`. -/
def abiSize : ℕ := 8 + 4

/-- Size of `qhw_sched_plugin_desc_t` with 64-bit pointers. -/
def pluginDescSize : ℕ := 8 + 8 + 3 * 8 + 2 * 8 + 8 * 8

/-- `QHW_SCHED_ABI_VERSION`. -/
def schedAbiVersion : UInt32 := 1

/-- `QHW_SCHED_PLUGIN_THREAD_SAFE`. -/
def pluginThreadSafe : UInt64 := 1

/-- `QHW_SCHED_PLUGIN_THREAD_USER`. -/
def pluginThreadUser : UInt64 := 2

/-- `QHW_SCHED_PLUGIN_THREAD_ALL`. -/
def pluginThreadAll : UInt64 := pluginThreadSafe ||| pluginThreadUser

/-- `threading_to_plugin_flag`. -/
def threadingToPluginFlag : Threading → UInt64
  | .safe => pluginThreadSafe
  | .user => pluginThreadUser
  | .unset => 0
  | .other => 0

/-- `validate_plugin_desc`. -/
def validatePluginDesc {ν : Type} (threading : Threading) : Option (PluginDescriptor ν) → Rc
  | none => .errPlugin
  | some desc =>
    if desc.structSize < abiSize then .errPlugin
    else if desc.abiVersion ≠ schedAbiVersion ∨ desc.structSize < pluginDescSize ∨
        desc.name.isNone ∨ !desc.init ∨ !desc.fini ∨ !desc.onTaskSubmit ∨ !desc.selectNext ∨
        !desc.getSplitConfig ∨ !desc.onTaskPriorityChanged ∨ !desc.onTaskStarted ∨
        !desc.onTaskFinished then .errPlugin
    else if desc.capabilities ≠ 0 then .errPlugin
    else if desc.threadFlags = 0 ∨ desc.threadFlags &&& ~~~pluginThreadAll ≠ 0 then .errPlugin
    else if desc.threadFlags &&& threadingToPluginFlag threading = 0 then .errPlugin
    else .ok

/-! ## Attributes -/

/-- Which functions of a `qhw_sched_allocator_t` are there. -/
structure AllocatorAttr where
  alloc : Bool
  realloc : Bool
  free : Bool

/-- `qhw_sched_attr_t`. -/
structure SchedAttr where
  threading : Threading
  allocator : Option AllocatorAttr

/-- `get_threading`. -/
def getThreading (attr : Option SchedAttr) : Threading :=
  match attr with
  | none => .safe
  | some attr => if attr.threading = .unset then .safe else attr.threading

/-- `qhw_allocator_init`. -/
def allocatorInit : Option AllocatorAttr → Rc
  | none => .ok
  | some a => if !a.alloc ∨ !a.realloc ∨ !a.free then .errInvalidArg else .ok

/-- `qhw_thread_init`; `mutex` tells whether `pthread_mutex_init` succeeds. -/
def threadInit (threading : Threading) (mutex : Bool) : Rc :=
  match threading with
  | .safe => if mutex then .ok else .errState
  | .user => .ok
  | .unset => .errInvalidArg
  | .other => .errInvalidArg

/-! ## The world -/

/-- The path of a shared object. -/
abbrev Path := String

/-- The policy that is active: its state, and the shared object with its hooks. -/
structure ActivePolicy where
  state : ℕ
  library : Path
  deriving DecidableEq

/-- `struct qhw_sched` beyond what its operations read: its QPU, its threading, the shared
objects of the registry by the names of the plugins, and the active policy. The states of
its policies are numbered. -/
structure SchedObject {ν : Type} (σ : ν → Type) where
  sched : Sched σ
  qpu : ℕ
  threading : Threading
  libraries : List (ν × Path)
  active : Option ActivePolicy
  made : ℕ

/-- `struct qhw_sched_qpu`, and whether its metadata were copied. -/
structure QpuObject where
  qpu : Qpu
  copied : Bool

/-- The objects that exist, by their addresses. -/
structure World {ν : Type} (σ : ν → Type) where
  qpus : ℕ → Option QpuObject
  scheds : ℕ → Option (SchedObject σ)

/-- What objects hold: memory, locks, references to shared objects, and states of policies. -/
inductive Resource where
  | qpu (address : ℕ)
  | qpuLock (address : ℕ)
  | qpuMetadata (address : ℕ)
  | sched (address : ℕ)
  | schedLock (address : ℕ)
  | taskTable (address : ℕ)
  | registry (address : ℕ)
  | library (address : ℕ) (path : Path)
  | path (address : ℕ) (path : Path)
  | policyState (address : ℕ) (state : ℕ)
  deriving DecidableEq

/-- A code, the world after a call, and what the call took, used and gave back. -/
structure WorldResult {ν : Type} (σ : ν → Type) where
  rc : Rc
  world : World σ
  events : List (Custody Resource)

/-- What `dlopen`, `dlsym` and the descriptor function of a shared object give. -/
inductive SharedObject (ν : Type) where
  | missing
  | noSymbol
  | descriptor (desc : Option (PluginDescriptor ν))

section Calls

variable {ν : Type} {σ : ν → Type}

/-- Another scheduler at an address. -/
def World.putSched (w : World σ) (h : ℕ) (s : Option (SchedObject σ)) : World σ :=
  { w with scheds := Function.update w.scheds h s }

/-- Another QPU at an address. -/
def World.putQpu (w : World σ) (q : ℕ) (object : Option QpuObject) : World σ :=
  { w with qpus := Function.update w.qpus q object }

/-- The scheduler at an address as it finds its QPU. -/
def World.schedAt (w : World σ) (h : ℕ) : Option (SchedObject σ) :=
  (w.scheds h).bind fun s => (w.qpus s.qpu).map fun object =>
    { s with sched := s.sched.at object.qpu }

/-! ## QPUs -/

/-- `qhw_sched_qpu_create`, at the address that the memory got. -/
def World.qpuCreate (w : World σ) (q : ℕ) (qpuId : UInt64) (metadata : KvArray) (mutex : Bool)
    (E : Env) : WorldResult σ :=
  if qpuId = 0 then ⟨.errInvalidArg, w, []⟩
  else
    match metadata with
    | none => ⟨.errInvalidArg, w, []⟩
    | some entries =>
      if entries.length > (2 ^ 64 - 1) / sizeofKv then ⟨.errInvalidArg, w, []⟩
      else if !E.alloc 0 then ⟨.errNoMemory, w, []⟩
      else if threadInit .safe mutex ≠ .ok then
        ⟨threadInit .safe mutex, w, [.take (.qpu q), .give (.qpu q)]⟩
      else if entries = [] then
        ⟨.ok, w.putQpu q (some ⟨QhwScheduler.qpuCreate metadata, false⟩),
          [.take (.qpu q), .take (.qpuLock q)]⟩
      else if !E.alloc 1 then
        ⟨.errNoMemory, w, [.take (.qpu q), .take (.qpuLock q), .give (.qpuLock q), .give (.qpu q)]⟩
      else
        ⟨.ok, w.putQpu q (some ⟨QhwScheduler.qpuCreate metadata, true⟩),
          [.take (.qpu q), .take (.qpuLock q), .take (.qpuMetadata q)]⟩

/-- `qhw_qpu_release`: the last reference takes the QPU with it. -/
def World.qpuRelease (w : World σ) (q : ℕ) : World σ × List (Custody Resource) :=
  match w.qpus q with
  | none => (w, [.use (.qpu q)])
  | some object =>
    let qpu := QhwScheduler.qpuRelease object.qpu
    if qpu.refcount ≠ 0 then
      (w.putQpu q (some { object with qpu := qpu }), [.use (.qpu q), .use (.qpuLock q)])
    else
      (w.putQpu q none, [.use (.qpu q), .use (.qpuLock q), .give (.qpuLock q)] ++
        (if object.copied then [.give (.qpuMetadata q)] else []) ++ [.give (.qpu q)])

/-- `qhw_sched_qpu_destroy`: the creator gives up its reference. -/
def World.qpuDestroy (w : World σ) (q : ℕ) : WorldResult σ :=
  let r := w.qpuRelease q
  ⟨.ok, r.1, r.2⟩

/-! ## Schedulers -/

/-- The lock of a scheduler; a user who keeps calls apart needs none. -/
def schedLocks (h : ℕ) (threading : Threading) : List Resource :=
  if threading = .safe then [.schedLock h] else []

/-- `qhw_sched_create` on a QPU, at the address that the memory got. -/
def World.create (w : World σ) (h q : ℕ) (policyNamed : Bool) (attr : Option SchedAttr)
    (options : KvArray) (mutex : Bool) (E : Env) : WorldResult σ :=
  match w.qpus q with
  | none => ⟨.ok, w, [.use (.qpu q)]⟩
  | some object =>
    let threading := getThreading attr
    let lock := schedLocks h threading
    if options = none then ⟨.errInvalidArg, w, []⟩
    else if policyNamed ∨ options ≠ some [] then ⟨.errUnsupported, w, []⟩
    else if !E.alloc 0 then ⟨.errNoMemory, w, []⟩
    else if allocatorInit (attr.bind SchedAttr.allocator) ≠ .ok then
      ⟨allocatorInit (attr.bind SchedAttr.allocator), w, [.take (.sched h), .give (.sched h)]⟩
    else if threadInit threading mutex ≠ .ok then
      ⟨threadInit threading mutex, w, [.take (.sched h), .give (.sched h)]⟩
    else if !E.alloc 1 then
      ⟨.errNoMemory, w,
        (Resource.sched h :: lock).map .take ++ (lock ++ [Resource.sched h]).map .give⟩
    else
      let qpu := qpuRetain object.qpu
      ⟨.ok, (w.putQpu q (some { object with qpu := qpu })).putSched h
          (some ⟨schedCreate object.qpu, q, threading, [], none, 0⟩),
        (Resource.sched h :: lock ++ [Resource.taskTable h]).map .take ++
          [Resource.qpu q, .qpuLock q].map .use⟩

/-- `fini` of the active policy, a function of its shared object. -/
def policyFini (h : ℕ) : Option ActivePolicy → List (Custody Resource)
  | none => []
  | some p => [.use (.library h p.library), .give (.policyState h p.state)]

/-- What a call of another hook uses. -/
def policyUsed (h : ℕ) : Option ActivePolicy → List Resource
  | none => []
  | some p => [.library h p.library, .policyState h p.state]

/-- `qhw_sched_destroy`. -/
def World.destroy (w : World σ) (h : ℕ) : WorldResult σ :=
  match w.scheds h with
  | none => ⟨.ok, w, [.use (.sched h)]⟩
  | some s =>
    let registry := s.libraries.flatMap fun item => [Resource.library h item.2, .path h item.2]
    let items := if s.sched.plugins.capacity = 0 then [] else [Resource.registry h]
    let r := (w.putSched h none).qpuRelease s.qpu
    ⟨.ok, r.1, .use (.sched h) :: policyFini h s.active ++
      (registry ++ items ++ [Resource.taskTable h]).map .give ++ r.2 ++
        (schedLocks h s.threading ++ [Resource.sched h]).map .give⟩

/-- What the search for a name reads, in `qhw_plugin_registry_add` and
`qhw_plugin_registry_find`: the array, and the names, which are in the shared objects. -/
def registryRead (h : ℕ) (libraries : List (ν × Path)) : List Resource :=
  if libraries.isEmpty then [] else .registry h :: libraries.map fun item => .library h item.2

variable [DecidableEq ν]

/-- What `qhw_plugin_registry_add` does to the array of the registry. -/
def registryEvents (h : ℕ) (old new : PluginRegistry ν) : List (Custody Resource) :=
  if new.capacity = old.capacity then []
  else (if old.capacity = 0 then [] else [.give (.registry h)]) ++ [.take (.registry h)]

/-- `qhw_plugin_registry_add` comes to write the new entry into the array. -/
def registryWritten (E : Env) (registry : PluginRegistry ν) (name : ν) : Bool :=
  name ∉ registry.items ∧ (registry.items.length = registry.capacity → E.alloc 0)

/-- `qhw_sched_load_plugin`: a shared object that cannot be registered is closed again. -/
def World.load (w : World σ) (h : ℕ) (path : Path) (file : SharedObject ν) (E : Env) :
    WorldResult σ :=
  match w.schedAt h with
  | none => ⟨.ok, w, [.use (.sched h)]⟩
  | some s =>
    match file with
    | .missing => ⟨.errPlugin, w, [.use (.sched h)]⟩
    | .noSymbol =>
      ⟨.errPlugin, w, [.use (.sched h), .take (.library h path), .give (.library h path)]⟩
    | .descriptor desc =>
      match validatePluginDesc s.threading desc, desc.bind PluginDescriptor.name with
      | .ok, some name =>
        let r := loadPlugin E s.sched name true .start
        let libraries := if r.rc = .ok then s.libraries ++ [(name, path)] else s.libraries
        ⟨r.rc, w.putSched h (some { s with sched := r.sched, libraries := libraries }),
          [.use (.sched h), .take (.library h path), .use (.library h path)] ++
            (schedLocks h s.threading ++ registryRead h s.libraries).map .use ++
            registryEvents h s.sched.plugins r.sched.plugins ++
            (if registryWritten E s.sched.plugins name then [.use (.registry h)] else []) ++
            if r.rc = .ok then [.take (.path h path)] else [.give (.library h path)]⟩
      | _, _ =>
        ⟨.errPlugin, w, [.use (.sched h), .take (.library h path), .use (.library h path),
          .give (.library h path)]⟩

variable (P : ∀ n, PluginDesc (σ n))

/-- `qhw_sched_set_policy`: the state of the new policy is taken by `init`, and given back
by `fini` when a task cannot be handed over; else that of the old policy is.  Until then the
hooks are called through the entry of the registry, and the records are read. -/
def World.setPolicy (w : World σ) (h : ℕ) (name : ν) (options : KvArray) (E : Env) :
    WorldResult σ :=
  match w.schedAt h with
  | none => ⟨.ok, w, [.use (.sched h)]⟩
  | some s =>
    let r := QhwScheduler.setPolicy P E s.sched name options .start
    let entry := (Resource.sched h :: schedLocks h s.threading ++ registryRead h s.libraries).map
      Custody.use
    match s.libraries.find? (·.1 = name) with
    | none => ⟨r.rc, w.putSched h (some { s with sched := r.sched }), entry⟩
    | some item =>
      if options = none then
        ⟨r.rc, w.putSched h (some { s with sched := r.sched }), entry⟩
      else
        match ((P name).init E options .start).outcome with
        | .error _ =>
          ⟨r.rc, w.putSched h (some { s with sched := r.sched }),
            entry ++ [.use (.registry h), .use (.library h item.2)]⟩
        | .ok _ =>
          let made := entry ++ [.use (.registry h), .use (.library h item.2),
            .take (.policyState h s.made), .use (.taskTable h), .use (.registry h),
            .use (.library h item.2), .use (.policyState h s.made)]
          if r.rc ≠ .ok then
            ⟨r.rc, w.putSched h (some { s with sched := r.sched, made := s.made + 1 }),
              made ++ [.give (.policyState h s.made)]⟩
          else
            ⟨r.rc, w.putSched h (some { s with
                sched := r.sched, active := some ⟨s.made, item.2⟩, made := s.made + 1 }),
              made ++ policyFini h s.active ++ [.use (.registry h)]⟩

/-- Any other operation: at most, the scheduler and its QPU are locked, the records are read, and
the hooks of the active policy are called with its state. -/
def World.call (w : World σ) (h : ℕ) (op : Op ν) (E : Env) : WorldResult σ :=
  match w.schedAt h with
  | none => ⟨.ok, w, [.use (.sched h)]⟩
  | some s =>
    let r := step P s.sched E op
    ⟨r.rc, (w.putQpu s.qpu ((w.qpus s.qpu).map fun object =>
        { object with qpu := r.sched.qpu })).putSched h (some { s with sched := r.sched }),
      (Resource.sched h :: schedLocks h s.threading ++
        [Resource.taskTable h, .qpu s.qpu, .qpuLock s.qpu] ++ policyUsed h s.active).map .use⟩

/-! ## Any call -/

/-- A call of the user. -/
inductive WorldOp (ν : Type) where
  | qpuCreate (q : ℕ) (qpuId : UInt64) (metadata : KvArray) (mutex : Bool) (E : Env)
  | qpuDestroy (q : ℕ)
  | create (h q : ℕ) (policyNamed : Bool) (attr : Option SchedAttr) (options : KvArray)
      (mutex : Bool) (E : Env)
  | destroy (h : ℕ)
  | load (h : ℕ) (path : Path) (file : SharedObject ν) (E : Env)
  | setPolicy (h : ℕ) (name : ν) (options : KvArray) (E : Env)
  | call (h : ℕ) (op : Op ν) (E : Env)

/-- What a call does. -/
def worldStep (w : World σ) : WorldOp ν → WorldResult σ
  | .qpuCreate q qpuId metadata mutex E => w.qpuCreate q qpuId metadata mutex E
  | .qpuDestroy q => w.qpuDestroy q
  | .create h q policyNamed attr options mutex E => w.create h q policyNamed attr options mutex E
  | .destroy h => w.destroy h
  | .load h path file E => w.load h path file E
  | .setPolicy h name options E => w.setPolicy P h name options E
  | .call h op E => w.call P h op E

/-- No objects. -/
def World.empty : World σ := ⟨fun _ => none, fun _ => none⟩

end Calls

/-! ## The user -/

/-- The records of a user: the QPUs and schedulers it was given and did not destroy.  The
objects know nothing of them. -/
structure User where
  qpus : ℕ → Bool
  scheds : ℕ → Bool

/-- What the user writes down after a call, by its code. -/
def User.after {ν : Type} (u : User) (op : WorldOp ν) (rc : Rc) : User :=
  match op with
  | .qpuCreate q .. => if rc = .ok then { u with qpus := Function.update u.qpus q true } else u
  | .qpuDestroy q => { u with qpus := Function.update u.qpus q false }
  | .create h .. => if rc = .ok then { u with scheds := Function.update u.scheds h true } else u
  | .destroy h => { u with scheds := Function.update u.scheds h false }
  | .load .. => u
  | .setPolicy .. => u
  | .call .. => u

/-- The objects that exist, and the records of their user. -/
structure Session {ν : Type} (σ : ν → Type) where
  world : World σ
  user : User

section Sessions

variable {ν : Type} {σ : ν → Type} [DecidableEq ν] (P : ∀ n, PluginDesc (σ n))

/-- No objects, and nobody has any. -/
def Session.empty : Session σ := ⟨World.empty, fun _ => false, fun _ => false⟩

/-- A call, and what its user makes of the code. -/
def sessionNext (x : Session σ) (op : WorldOp ν) : Session σ :=
  ⟨(worldStep P x.world op).world, x.user.after op (worldStep P x.world op).rc⟩

/-- What may be called: memory that is new is not in use, and the user names only QPUs and
schedulers that it has by its records, whether they still exist or not.  Plugins and
policies have their own calls. -/
def WorldOp.Proper (x : Session σ) : WorldOp ν → Prop
  | .qpuCreate q .. => x.world.qpus q = none
  | .qpuDestroy q => x.user.qpus q
  | .create h q .. => x.world.scheds h = none ∧ x.user.qpus q
  | .destroy h => x.user.scheds h
  | .load h .. => x.user.scheds h
  | .setPolicy h .. => x.user.scheds h
  | .call h op _ => x.user.scheds h ∧ (∀ name valid, op ≠ .loadPlugin name valid) ∧
      ∀ name options, op ≠ .setPolicy name options

end Sessions

end QhwScheduler
