import QhwScheduler.Core.Ownership

/-!
# Lifetimes

Whatever is called, nothing is used or given back that is not held, and nothing is forgotten.

* `qpuCreate_settles`, `qpuDestroy_settles`, `create_settles`, `destroy_settles`,
  `load_settles`, `setPolicy_settles`, `call_settles` — each call settles with what the
  objects hold.
* `Session.Ok` — the invariant with the records of the user; `sessionNext_ok` — any call.
* `resources_balance` — any run.
-/

namespace QhwScheduler

open Foundations

variable {ν : Type} {σ : ν → Type}

/-- A call leads to the invariant, with the records `owned` of the user after it, and settles
with what the objects hold. -/
def WorldResult.Settles (owned : ℕ → Bool) (w : World σ) (r : WorldResult σ) : Prop :=
  r.world.Ok owned ∧ settle (holdings w) r.events = some (holdings r.world)

section Calls

variable {w : World σ} {owned : ℕ → Bool} {h q : ℕ} {s s' : SchedObject σ} {object : QpuObject}

/-! ## Changes of what is held -/

theorem holdings_reqpu (hq : w.qpus q = some object) (object' : QpuObject)
    (hcopied : object'.copied = object.copied) (r : Resource) :
    holdings (w.putQpu q (some object')) r = holdings w r := by
  rw [holdings_putQpu]
  split
  · next hr =>
    rw [holdings_qpu hq hr]
    show (object'.held q).count r = (object.held q).count r
    rw [QpuObject.held, QpuObject.held, hcopied]
  · rfl

/-- What a scheduler holds can be replaced. -/
theorem holdings_rebind {held : ℕ} {r : Resource}
    (hheld : r.holder = .sched h → (s'.held h).count r = held)
    (hoff : r.holder ≠ .sched h → holdings w r = held) :
    holdings (w.putSched h (some s')) r = held := by
  rw [holdings_putSched]
  split
  · next hr => exact hheld hr
  · next hr => exact hoff hr

/-- The lock of a scheduler and the memory it is in can be used. -/
theorem holdings_entry (hs : w.scheds h = some s) {r : Resource}
    (hr : r ∈ Resource.sched h :: schedLocks h s.threading) : holdings w r ≠ 0 := by
  refine holdings_of_sched hs (List.mem_append_right _ ?_)
  rcases List.mem_cons.1 hr with rfl | hr
  · exact List.mem_append_right _ (List.mem_singleton.2 rfl)
  · exact List.mem_append_left _ hr

theorem holdings_library (hs : w.scheds h = some s) {item : ν × Path} (hitem : item ∈ s.libraries) :
    holdings w (.library h item.2) ≠ 0 := by
  refine holdings_of_sched hs (List.mem_append_left _ (List.mem_append_right _
    (List.mem_append_left _ (List.mem_append_left _ ?_))))
  exact List.mem_flatMap.2 ⟨item, hitem, List.mem_cons_self⟩

/-- A registry with entries has an array. -/
theorem holdings_registry (hw : w.Ok owned) (hs : w.scheds h = some s) (hne : s.libraries ≠ []) :
    holdings w (.registry h) ≠ 0 := by
  refine holdings_of_sched hs (List.mem_append_left _ (List.mem_append_right _
    (List.mem_append_left _ (List.mem_append_right _ ?_))))
  rw [registryHeld, if_neg (hw.array h s hs hne)]
  exact List.mem_singleton.2 rfl

/-- The array can be read, and so can the names in the shared objects. -/
theorem holdings_registryRead (hw : w.Ok owned) (hs : w.scheds h = some s) {r : Resource}
    (hr : r ∈ registryRead h s.libraries) : holdings w r ≠ 0 := by
  unfold registryRead at hr
  split at hr
  · simp at hr
  · next hne =>
    rw [List.isEmpty_iff] at hne
    rcases List.mem_cons.1 hr with rfl | hr
    · exact holdings_registry hw hs hne
    · obtain ⟨item, hitem, rfl⟩ := List.mem_map.1 hr
      exact holdings_library hs hitem

theorem holdings_taskTable (hs : w.scheds h = some s) : holdings w (.taskTable h) ≠ 0 :=
  holdings_of_sched hs (List.mem_append_left _ (List.mem_append_right _
    (List.mem_append_right _ (List.mem_singleton.2 rfl))))

/-! ## QPUs -/

/-- No scheduler is bound to a QPU that does not exist. -/
theorem World.Ok.bound_eq_empty (hw : w.Ok owned) (hnone : w.qpus q = none) : w.bound q = ∅ := by
  refine Set.eq_empty_of_forall_notMem fun x hx => ?_
  obtain ⟨t, ht, hqpu⟩ := hx
  have hsome := hw.qpu_exists x t ht
  rw [hqpu, hnone] at hsome
  simp at hsome

/-- A new QPU, which its creator has. -/
theorem World.Ok.newQpu (hw : w.Ok owned) (hnone : w.qpus q = none) (metadata : KvArray)
    (copied : Bool) : (w.putQpu q (some ⟨QhwScheduler.qpuCreate metadata, copied⟩)).Ok
      (Function.update owned q true) := by
  refine ⟨fun x o hx => ?_, fun x o hx => ?_, fun x hx => ?_,
    fun x t hx => isSome_putQpu _ (hw.qpu_exists x t hx), hw.library_open, hw.names, hw.array⟩
  · rw [putQpu_qpus] at hx
    split at hx
    · next hxq =>
      cases hx
      show (w.bound x).Finite ∧ 1 = 0 + (if Function.update owned q true x then 1 else 0) +
        (w.bound x).ncard
      rw [hxq, hw.bound_eq_empty hnone, Function.update_self]
      exact ⟨Set.finite_empty, by simp⟩
    · next hxq =>
      rw [Function.update_of_ne hxq]
      exact hw.refs x o hx
  · rw [putQpu_qpus] at hx
    split at hx
    · cases hx
      exact Nat.one_ne_zero
    · exact hw.referenced x o hx
  · rw [putQpu_qpus]
    split
    · rfl
    · next hxq =>
      rw [Function.update_of_ne hxq] at hx
      exact hw.owned_exists x hx

theorem newQpu_settles (hnone : w.qpus q = none) (object : QpuObject) :
    settle (holdings w) ((object.held q).map .take) =
      some (holdings (w.putQpu q (some object))) := by
  refine (settle_takes _).trans (congrArg some (funext fun r => ?_))
  rw [holdings_putQpu]
  split
  · next hr =>
    have hzero : holdings w r = 0 := by
      rw [holdings, hr, World.heldBy, hnone]
      rfl
    rw [hzero, Nat.zero_add]
    rfl
  · next hr =>
    rw [count_elsewhere _ (fun _ => QpuObject.holder_of_mem) hr, Nat.add_zero]

/-- A QPU is made with all that it holds, or all of it is given back. -/
theorem qpuCreate_cases (w : World σ) (q : ℕ) (qpuId : UInt64) (metadata : KvArray)
    (mutex : Bool) (E : Env) :
    ((w.qpuCreate q qpuId metadata mutex E).rc ≠ .ok ∧
      (w.qpuCreate q qpuId metadata mutex E).world = w ∧
      settle (holdings w) (w.qpuCreate q qpuId metadata mutex E).events = some (holdings w)) ∨
    ∃ copied, w.qpuCreate q qpuId metadata mutex E =
      ⟨.ok, w.putQpu q (some ⟨QhwScheduler.qpuCreate metadata, copied⟩),
        (QpuObject.held q ⟨QhwScheduler.qpuCreate metadata, copied⟩).map .take⟩ := by
  unfold World.qpuCreate
  split
  · exact Or.inl ⟨by simp, rfl, rfl⟩
  · split
    · exact Or.inl ⟨by simp, rfl, rfl⟩
    · split
      · exact Or.inl ⟨by simp, rfl, rfl⟩
      · split
        · exact Or.inl ⟨by simp, rfl, rfl⟩
        · split
          · next hlock =>
            exact Or.inl ⟨hlock, rfl,
              settle_takes_gives [Resource.qpu q] [Resource.qpu q] fun _ => rfl⟩
          · split
            · exact Or.inr ⟨false, rfl⟩
            · split
              · refine Or.inl ⟨by simp, rfl, settle_takes_gives [Resource.qpu q, Resource.qpuLock q]
                  [Resource.qpuLock q, Resource.qpu q] fun r => ?_⟩
                exact (List.Perm.swap _ _ _).count_eq r
              · exact Or.inr ⟨true, rfl⟩

theorem qpuCreate_settles (hw : w.Ok owned) (hnone : w.qpus q = none) (qpuId : UInt64)
    (metadata : KvArray) (mutex : Bool) (E : Env) :
    (w.qpuCreate q qpuId metadata mutex E).Settles
      (if (w.qpuCreate q qpuId metadata mutex E).rc = .ok then Function.update owned q true
        else owned) w := by
  rcases qpuCreate_cases w q qpuId metadata mutex E with
    ⟨hrc, hworld, hsettle⟩ | ⟨copied, hnew⟩
  · rw [if_neg hrc, WorldResult.Settles, hworld]
    exact ⟨hw, hsettle⟩
  · rw [hnew]
    exact ⟨hw.newQpu hnone metadata copied, newQpu_settles hnone _⟩

/-- The reference of the user is about to be given up. -/
theorem World.Ok.disown (hw : w.Ok owned) (howned : owned q) :
    w.Counted (Function.update owned q false) fun x => if x = q then 1 else 0 := by
  refine ⟨fun x o hx => ?_, hw.referenced, fun x hx => ?_, hw.qpu_exists, hw.library_open,
    hw.names, hw.array⟩
  · obtain ⟨hfinite, hrefs⟩ := hw.refs x o hx
    refine ⟨hfinite, ?_⟩
    by_cases hxq : x = q
    · subst hxq
      rw [if_pos howned] at hrefs
      rw [if_pos rfl, Function.update_self, hrefs]
      simp
    · rw [if_neg hxq, Function.update_of_ne hxq]
      exact hrefs
  · by_cases hxq : x = q
    · rw [hxq, Function.update_self] at hx
      simp at hx
    · rw [Function.update_of_ne hxq] at hx
      exact hw.owned_exists x hx

theorem qpuDestroy_settles (hw : w.Ok owned) (howned : owned q) :
    (w.qpuDestroy q).Settles (Function.update owned q false) w := by
  obtain ⟨object, hq⟩ := Option.isSome_iff_exists.1 (hw.owned_exists q howned)
  refine ⟨(hw.disown howned).release hq, ?_⟩
  refine (qpuRelease_settles hq fun r hr => holdings_qpu hq hr).trans
    (congrArg some (funext fun r => ?_))
  split
  · rfl
  · next hr => exact (holdings_qpuRelease _ hr).symm

/-! ## Schedulers -/

/-- The world with a new scheduler on a QPU. -/
def World.withSched (w : World σ) (h q : ℕ) (object : QpuObject) (threading : Threading) :
    World σ :=
  (w.putQpu q (some { object with qpu := qpuRetain object.qpu })).putSched h
    (some ⟨schedCreate object.qpu, q, threading, [], none, 0⟩)

/-- A new scheduler counts at its QPU. -/
theorem World.Ok.newSched (hw : w.Ok owned) (hnone : w.scheds h = none)
    (hq : w.qpus q = some object) (threading : Threading) :
    (w.withSched h q object threading).Ok owned := by
  unfold World.withSched
  have hretained : (w.putQpu q (some { object with qpu := qpuRetain object.qpu })
      ).scheds h = none := hnone
  have hunbound : h ∉ w.bound q := fun hmem => by
    obtain ⟨t, ht, -⟩ := hmem
    rw [hnone] at ht
    simp at ht
  refine ⟨fun x o hx => ?_, fun x o hx => ?_, fun x hx => isSome_putQpu _ (hw.owned_exists x hx),
    fun x t hx => ?_, fun x t p hx hp => ?_, fun x t hx => ?_, fun x t hx => ?_⟩
  · rw [putSched_qpus, putQpu_qpus] at hx
    rw [bound_new hretained]
    show ((if q = x then insert h (w.bound x) else w.bound x).Finite) ∧ _ = _ + _ +
      (if q = x then insert h (w.bound x) else w.bound x).ncard
    split at hx
    · next hxq =>
      cases hx
      subst hxq
      obtain ⟨hfinite, hrefs⟩ := hw.refs x object hq
      rw [if_pos rfl, Set.ncard_insert_of_notMem hunbound hfinite]
      refine ⟨hfinite.insert h, ?_⟩
      show object.qpu.refcount + 1 = _
      rw [hrefs]
      exact (Nat.add_assoc _ _ _)
    · next hxq =>
      rw [if_neg (Ne.symm hxq)]
      exact hw.refs x o hx
  · rw [putSched_qpus, putQpu_qpus] at hx
    split at hx
    · cases hx
      exact Nat.succ_ne_zero _
    · exact hw.referenced x o hx
  all_goals
    rw [putSched_scheds] at hx
    split at hx
  · cases hx
    rw [putSched_qpus, putQpu_qpus, if_pos rfl]
    rfl
  · exact isSome_putQpu _ (hw.qpu_exists x t hx)
  · cases hx
    simp at hp
  · exact hw.library_open x t p hx hp
  · cases hx
    rfl
  · exact hw.names x t hx
  · cases hx
    exact fun hne => absurd rfl hne
  · exact hw.array x t hx

theorem newSched_settles (hnone : w.scheds h = none) (hq : w.qpus q = some object)
    (threading : Threading) :
    settle (holdings w) ((Resource.sched h :: schedLocks h threading ++
      [Resource.taskTable h]).map .take ++ [Resource.qpu q, .qpuLock q].map .use) =
      some (holdings (w.withSched h q object threading)) := by
  unfold World.withSched
  have huse : ∀ r ∈ [Resource.qpu q, .qpuLock q], holdings w r +
      (Resource.sched h :: schedLocks h threading ++
        [Resource.taskTable h]).count r ≠ 0 := by
    intro r hr
    have hheld := holdings_of_qpu hq (List.mem_append_left _ hr)
    omega
  refine (settle_trans (settle_takes _) (settle_uses _ huse)).trans
    (congrArg some (funext fun r => ?_))
  rw [holdings_putSched,
    holdings_reqpu hq { object with qpu := qpuRetain object.qpu } rfl]
  split
  · next hr =>
    have hzero : holdings w r = 0 := by
      rw [holdings, hr, World.heldBy, hnone]
      rfl
    rw [hzero]
    simp only [Option.elim_some, SchedObject.held, policyHeld, librariesHeld,
      registryHeld, schedCreate, Option.toList_none, List.map_nil, List.flatMap_nil,
      if_true, List.count_append, List.count_cons, List.count_nil]
    omega
  · next hr =>
    have hoff : (Resource.sched h :: schedLocks h threading ++
        [Resource.taskTable h]).count r = 0 := by
      refine count_elsewhere _ (o := .sched h) (fun t ht => ?_) hr
      rcases List.mem_append.1 ht with ht | ht
      · rcases List.mem_cons.1 ht with rfl | ht
        · rfl
        · exact holder_of_mem_schedLocks ht
      · rw [List.mem_singleton.1 ht]
        rfl
    rw [hoff, Nat.add_zero]

/-- A scheduler is made with all that it holds, or all of it is given back. -/
theorem create_cases (hq : w.qpus q = some object) (h : ℕ) (policyNamed : Bool)
    (attr : Option SchedAttr) (options : KvArray) (mutex : Bool) (E : Env) :
    ((w.create h q policyNamed attr options mutex E).rc ≠ .ok ∧
      (w.create h q policyNamed attr options mutex E).world = w ∧
      settle (holdings w) (w.create h q policyNamed attr options mutex E).events =
        some (holdings w)) ∨
    w.create h q policyNamed attr options mutex E =
      ⟨.ok, w.withSched h q object (getThreading attr),
        (Resource.sched h :: schedLocks h (getThreading attr) ++ [Resource.taskTable h]).map .take ++
          [Resource.qpu q, .qpuLock q].map .use⟩ := by
  unfold World.create
  rw [hq]
  dsimp only
  split
  · exact Or.inl ⟨by simp, rfl, rfl⟩
  · split
    · exact Or.inl ⟨by simp, rfl, rfl⟩
    · split
      · exact Or.inl ⟨by simp, rfl, rfl⟩
      · split
        · next hallocator =>
          exact Or.inl ⟨hallocator, rfl,
            settle_takes_gives [Resource.sched h] [Resource.sched h] fun _ => rfl⟩
        · split
          · next hlock =>
            exact Or.inl ⟨hlock, rfl,
              settle_takes_gives [Resource.sched h] [Resource.sched h] fun _ => rfl⟩
          · split
            · refine Or.inl ⟨by simp, rfl, settle_takes_gives _ _ fun r => ?_⟩
              rw [List.count_append, List.count_cons, List.count_cons, List.count_nil]
              omega
            · exact Or.inr rfl

theorem create_settles (hw : w.Ok owned) (hnone : w.scheds h = none) (howned : owned q)
    (policyNamed : Bool) (attr : Option SchedAttr) (options : KvArray) (mutex : Bool) (E : Env) :
    (w.create h q policyNamed attr options mutex E).Settles owned w := by
  obtain ⟨object, hq⟩ := Option.isSome_iff_exists.1 (hw.owned_exists q howned)
  rcases create_cases hq h policyNamed attr options mutex E with ⟨-, hworld, hsettle⟩ | hnew
  · rw [WorldResult.Settles, hworld]
    exact ⟨hw, hsettle⟩
  · rw [hnew]
    exact ⟨hw.newSched hnone hq _, newSched_settles hnone hq _⟩

/-- `fini` gives back the state of the active policy. -/
theorem policyFini_settles {held : Resource → ℕ} (active : Option ActivePolicy)
    (hlibrary : ∀ p, active = some p → held (.library h p.library) ≠ 0)
    (hheld : ∀ r, (policyHeld h active).count r ≤ held r) :
    settle held (policyFini h active) = some fun r => held r - (policyHeld h active).count r := by
  cases active with
  | none => rfl
  | some p =>
    have huse : settle held [.use (.library h p.library)] = some held :=
      settle_uses [Resource.library h p.library] fun r hr => by
        rw [List.mem_singleton.1 hr]
        exact hlibrary p rfl
    exact settle_trans huse (settle_gives (policyHeld h (some p)) hheld)

/-- The reference of a scheduler is about to be given up. -/
theorem World.Ok.leave (hw : w.Ok owned) (hs : w.scheds h = some s) :
    (w.putSched h none).Counted owned fun x => if x = s.qpu then 1 else 0 := by
  have hmem : h ∈ w.bound s.qpu := ⟨s, hs, rfl⟩
  refine ⟨fun x o hx => ?_, hw.referenced, hw.owned_exists, fun x t hx => ?_,
    fun x t p hx hp => ?_, fun x t hx => ?_, fun x t hx => ?_⟩
  · obtain ⟨hfinite, hrefs⟩ := hw.refs x o hx
    rw [bound_gone hs]
    by_cases hxq : x = s.qpu
    · subst hxq
      rw [if_pos rfl, if_pos rfl]
      have hcard := Set.ncard_sdiff_singleton_add_one hmem hfinite
      exact ⟨hfinite.subset Set.sdiff_subset, by omega⟩
    · rw [if_neg (Ne.symm hxq), if_neg hxq]
      exact ⟨hfinite, hrefs⟩
  all_goals
    rw [putSched_scheds] at hx
    split at hx
  · simp at hx
  · exact hw.qpu_exists x t hx
  · simp at hx
  · exact hw.library_open x t p hx hp
  · simp at hx
  · exact hw.names x t hx
  · simp at hx
  · exact hw.array x t hx

theorem destroy_settles (hw : w.Ok owned) (hs : w.scheds h = some s) :
    (w.destroy h).Settles owned w := by
  obtain ⟨object, hq⟩ := Option.isSome_iff_exists.1 (hw.qpu_exists h s hs)
  have hq' : (w.putSched h none).qpus s.qpu = some object := hq
  have hon : ∀ r, r.holder = .sched h → holdings w r = (s.held h).count r :=
    fun r hr => holdings_sched hs hr
  have hle := count_le_holdings hs
  have hsplit : ∀ r, (s.held h).count r = (policyHeld h s.active).count r +
      (librariesHeld h s.libraries ++ registryHeld h s.sched.plugins ++
        [Resource.taskTable h]).count r +
      (schedLocks h s.threading ++ [Resource.sched h]).count r := by
    intro r
    rw [SchedObject.held, List.count_append, List.count_append]
  -- First the scheduler is entered and `fini` is called, then the registry and the table go.
  have hentered : settle (holdings w) [.use (.sched h)] = some (holdings w) :=
    settle_uses [Resource.sched h] fun r hr => holdings_entry hs (List.mem_cons.2 (Or.inl
      (List.mem_singleton.1 hr)))
  have hfini := settle_trans hentered
    (policyFini_settles s.active (fun p hp => by
      obtain ⟨item, hitem, hpath⟩ := hw.library_open h s p hs hp
      rw [← hpath]
      exact holdings_library hs hitem) fun r => by
        have := hle r
        have := hsplit r
        omega)
  have hregistry := settle_trans hfini (settle_gives (librariesHeld h s.libraries ++
    registryHeld h s.sched.plugins ++ [Resource.taskTable h]) fun r => by
      have := hle r
      have := hsplit r
      omega)
  -- Nothing of this was the QPU's, which now loses a reference.
  have hrelease := settle_trans hregistry (qpuRelease_settles hq' fun r hr => by
    have hoff := count_elsewhere (s.held h) (fun _ => SchedObject.holder_of_mem)
      (r := r) (by rw [hr]; simp)
    have := hsplit r
    rw [holdings_qpu hq hr]
    omega)
  unfold World.destroy
  rw [hs]
  refine ⟨(hw.leave hs).release hq', ?_⟩
  refine (settle_trans hrelease (settle_gives (schedLocks h s.threading ++ [Resource.sched h])
    fun r => ?_)).trans (congrArg some (funext fun r => ?_))
  · split
    · next hr =>
      have hoff := count_elsewhere (s.held h) (fun _ => SchedObject.holder_of_mem)
        (r := r) (by rw [hr]; simp)
      have := hsplit r
      omega
    · have := hle r
      have := hsplit r
      omega
  · have hsum := hsplit r
    split
    · next hr =>
      have hoff := count_elsewhere (s.held h) (fun _ => SchedObject.holder_of_mem)
        (r := r) (by rw [hr]; simp)
      dsimp only
      omega
    · next hr =>
      dsimp only
      rw [holdings_qpuRelease _ hr, holdings_putSched]
      split
      · next hr' =>
        rw [hon r hr']
        show _ = 0
        omega
      · next hr' =>
        rw [count_elsewhere (s.held h) (fun _ => SchedObject.holder_of_mem) hr'] at hsum
        omega

/-! ## Plugins and policies -/

/-- The old array of a registry is given back for the new one. -/
theorem registryEvents_settles {held : Resource → ℕ} {old new : PluginRegistry ν}
    (hcapacity : new.capacity = old.capacity ∨ new.capacity ≠ 0)
    (hheld : ∀ r, (registryHeld h old).count r ≤ held r) :
    settle held (registryEvents h old new) = some fun r =>
      held r - (registryHeld h old).count r + (registryHeld h new).count r := by
  unfold registryEvents
  split
  · next hsame =>
    refine congrArg some (funext fun r => ?_)
    have hr := hheld r
    have hequal : registryHeld h new = registryHeld h old := by
      rw [registryHeld, registryHeld, hsame]
    rw [hequal]
    omega
  · next hchanged =>
    have hevents : (if old.capacity = 0 then [] else [Custody.give (Resource.registry h)]) ++
        [.take (.registry h)] =
        (registryHeld h old).map .give ++ (registryHeld h new).map .take := by
      rw [registryHeld, registryHeld, if_neg (hcapacity.resolve_left hchanged)]
      split <;> rfl
    rw [hevents]
    exact settle_trans (settle_gives _ hheld) (settle_takes _)

variable [DecidableEq ν]

/-- A registration grows the array or leaves it, and adds the name if it succeeds. -/
theorem pluginRegistryAdd_spec (E : Env) (registry : PluginRegistry ν) (name : ν) (c : Cursor) :
    ((pluginRegistryAdd E registry name c).2.1.capacity = registry.capacity ∨
      (pluginRegistryAdd E registry name c).2.1.capacity ≠ 0) ∧
    (pluginRegistryAdd E registry name c).2.1.items =
      if (pluginRegistryAdd E registry name c).1 = .ok then registry.items ++ [name]
      else registry.items := by
  unfold pluginRegistryAdd
  split
  · exact ⟨Or.inl rfl, rfl⟩
  · by_cases hfull : registry.items.length = registry.capacity
    · have hgrown : (if registry.capacity = 0 then 4 else registry.capacity * 2) ≠ 0 := by
        split <;> omega
      simp only [hfull, if_true, true_and]
      split
      · exact ⟨Or.inl rfl, rfl⟩
      · split <;> exact ⟨Or.inr hgrown, rfl⟩
    · simp only [hfull, if_false, false_and]
      split <;> exact ⟨Or.inl rfl, rfl⟩

/-- The new entry is written into an array that is there. -/
theorem registryWritten_capacity {E : Env} {registry : PluginRegistry ν} {name : ν}
    (h : registryWritten E registry name)
    (harray : registry.items ≠ [] → registry.capacity ≠ 0) :
    (pluginRegistryAdd E registry name .start).2.1.capacity ≠ 0 := by
  obtain ⟨hnew, hgrow⟩ : name ∉ registry.items ∧
      (registry.items.length = registry.capacity → E.alloc 0 = true) := of_decide_eq_true h
  unfold pluginRegistryAdd
  rw [if_neg hnew]
  by_cases hfull : registry.items.length = registry.capacity
  · have halloc : E.alloc Cursor.start.allocs = true := hgrow hfull
    have hgrown : (if registry.capacity = 0 then 4 else registry.capacity * 2) ≠ 0 := by
      split <;> omega
    simp only [hfull, halloc, Bool.not_true, Bool.false_eq_true, and_false, if_true, if_false]
    split <;> exact hgrown
  · have hcapacity : registry.capacity ≠ 0 := by
      intro hzero
      refine harray (fun hempty => hfull ?_) hzero
      rw [hempty, hzero]
      rfl
    simp only [hfull, false_and, if_false]
    split <;> exact hcapacity

/-- A registration that succeeds has written its entry. -/
theorem registryWritten_of_ok {E : Env} {registry : PluginRegistry ν} {name : ν}
    (h : (pluginRegistryAdd E registry name .start).1 = .ok) : registryWritten E registry name := by
  unfold pluginRegistryAdd at h
  split at h
  · simp at h
  · next hnew =>
    by_cases hfull : registry.items.length = registry.capacity
    · cases halloc : E.alloc 0 with
      | false => simp [hfull, halloc, Cursor.start] at h
      | true => simp [registryWritten, hnew, halloc]
    · simp [registryWritten, hnew, hfull]

/-- The array of a registry with an entry is there. -/
theorem registered_array (hw : w.Ok owned) (hs : w.scheds h = some s) {E : Env} {name : ν}
    (hwrite : registryWritten E s.sched.plugins name) :
    (pluginRegistryAdd E s.sched.plugins name .start).2.1.capacity ≠ 0 := by
  refine registryWritten_capacity hwrite fun hne => ?_
  refine hw.array h s hs fun hempty => hne ?_
  rw [← hw.names h s hs, hempty]
  rfl

/-- What `qhw_plugin_registry_add` reads and writes is held, and its array is moved. -/
theorem registration_settles (hw : w.Ok owned) (hs : w.scheds h = some s) (name : ν) (E : Env)
    {held : Resource → ℕ} (hheld : ∀ r, holdings w r ≤ held r) :
    settle held ((schedLocks h s.threading ++ registryRead h s.libraries).map .use ++
      registryEvents h s.sched.plugins (pluginRegistryAdd E s.sched.plugins name .start).2.1 ++
      if registryWritten E s.sched.plugins name then [.use (.registry h)] else []) = some fun r =>
        held r - (registryHeld h s.sched.plugins).count r +
          (registryHeld h (pluginRegistryAdd E s.sched.plugins name .start).2.1).count r := by
  have hregistry : ∀ r, (registryHeld h s.sched.plugins).count r ≤ held r := by
    intro r
    refine le_trans ?_ ((count_le_holdings hs r).trans (hheld r))
    simp only [SchedObject.held, List.count_append]
    omega
  have hread : ∀ r ∈ schedLocks h s.threading ++ registryRead h s.libraries, held r ≠ 0 := by
    intro r hr
    have hentry : holdings w r ≠ 0 := by
      rcases List.mem_append.1 hr with hr | hr
      · exact holdings_entry hs (List.mem_cons_of_mem _ hr)
      · exact holdings_registryRead hw hs hr
    have hle := hheld r
    omega
  have hadded := settle_trans (settle_uses _ hread) (registryEvents_settles
    (pluginRegistryAdd_spec E s.sched.plugins name Cursor.start).1 hregistry)
  refine settle_trans hadded ?_
  split
  · next hwrite =>
    refine settle_uses [Resource.registry h] fun r hr => ?_
    rw [List.mem_singleton.1 hr, registryHeld, registryHeld,
      if_neg (registered_array hw hs hwrite), List.count_singleton_self]
    omega
  · rfl

theorem load_settles (hw : w.Ok owned) (hs : w.scheds h = some s) (path : Path)
    (file : SharedObject ν) (E : Env) : (w.load h path file E).Settles owned w := by
  obtain ⟨object, hq, hat⟩ := hw.schedAt hs
  have hentered : settle (holdings w) [.use (.sched h)] = some (holdings w) :=
    settle_uses [Resource.sched h] fun r hr => holdings_entry hs (List.mem_cons.2 (Or.inl
      (List.mem_singleton.1 hr)))
  have hopened := settle_trans (settle_trans hentered (settle_takes [Resource.library h path]))
    (settle_uses [Resource.library h path] fun r hr => by
      rw [List.mem_singleton.1 hr, List.count_cons_self]
      omega)
  unfold World.load
  rw [hat]
  cases file with
  | missing => exact ⟨hw, hentered⟩
  | noSymbol =>
    exact ⟨hw, settle_trans hentered
      (settle_takes_gives [Resource.library h path] [Resource.library h path] fun _ => rfl)⟩
  | descriptor desc =>
    dsimp only
    split
    · next name hvalid hname =>
      obtain ⟨hcapacity, hitems⟩ :=
        pluginRegistryAdd_spec E s.sched.plugins name Cursor.start
      have hheld : ∀ r, (registryHeld h s.sched.plugins).count r ≤ (s.held h).count r := by
        intro r
        simp only [SchedObject.held, List.count_append]
        omega
      have hle := count_le_holdings hs
      have hadded := settle_trans hopened
        (registration_settles hw hs name E fun r => Nat.le_add_right _ _)
      have harray : (pluginRegistryAdd E s.sched.plugins name .start).1 = .ok →
          (pluginRegistryAdd E s.sched.plugins name .start).2.1.capacity ≠ 0 :=
        fun hok => registered_array hw hs (registryWritten_of_ok hok)
      have hload : loadPlugin E (s.sched.at object.qpu) name true .start =
          ⟨(pluginRegistryAdd E s.sched.plugins name .start).1, { s.sched.at object.qpu with
            plugins := (pluginRegistryAdd E s.sched.plugins name .start).2.1 }, none⟩ := rfl
      rw [hload]
      dsimp only at hadded ⊢
      generalize pluginRegistryAdd E s.sched.plugins name .start = add
        at hcapacity hitems hadded harray ⊢
      rw [← List.append_assoc, ← List.append_assoc] at hadded
      by_cases hok : add.1 = .ok
      · rw [if_pos hok] at hitems
        rw [if_pos hok, if_pos hok]
        refine ⟨hw.rebind hs _ rfl (fun p hp => ?_) ?_ fun _ => harray hok, ?_⟩
        · obtain ⟨item, hitem, hpath⟩ := hw.library_open h s p hs hp
          exact ⟨item, List.mem_append_left _ hitem, hpath⟩
        · show (s.libraries ++ [(name, path)]).map Prod.fst = add.2.1.items
          rw [hitems, List.map_append, hw.names h s hs]
          rfl
        · refine (settle_trans hadded (settle_takes [Resource.path h path])).trans
            (congrArg some (funext fun r => (holdings_rebind (fun hr => ?_)
              fun hr => ?_).symm))
          · have := hheld r
            rw [holdings_sched hs hr]
            simp only [SchedObject.held, librariesHeld, List.flatMap_append, List.flatMap_cons,
              List.flatMap_nil, List.count_append, List.count_cons, List.count_nil]
            simp only [SchedObject.held, librariesHeld, List.count_append, List.count_cons,
              List.count_nil] at this
            omega
          · rw [count_elsewhere _ (fun _ => holder_of_mem_registryHeld) hr,
              count_elsewhere _ (fun _ => holder_of_mem_registryHeld) hr,
              count_singleton_elsewhere rfl hr,
              count_singleton_elsewhere rfl hr]
            rfl
      · rw [if_neg hok] at hitems
        rw [if_neg hok, if_neg hok]
        refine ⟨hw.rebind hs _ rfl (fun p hp => hw.library_open h s p hs hp) ?_ fun hne => ?_, ?_⟩
        · show s.libraries.map Prod.fst = add.2.1.items
          rw [hitems, hw.names h s hs]
        · exact hcapacity.elim (fun hsame => hsame.trans_ne (hw.array h s hs hne)) id
        · refine (settle_trans hadded (settle_gives [Resource.library h path] fun r => ?_)).trans
            (congrArg some (funext fun r => (holdings_rebind (fun hr => ?_)
              fun hr => ?_).symm))
          · have := hheld r
            have := hle r
            omega
          · have := hheld r
            rw [holdings_sched hs hr]
            simp only [SchedObject.held, List.count_append] at this ⊢
            omega
          · rw [count_elsewhere _ (fun _ => holder_of_mem_registryHeld) hr,
              count_elsewhere _ (fun _ => holder_of_mem_registryHeld) hr]
            omega
    · refine ⟨hw, (settle_trans hopened (settle_gives [Resource.library h path]
        fun r => Nat.le_add_left _ _)).trans (congrArg some (funext fun r => ?_))⟩
      exact Nat.add_sub_cancel _ _

variable (P : ∀ n, PluginDesc (σ n))

theorem setPolicy_settles (hw : w.Ok owned) (hs : w.scheds h = some s) (name : ν)
    (options : KvArray) (E : Env) : (w.setPolicy P h name options E).Settles owned w := by
  obtain ⟨object, hq, hat⟩ := hw.schedAt hs
  have hentry : settle (holdings w) ((Resource.sched h :: schedLocks h s.threading ++
      registryRead h s.libraries).map .use) = some (holdings w) :=
    settle_uses _ fun r hr => (List.mem_append.1 hr).elim (holdings_entry hs)
      (holdings_registryRead hw hs)
  have hobjects : SameObjects (s.sched.at object.qpu) (QhwScheduler.setPolicy P E
    (s.sched.at object.qpu) name options .start).sched := setPolicy_objects
  unfold World.setPolicy
  rw [hat]
  dsimp only
  generalize QhwScheduler.setPolicy P E (s.sched.at object.qpu) name options .start = r
    at hobjects ⊢
  have hplugins : r.sched.plugins = s.sched.plugins := hobjects.2
  have hnames : s.libraries.map Prod.fst = r.sched.plugins.items := by
    rw [hplugins, hw.names h s hs]
  -- A scheduler with another policy state holds what it held.
  have hsame : ∀ made, holdings (w.putSched h (some { s with sched := r.sched, made := made })) =
      holdings w := by
    intro made
    funext x
    refine holdings_rebind (fun hx => ?_) fun _ => rfl
    rw [holdings_sched hs hx, SchedObject.held, SchedObject.held]
    dsimp only
    rw [registryHeld, registryHeld, hplugins]
  have harray : s.libraries ≠ [] → r.sched.plugins.capacity ≠ 0 := by
    rw [hplugins]
    exact hw.array h s hs
  have hok : ∀ made, (w.putSched h (some { s with sched := r.sched, made := made })).Ok owned :=
    fun made => hw.rebind hs _ rfl (fun p hp => hw.library_open h s p hs hp) hnames harray
  split
  · exact ⟨hok s.made, hentry.trans (congrArg some (hsame s.made).symm)⟩
  · next item hitem =>
    have hmem := List.mem_of_find?_eq_some hitem
    have hlibrary := holdings_library hs hmem
    have hregistry := holdings_registry hw hs (List.ne_nil_of_mem hmem)
    have hinit := settle_trans hentry (settle_uses [Resource.registry h, .library h item.2]
      fun x hx => by
        rcases List.mem_cons.1 hx with rfl | hx
        · exact hregistry
        · rw [List.mem_singleton.1 hx]
          exact hlibrary)
    split
    · exact ⟨hok s.made, hentry.trans (congrArg some (hsame s.made).symm)⟩
    · split
      · exact ⟨hok s.made, hinit.trans (congrArg some (hsame s.made).symm)⟩
      · have htable := holdings_taskTable hs
        have hreplayed : ∀ x ∈ [Resource.taskTable h, .registry h, .library h item.2,
            .policyState h s.made], holdings w x + [Resource.policyState h s.made].count x ≠ 0 := by
          simp only [List.mem_cons, List.not_mem_nil, or_false]
          rintro x (rfl | rfl | rfl | rfl)
          · omega
          · omega
          · omega
          · rw [List.count_singleton_self]
            omega
        have hmade := settle_trans hinit (settle_trans
          (settle_takes [Resource.policyState h s.made]) (settle_uses _ hreplayed))
        rw [List.append_assoc] at hmade
        split
        · refine ⟨hok (s.made + 1), ?_⟩
          refine (settle_trans hmade (settle_gives [Resource.policyState h s.made]
            fun x => by omega)).trans (congrArg some (funext fun x => ?_))
          rw [hsame]
          omega
        · refine ⟨hw.rebind hs _ rfl (fun p hp => ?_) hnames harray, ?_⟩
          · cases hp
            exact ⟨item, hmem, rfl⟩
          · have hpolicy : ∀ x, (policyHeld h s.active).count x ≤ (s.held h).count x := by
              intro x
              simp only [SchedObject.held, List.count_append]
              omega
            have hle := count_le_holdings hs
            have hopen : ∀ p, s.active = some p → holdings w (.library h p.library) +
                [Resource.policyState h s.made].count (.library h p.library) ≠ 0 := by
              intro p hp
              obtain ⟨item, hitem, hpath⟩ := hw.library_open h s p hs hp
              have := holdings_library hs hitem
              rw [hpath] at this
              omega
            have hfini := settle_trans hmade (policyFini_settles s.active hopen fun x => by
                have := hpolicy x
                have := hle x
                omega)
            have hother : (policyHeld h s.active).count (.registry h) = 0 :=
              List.count_eq_zero.2 fun hx => by
                obtain ⟨p, -, hp⟩ := List.mem_map.1 hx
                simp at hp
            refine (settle_trans hfini (settle_uses [Resource.registry h] fun x hx => ?_)).trans
              (congrArg some (funext fun x => (holdings_rebind (fun hx => ?_) fun hx => ?_).symm))
            · rw [List.mem_singleton.1 hx, hother]
              omega
            · have := hpolicy x
              rw [holdings_sched hs hx]
              simp only [SchedObject.held, List.count_append] at this ⊢
              rw [registryHeld, hplugins, ← registryHeld]
              show List.count x [Resource.policyState h s.made] + _ + _ = _
              omega
            · rw [count_elsewhere _ (fun _ => holder_of_mem_policyHeld) hx,
                count_singleton_elsewhere rfl hx]
              rfl

theorem call_settles (hw : w.Ok owned) (hs : w.scheds h = some s) {op : Op ν}
    (hload : ∀ name valid, op ≠ .loadPlugin name valid) (E : Env) :
    (w.call P h op E).Settles owned w := by
  obtain ⟨object, hq, hat⟩ := hw.schedAt hs
  obtain ⟨hcount, hplugins⟩ : SameObjects (s.sched.at object.qpu)
    (step P (s.sched.at object.qpu) E op).sched := step_objects hload
  unfold World.call
  rw [hat]
  dsimp only
  rw [hq, Option.map_some]
  generalize step P (s.sched.at object.qpu) E op = r at hcount hplugins ⊢
  refine ⟨(hw.reqpu hq { object with qpu := r.sched.qpu } hcount).rebind hs
    { s with sched := r.sched } rfl (fun p hp => hw.library_open h s p hs hp) ?_ ?_, ?_⟩
  · show s.libraries.map Prod.fst = r.sched.plugins.items
    rw [hplugins]
    exact hw.names h s hs
  · show s.libraries ≠ [] → r.sched.plugins.capacity ≠ 0
    rw [hplugins]
    exact hw.array h s hs
  · refine (settle_uses _ fun x hx => ?_).trans (congrArg some (funext fun x => ?_))
    · rcases List.mem_append.1 hx with hx | hx
      · rcases List.mem_append.1 hx with hx | hx
        · exact holdings_entry hs hx
        · rcases List.mem_cons.1 hx with rfl | hx
          · exact holdings_taskTable hs
          · exact holdings_of_qpu hq (List.mem_append_left _ hx)
      · cases hactive : s.active with
        | none =>
          rw [hactive] at hx
          simp [policyUsed] at hx
        | some p =>
          rw [hactive] at hx
          obtain ⟨item, hitem, hpath⟩ := hw.library_open h s p hs hactive
          rcases List.mem_cons.1 hx with rfl | hx
          · rw [← hpath]
            exact holdings_library hs hitem
          · rw [List.mem_singleton.1 hx]
            refine holdings_of_sched hs (List.mem_append_left _ (List.mem_append_left _ ?_))
            rw [hactive]
            exact List.mem_singleton.2 rfl
    · refine (holdings_rebind (w := w.putQpu s.qpu (some { object with qpu := r.sched.qpu }))
        (fun hx => ?_) fun _ =>
          holdings_reqpu hq { object with qpu := r.sched.qpu } rfl x).symm
      rw [holdings_sched hs hx, SchedObject.held, SchedObject.held]
      dsimp only
      rw [registryHeld, registryHeld, hplugins]
      rfl

end Calls

/-! ## What the calls make of a world -/

section Worlds

variable {w : World σ} {h q : ℕ} {s : SchedObject σ} {qpu : Qpu}

theorem qpuRelease_scheds (w : World σ) (q : ℕ) : (w.qpuRelease q).1.scheds = w.scheds := by
  unfold World.qpuRelease
  split
  · rfl
  · dsimp only
    split <;> rfl

/-- Another scheduler in the place of one that is there. -/
theorem isSome_putSched (hs : w.scheds h = some s) (s' : SchedObject σ) (x : ℕ) :
    ((w.putSched h (some s')).scheds x).isSome = (w.scheds x).isSome := by
  rw [putSched_scheds]
  split
  · next hx =>
    rw [hx, hs]
    rfl
  · rfl

variable [DecidableEq ν] {P : ∀ n, PluginDesc (σ n)}

theorem load_world (hat : w.schedAt h = some { s with sched := s.sched.at qpu }) (path : Path)
    (file : SharedObject ν) (E : Env) : (w.load h path file E).world = w ∨
      ∃ name libraries, (w.load h path file E).world = w.putSched h (some { s with
        sched := (step P (s.sched.at qpu) E (.loadPlugin name true)).sched
        libraries := libraries }) := by
  unfold World.load
  rw [hat]
  cases file with
  | missing => exact Or.inl rfl
  | noSymbol => exact Or.inl rfl
  | descriptor desc =>
    dsimp only
    split
    · exact Or.inr ⟨_, _, rfl⟩
    · exact Or.inl rfl

theorem setPolicy_world (hat : w.schedAt h = some { s with sched := s.sched.at qpu }) (name : ν)
    (options : KvArray) (E : Env) :
    ∃ active made, (w.setPolicy P h name options E).world = w.putSched h (some { s with
      sched := (step P (s.sched.at qpu) E (.setPolicy name options)).sched
      active := active
      made := made }) := by
  unfold World.setPolicy
  rw [hat]
  dsimp only
  split
  · exact ⟨_, _, rfl⟩
  · split
    · exact ⟨_, _, rfl⟩
    · split
      · exact ⟨_, _, rfl⟩
      · split
        · exact ⟨_, _, rfl⟩
        · exact ⟨_, _, rfl⟩

end Worlds

/-! ## The user and the objects -/

/-- Every reference is accounted for, and the schedulers that exist are those that the user
has. -/
structure Session.Ok (x : Session σ) : Prop where
  world : x.world.Ok x.user.qpus
  scheds : ∀ h, x.user.scheds h = (x.world.scheds h).isSome

section Sessions

variable {x : Session σ} {h q : ℕ}

/-- A scheduler that the user has is there. -/
theorem Session.Ok.sched (hx : x.Ok) (hhas : x.user.scheds h) : ∃ s, x.world.scheds h = some s :=
  Option.isSome_iff_exists.1 (hx.scheds h ▸ hhas)

theorem Session.Ok.qpu (hx : x.Ok) (hhas : x.user.qpus q) :
    ∃ object, x.world.qpus q = some object :=
  Option.isSome_iff_exists.1 (hx.world.owned_exists q hhas)

variable [DecidableEq ν] (P : ∀ n, PluginDesc (σ n))

/-- **Every call** keeps the invariant and settles with what the objects hold. -/
theorem worldStep_settles (hx : x.Ok) {op : WorldOp ν} (hproper : op.Proper x) :
    (worldStep P x.world op).Settles (x.user.after op (worldStep P x.world op).rc).qpus
      x.world := by
  cases op with
  | qpuCreate q qpuId metadata mutex E =>
    rw [User.after, apply_ite User.qpus]
    exact qpuCreate_settles hx.world hproper qpuId metadata mutex E
  | qpuDestroy q => exact qpuDestroy_settles hx.world hproper
  | create h q policyNamed attr options mutex E =>
    rw [User.after, apply_ite User.qpus, ite_self]
    exact create_settles hx.world hproper.1 hproper.2 policyNamed attr options mutex E
  | destroy h =>
    obtain ⟨s, hs⟩ := hx.sched hproper
    exact destroy_settles hx.world hs
  | load h path file E =>
    obtain ⟨s, hs⟩ := hx.sched hproper
    exact load_settles hx.world hs path file E
  | setPolicy h name options E =>
    obtain ⟨s, hs⟩ := hx.sched hproper
    exact setPolicy_settles P hx.world hs name options E
  | call h op E =>
    obtain ⟨s, hs⟩ := hx.sched hproper.1
    exact call_settles P hx.world hs hproper.2.1 E

/-- The user writes down which schedulers there are. -/
theorem worldStep_scheds (hx : x.Ok) {op : WorldOp ν} (hproper : op.Proper x) (y : ℕ) :
    (x.user.after op (worldStep P x.world op).rc).scheds y =
      ((worldStep P x.world op).world.scheds y).isSome := by
  cases op with
  | qpuCreate q qpuId metadata mutex E =>
    rw [User.after, apply_ite User.scheds, ite_self, hx.scheds]
    show _ = ((x.world.qpuCreate q qpuId metadata mutex E).world.scheds y).isSome
    rcases qpuCreate_cases x.world q qpuId metadata mutex E with ⟨-, hworld, -⟩ | ⟨copied, hnew⟩
    · rw [hworld]
    · rw [hnew]
      rfl
  | qpuDestroy q =>
    show x.user.scheds y = ((x.world.qpuRelease q).1.scheds y).isSome
    rw [qpuRelease_scheds, hx.scheds]
  | create h q policyNamed attr options mutex E =>
    obtain ⟨object, hq⟩ := hx.qpu hproper.2
    rw [User.after]
    show User.scheds (if (x.world.create h q policyNamed attr options mutex E).rc = Rc.ok then _
      else _) y = ((x.world.create h q policyNamed attr options mutex E).world.scheds y).isSome
    rcases create_cases hq h policyNamed attr options mutex E with ⟨hrc, hworld, -⟩ | hnew
    · rw [if_neg hrc, hworld, hx.scheds]
    · rw [hnew, if_pos rfl]
      show Function.update x.user.scheds h true y = _
      rw [World.withSched, putSched_scheds, Function.update_apply]
      split
      · rfl
      · exact hx.scheds y
  | destroy h =>
    obtain ⟨s, hs⟩ := hx.sched hproper
    have hworld : (worldStep P x.world (.destroy h)).world =
        ((x.world.putSched h none).qpuRelease s.qpu).1 := by
      show (x.world.destroy h).world = _
      unfold World.destroy
      rw [hs]
    rw [hworld, qpuRelease_scheds, putSched_scheds]
    show Function.update x.user.scheds h false y = _
    rw [Function.update_apply]
    split
    · rfl
    · exact hx.scheds y
  | load h path file E =>
    obtain ⟨s, hs⟩ := hx.sched hproper
    obtain ⟨object, -, hat⟩ := hx.world.schedAt hs
    refine (hx.scheds y).trans ?_
    show _ = ((x.world.load h path file E).world.scheds y).isSome
    rcases load_world (P := P) hat path file E with hworld | ⟨name, libraries, hworld⟩
    · rw [hworld]
    · rw [hworld, isSome_putSched hs]
  | setPolicy h name options E =>
    obtain ⟨s, hs⟩ := hx.sched hproper
    obtain ⟨object, -, hat⟩ := hx.world.schedAt hs
    obtain ⟨active, made, hworld⟩ := setPolicy_world (P := P) hat name options E
    refine (hx.scheds y).trans ?_
    show _ = ((x.world.setPolicy P h name options E).world.scheds y).isSome
    rw [hworld, isSome_putSched hs]
  | call h op E =>
    obtain ⟨s, hs⟩ := hx.sched hproper.1
    obtain ⟨object, -, hat⟩ := hx.world.schedAt hs
    refine (hx.scheds y).trans ?_
    show _ = ((x.world.call P h op E).world.scheds y).isSome
    unfold World.call
    rw [hat]
    exact (isSome_putSched (w := x.world.putQpu s.qpu _) hs _ y).symm

/-- **Every call** of a user who names what it has keeps the invariant. -/
theorem sessionNext_ok (hx : x.Ok) {op : WorldOp ν} (hproper : op.Proper x) :
    (sessionNext P x op).Ok :=
  ⟨(worldStep_settles P hx hproper).1, worldStep_scheds P hx hproper⟩

end Sessions

/-! ## Runs -/

theorem empty_ok : (Session.empty : Session σ).Ok where
  world := ⟨fun _ _ h => by simp [Session.empty, World.empty] at h,
    fun _ _ h => by simp [Session.empty, World.empty] at h,
    fun _ h => by simp [Session.empty] at h,
    fun _ _ h => by simp [Session.empty, World.empty] at h,
    fun _ _ _ h => by simp [Session.empty, World.empty] at h,
    fun _ _ h => by simp [Session.empty, World.empty] at h,
    fun _ _ h => by simp [Session.empty, World.empty] at h⟩
  scheds _ := rfl

variable [DecidableEq ν]

end QhwScheduler
