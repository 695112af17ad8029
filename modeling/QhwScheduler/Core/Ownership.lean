import Mathlib.Data.Set.Card
import QhwScheduler.Core.Lifecycle
import QhwScheduler.Core.World

/-!
# What objects hold

Everything that is taken from the system is held by an object that exists, and is given back
once.

* `SchedObject.held`, `QpuObject.held`, `holdings` — what the objects of a world hold.
* `World.Counted`, `World.Ok` — the invariant: a QPU has a reference for a user who has it and
  for each of its schedulers, a QPU that somebody has exists, and the hooks of the active
  policy are in a shared object that is open.
* `Counted.release`, `qpuRelease_settles` — giving up a reference.
* `step_objects` — operations on tasks change neither references nor plugins.
-/

namespace QhwScheduler

open Foundations

variable {ν : Type} {σ : ν → Type}

/-! ## Holdings -/

/-- The object that holds a resource. -/
inductive Holder where
  | qpu (address : ℕ)
  | sched (address : ℕ)
  deriving DecidableEq

/-- The object that holds a resource. -/
def Resource.holder : Resource → Holder
  | .qpu q => .qpu q
  | .qpuLock q => .qpu q
  | .qpuMetadata q => .qpu q
  | .sched h => .sched h
  | .schedLock h => .sched h
  | .taskTable h => .sched h
  | .registry h => .sched h
  | .library h _ => .sched h
  | .path h _ => .sched h
  | .policyState h _ => .sched h

/-- What a QPU holds: its memory, its lock and the copy of the metadata. -/
def QpuObject.held (q : ℕ) (object : QpuObject) : List Resource :=
  [.qpu q, .qpuLock q] ++ if object.copied then [.qpuMetadata q] else []

/-- The array of a registry. -/
def registryHeld (h : ℕ) (registry : PluginRegistry ν) : List Resource :=
  if registry.capacity = 0 then [] else [.registry h]

/-- The entries of a registry: shared objects, and the copies of their paths. -/
def librariesHeld (h : ℕ) (libraries : List (ν × Path)) : List Resource :=
  libraries.flatMap fun item => [.library h item.2, .path h item.2]

/-- The state of the active policy. -/
def policyHeld (h : ℕ) (active : Option ActivePolicy) : List Resource :=
  active.toList.map fun p => .policyState h p.state

/-- What a scheduler holds. -/
def SchedObject.held (h : ℕ) (s : SchedObject σ) : List Resource :=
  policyHeld h s.active ++ (librariesHeld h s.libraries ++ registryHeld h s.sched.plugins ++
    [.taskTable h]) ++ (schedLocks h s.threading ++ [.sched h])

/-- What an object of a world holds. -/
def World.heldBy (w : World σ) : Holder → List Resource
  | .qpu q => (w.qpus q).elim [] (QpuObject.held q)
  | .sched h => (w.scheds h).elim [] (SchedObject.held h)

/-- How often the objects of a world hold a resource. -/
def holdings (w : World σ) (r : Resource) : ℕ := (w.heldBy r.holder).count r

section Holdings

variable {w : World σ} {h q : ℕ} {s s' : SchedObject σ} {object : QpuObject} {r : Resource}

theorem holder_of_mem_schedLocks {threading : Threading} (hr : r ∈ schedLocks h threading) :
    r.holder = .sched h := by
  unfold schedLocks at hr
  split at hr
  · rw [List.mem_singleton.1 hr]
    rfl
  · simp at hr

theorem holder_of_mem_registryHeld {registry : PluginRegistry ν}
    (hr : r ∈ registryHeld h registry) : r.holder = .sched h := by
  unfold registryHeld at hr
  split at hr
  · simp at hr
  · rw [List.mem_singleton.1 hr]
    rfl

theorem holder_of_mem_librariesHeld {libraries : List (ν × Path)}
    (hr : r ∈ librariesHeld h libraries) : r.holder = .sched h := by
  obtain ⟨item, -, hr⟩ := List.mem_flatMap.1 hr
  rcases List.mem_cons.1 hr with rfl | hr
  · rfl
  · rw [List.mem_singleton.1 hr]
    rfl

theorem holder_of_mem_policyHeld {active : Option ActivePolicy} (hr : r ∈ policyHeld h active) :
    r.holder = .sched h := by
  obtain ⟨p, -, rfl⟩ := List.mem_map.1 hr
  rfl

theorem SchedObject.holder_of_mem (hr : r ∈ s.held h) : r.holder = .sched h := by
  simp only [held, List.mem_append, List.mem_singleton] at hr
  rcases hr with (hr | (hr | hr) | rfl) | hr | rfl
  · exact holder_of_mem_policyHeld hr
  · exact holder_of_mem_librariesHeld hr
  · exact holder_of_mem_registryHeld hr
  · rfl
  · exact holder_of_mem_schedLocks hr
  · rfl

theorem QpuObject.holder_of_mem (hr : r ∈ object.held q) : r.holder = .qpu q := by
  simp only [held, List.mem_append, List.mem_cons, List.not_mem_nil, or_false] at hr
  rcases hr with (rfl | rfl) | hr
  · rfl
  · rfl
  · split at hr
    · rw [List.mem_singleton.1 hr]
      rfl
    · simp at hr

/-- What a scheduler holds can be used. -/
theorem holdings_of_sched (hs : w.scheds h = some s) (hr : r ∈ s.held h) : holdings w r ≠ 0 := by
  rw [holdings, SchedObject.holder_of_mem hr, World.heldBy, hs]
  exact (List.count_pos_iff.2 hr).ne'

theorem holdings_of_qpu (hq : w.qpus q = some object) (hr : r ∈ object.held q) :
    holdings w r ≠ 0 := by
  rw [holdings, QpuObject.holder_of_mem hr, World.heldBy, hq]
  exact (List.count_pos_iff.2 hr).ne'

theorem count_le_holdings (hs : w.scheds h = some s) (r : Resource) :
    (s.held h).count r ≤ holdings w r := by
  by_cases hr : r.holder = .sched h
  · rw [holdings, hr, World.heldBy, hs]
    exact Nat.le_refl _
  · rw [List.count_eq_zero.2 fun hmem => hr (SchedObject.holder_of_mem hmem)]
    exact Nat.zero_le _

/-- Another scheduler at an address holds other things there. -/
theorem holdings_putSched (w : World σ) (h : ℕ) (s : Option (SchedObject σ)) (r : Resource) :
    holdings (w.putSched h s) r =
      if r.holder = .sched h then (s.elim [] (SchedObject.held h)).count r else holdings w r := by
  unfold holdings World.heldBy World.putSched
  cases hr : r.holder with
  | qpu q => simp
  | sched h' =>
    by_cases hh : h' = h
    · subst hh
      simp
    · simp [hh]

theorem holdings_putQpu (w : World σ) (q : ℕ) (object : Option QpuObject) (r : Resource) :
    holdings (w.putQpu q object) r =
      if r.holder = .qpu q then (object.elim [] (QpuObject.held q)).count r else holdings w r := by
  unfold holdings World.heldBy World.putQpu
  cases hr : r.holder with
  | qpu q' =>
    by_cases hq : q' = q
    · subst hq
      simp
    · simp [hq]
  | sched h => simp

theorem holdings_sched (hs : w.scheds h = some s) (hr : r.holder = .sched h) :
    holdings w r = (s.held h).count r := by
  rw [holdings, hr, World.heldBy, hs]
  rfl

theorem holdings_qpu (hq : w.qpus q = some object) (hr : r.holder = .qpu q) :
    holdings w r = (object.held q).count r := by
  rw [holdings, hr, World.heldBy, hq]
  rfl

/-- Elsewhere nothing is counted. -/
theorem count_elsewhere (rs : List Resource) {o : Holder} (hrs : ∀ r ∈ rs, r.holder = o)
    (hr : r.holder ≠ o) : rs.count r = 0 :=
  List.count_eq_zero.2 fun h => hr (hrs r h)

theorem count_singleton_elsewhere {t : Resource} {o : Holder} (ht : t.holder = o)
    (hr : r.holder ≠ o) : [t].count r = 0 :=
  count_elsewhere [t] (fun x hx => by rw [List.mem_singleton.1 hx]; exact ht) hr

end Holdings

/-! ## References -/

@[simp] theorem putQpu_qpus (w : World σ) (q : ℕ) (object : Option QpuObject) (x : ℕ) :
    (w.putQpu q object).qpus x = if x = q then object else w.qpus x :=
  Function.update_apply ..

@[simp] theorem putQpu_scheds (w : World σ) (q : ℕ) (object : Option QpuObject) :
    (w.putQpu q object).scheds = w.scheds := rfl

@[simp] theorem putSched_scheds (w : World σ) (h : ℕ) (s : Option (SchedObject σ)) (x : ℕ) :
    (w.putSched h s).scheds x = if x = h then s else w.scheds x :=
  Function.update_apply ..

@[simp] theorem putSched_qpus (w : World σ) (h : ℕ) (s : Option (SchedObject σ)) :
    (w.putSched h s).qpus = w.qpus := rfl

/-- The schedulers that are bound to a QPU. -/
def World.bound (w : World σ) (q : ℕ) : Set ℕ := {h | ∃ s, w.scheds h = some s ∧ s.qpu = q}

/-- Every QPU counts the user who has it by the records `owned`, its schedulers, and `extra q`
references that are about to be given up; and what the user has and what a scheduler refers
to exists. -/
structure World.Counted (owned : ℕ → Bool) (extra : ℕ → ℕ) (w : World σ) : Prop where
  refs : ∀ q object, w.qpus q = some object → (w.bound q).Finite ∧
    object.qpu.refcount = extra q + (if owned q then 1 else 0) + (w.bound q).ncard
  referenced : ∀ q object, w.qpus q = some object → object.qpu.refcount ≠ 0
  owned_exists : ∀ q, owned q → (w.qpus q).isSome
  qpu_exists : ∀ h s, w.scheds h = some s → (w.qpus s.qpu).isSome
  library_open : ∀ h s p, w.scheds h = some s → s.active = some p →
    ∃ item ∈ s.libraries, item.2 = p.library
  names : ∀ h s, w.scheds h = some s → s.libraries.map Prod.fst = s.sched.plugins.items
  array : ∀ h s, w.scheds h = some s → s.libraries ≠ [] → s.sched.plugins.capacity ≠ 0

/-- Every reference is accounted for. -/
def World.Ok (owned : ℕ → Bool) (w : World σ) : Prop := w.Counted owned fun _ => 0

section References

variable {w : World σ} {owned : ℕ → Bool} {extra : ℕ → ℕ} {h q : ℕ} {s s' : SchedObject σ}
  {object : QpuObject} {r : Resource}

theorem bound_rebind (hs : w.scheds h = some s) (hqpu : s'.qpu = s.qpu) (q : ℕ) :
    (w.putSched h (some s')).bound q = w.bound q := by
  ext x
  by_cases hx : x = h
  · subst hx
    simp [World.bound, hs, hqpu]
  · simp [World.bound, hx]

theorem bound_new (hnone : w.scheds h = none) (s : SchedObject σ) (q : ℕ) :
    (w.putSched h (some s)).bound q = if s.qpu = q then insert h (w.bound q) else w.bound q := by
  ext x
  by_cases hx : x = h
  · subst hx
    by_cases hq : s.qpu = q <;> simp [World.bound, hnone, hq]
  · by_cases hq : s.qpu = q <;> simp [World.bound, hx, hq]

theorem bound_gone (hs : w.scheds h = some s) (q : ℕ) :
    (w.putSched h none).bound q = if s.qpu = q then w.bound q \ {h} else w.bound q := by
  ext x
  by_cases hx : x = h
  · subst hx
    by_cases hq : s.qpu = q <;> simp [World.bound, hs, hq]
  · by_cases hq : s.qpu = q <;> simp [World.bound, hx, hq]

/-- A scheduler finds its QPU. -/
theorem World.Counted.schedAt (hw : w.Counted owned extra) (hs : w.scheds h = some s) :
    ∃ object, w.qpus s.qpu = some object ∧
      w.schedAt h = some { s with sched := s.sched.at object.qpu } := by
  obtain ⟨object, hobject⟩ := Option.isSome_iff_exists.1 (hw.qpu_exists h s hs)
  exact ⟨object, hobject, by simp [World.schedAt, hs, hobject]⟩

/-- Another scheduler on the same QPU. -/
theorem World.Counted.rebind (hw : w.Counted owned extra) (hs : w.scheds h = some s)
    (s' : SchedObject σ) (hqpu : s'.qpu = s.qpu)
    (hlibrary : ∀ p, s'.active = some p → ∃ item ∈ s'.libraries, item.2 = p.library)
    (hnames : s'.libraries.map Prod.fst = s'.sched.plugins.items)
    (harray : s'.libraries ≠ [] → s'.sched.plugins.capacity ≠ 0) :
    (w.putSched h (some s')).Counted owned extra := by
  refine ⟨fun q object hq => ?_, hw.referenced, hw.owned_exists, fun x t hx => ?_,
    fun x t p hx hp => ?_, fun x t hx => ?_, fun x t hx => ?_⟩
  · rw [bound_rebind hs hqpu]
    exact hw.refs q object hq
  all_goals
    rw [putSched_scheds] at hx
    split at hx
  · cases hx
    rw [putSched_qpus, hqpu]
    exact hw.qpu_exists h s hs
  · exact hw.qpu_exists x t hx
  · cases hx
    exact hlibrary p hp
  · exact hw.library_open x t p hx hp
  · cases hx
    exact hnames
  · exact hw.names x t hx
  · cases hx
    exact harray
  · exact hw.array x t hx

theorem isSome_putQpu (object' : QpuObject) {x : ℕ} (hx : (w.qpus x).isSome) :
    ((w.putQpu q (some object')).qpus x).isSome := by
  rw [putQpu_qpus]
  split
  · rfl
  · exact hx

/-- Another QPU at the address, with as many references. -/
theorem World.Counted.reqpu (hw : w.Counted owned extra) (hq : w.qpus q = some object)
    (object' : QpuObject) (hcount : object'.qpu.refcount = object.qpu.refcount) :
    (w.putQpu q (some object')).Counted owned extra := by
  refine ⟨fun x o hx => ?_, fun x o hx => ?_, fun x hx => isSome_putQpu _ (hw.owned_exists x hx),
    fun x t hx => isSome_putQpu _ (hw.qpu_exists x t hx), hw.library_open, hw.names, hw.array⟩
  · rw [putQpu_qpus] at hx
    split at hx
    · next hxq =>
      cases hx
      rw [hxq, hcount]
      exact hw.refs q object hq
    · exact hw.refs x o hx
  · rw [putQpu_qpus] at hx
    split at hx
    · cases hx
      rw [hcount]
      exact hw.referenced q object hq
    · exact hw.referenced x o hx

/-- **Giving up a reference** that no user and no scheduler has. -/
theorem World.Counted.release (hw : w.Counted owned fun x => if x = q then 1 else 0)
    (hq : w.qpus q = some object) : (w.qpuRelease q).1.Ok owned := by
  obtain ⟨hfinite, hrefs⟩ := hw.refs q object hq
  rw [if_pos rfl] at hrefs
  unfold World.qpuRelease
  rw [hq]
  dsimp only [QhwScheduler.qpuRelease]
  split
  · next hleft =>
    refine ⟨fun x o hx => ?_, fun x o hx => ?_, fun x hx => isSome_putQpu _ (hw.owned_exists x hx),
      fun x t hx => isSome_putQpu _ (hw.qpu_exists x t hx), hw.library_open, hw.names, hw.array⟩
    · rw [putQpu_qpus] at hx
      split at hx
      · next hxq =>
        cases hx
        subst hxq
        refine ⟨hfinite, ?_⟩
        show object.qpu.refcount - 1 = 0 + (if owned x then 1 else 0) + (w.bound x).ncard
        omega
      · next hxq =>
        have hold := hw.refs x o hx
        rw [if_neg hxq] at hold
        exact hold
    · rw [putQpu_qpus] at hx
      split at hx
      · cases hx
        exact hleft
      · exact hw.referenced x o hx
  · next hlast =>
    have hlast : object.qpu.refcount - 1 = 0 := not_not.1 hlast
    -- The reference that is given up is the last one: no scheduler is bound any more, and the
    -- user has destroyed the QPU.
    have hunbound : w.bound q = ∅ := (Set.ncard_eq_zero hfinite).1 (by omega)
    have hdisowned : ¬ owned q := fun howned => by
      rw [if_pos howned] at hrefs
      omega
    refine ⟨fun x o hx => ?_, fun x o hx => ?_, fun x hx => ?_, fun x t hx => ?_, hw.library_open,
      hw.names, hw.array⟩
    · rw [putQpu_qpus] at hx
      split at hx
      · simp at hx
      · next hxq =>
        have hold := hw.refs x o hx
        rw [if_neg hxq] at hold
        exact hold
    · rw [putQpu_qpus] at hx
      split at hx
      · simp at hx
      · exact hw.referenced x o hx
    · rw [putQpu_qpus, if_neg]
      · exact hw.owned_exists x hx
      · rintro rfl
        exact hdisowned hx
    · rw [putQpu_qpus, if_neg]
      · exact hw.qpu_exists x t hx
      · intro hxq
        have hmem : x ∈ w.bound q := ⟨t, hx, hxq⟩
        rw [hunbound] at hmem
        exact hmem

/-- Giving up a reference does not touch what others hold. -/
theorem holdings_qpuRelease (w : World σ) (hr : r.holder ≠ .qpu q) :
    holdings (w.qpuRelease q).1 r = holdings w r := by
  unfold World.qpuRelease
  split
  · rfl
  · dsimp only
    split
    · rw [holdings_putQpu, if_neg hr]
    · rw [holdings_putQpu, if_neg hr]

/-- The last reference takes with it all that the QPU holds. -/
theorem qpuRelease_settles {held : Resource → ℕ} (hq : w.qpus q = some object)
    (hheld : ∀ r, r.holder = .qpu q → held r = (object.held q).count r) :
    settle held (w.qpuRelease q).2 = some fun r =>
      if r.holder = .qpu q then holdings (w.qpuRelease q).1 r else held r := by
  have huse : ∀ r ∈ [Resource.qpu q, .qpuLock q], held r ≠ 0 := by
    intro r hr
    have hmem : r ∈ object.held q := List.mem_append_left _ hr
    rw [hheld r (QpuObject.holder_of_mem hmem)]
    exact (List.count_pos_iff.2 hmem).ne'
  unfold World.qpuRelease
  rw [hq]
  dsimp only
  split
  · refine (settle_uses _ huse).trans (congrArg some (funext fun r => ?_))
    split
    · next hr =>
      rw [holdings_putQpu, if_pos hr]
      exact hheld r hr
    · rfl
  · have hall : ∀ r, ([Resource.qpuLock q] ++
        (if object.copied then [Resource.qpuMetadata q] else []) ++ [Resource.qpu q]).count r =
        (object.held q).count r := by
      intro r
      simp only [QpuObject.held, List.count_append, List.count_cons, List.count_nil]
      omega
    have hoff : ∀ r : Resource, r.holder ≠ .qpu q → (object.held q).count r = 0 :=
      fun r hr => count_elsewhere _ (fun _ => QpuObject.holder_of_mem) hr
    have hevents : [Custody.use (Resource.qpu q), .use (.qpuLock q), .give (.qpuLock q)] ++
        (if object.copied then [.give (.qpuMetadata q)] else []) ++ [.give (.qpu q)] =
        [Resource.qpu q, .qpuLock q].map .use ++ ([Resource.qpuLock q] ++
          (if object.copied then [Resource.qpuMetadata q] else []) ++
            [Resource.qpu q]).map .give := by
      cases object.copied <;> rfl
    rw [hevents]
    refine (settle_trans (settle_uses _ huse) (settle_gives _ fun r => ?_)).trans
      (congrArg some (funext fun r => ?_))
    · rw [hall]
      by_cases hr : r.holder = .qpu q
      · rw [hheld r hr]
      · rw [hoff r hr]
        exact Nat.zero_le _
    · rw [hall]
      split
      · next hr =>
        rw [holdings_putQpu, if_pos hr, hheld r hr]
        exact Nat.sub_self _
      · next hr => rw [hoff r hr, Nat.sub_zero]

end References

/-! ## What operations leave alone -/

@[simp] theorem qpuQueued_refcount (qpu : Qpu) :
    (qpuRuntimeTaskQueued qpu).refcount = qpu.refcount := rfl

@[simp] theorem qpuUnqueued_refcount (qpu : Qpu) :
    (qpuRuntimeTaskUnqueued qpu).refcount = qpu.refcount := by
  unfold qpuRuntimeTaskUnqueued
  split <;> rfl

@[simp] theorem qpuStarted_refcount (qpu : Qpu) (id : TaskId) :
    (qpuRuntimeTaskStarted qpu id).2.refcount = qpu.refcount := by
  unfold qpuRuntimeTaskStarted
  split <;> rfl

@[simp] theorem qpuUnstarted_refcount (qpu : Qpu) (id : TaskId) :
    (qpuRuntimeTaskUnstarted qpu id).refcount = qpu.refcount := by
  unfold qpuRuntimeTaskUnstarted
  split <;> rfl

@[simp] theorem qpuFinished_refcount (qpu : Qpu) (id : TaskId) (state : TaskState) :
    (qpuRuntimeTaskFinished qpu id state).refcount = qpu.refcount := by
  cases state <;> rfl

/-- The same references to the QPU, and the same plugins. -/
def SameObjects (s s' : Sched σ) : Prop :=
  s'.qpu.refcount = s.qpu.refcount ∧ s'.plugins = s.plugins

theorem SameObjects.refl (s : Sched σ) : SameObjects s s := ⟨rfl, rfl⟩

theorem SameObjects.trans {s t u : Sched σ} (h : SameObjects s t) (h' : SameObjects t u) :
    SameObjects s u :=
  ⟨h'.1.trans h.1, h'.2.trans h.2⟩

section Operations

variable {P : ∀ n, PluginDesc (σ n)} {E : Env} {s : Sched σ} {c : Cursor} {id : TaskId}

theorem enqueueTaskLocked_objects (s : Sched σ) (task : TaskDesc) (c : Cursor) :
    SameObjects s (enqueueTaskLocked P E s task c).sched := by
  unfold enqueueTaskLocked
  dsimp only
  split
  · exact ⟨rfl, rfl⟩
  · split
    · exact ⟨rfl, rfl⟩
    · split
      · exact ⟨qpuUnqueued_refcount _, rfl⟩
      · exact ⟨rfl, rfl⟩

theorem removeQueuedTaskLocked_objects (s : Sched σ) (id : TaskId) (c : Cursor) :
    SameObjects s (removeQueuedTaskLocked P E s id c).1 := by
  unfold removeQueuedTaskLocked
  split
  · exact ⟨qpuUnqueued_refcount _, rfl⟩
  · exact ⟨qpuUnqueued_refcount _, rfl⟩

theorem enqueueChildren_objects (s : Sched σ) (done rest : List TaskDesc) (c : Cursor) :
    SameObjects s (enqueueChildren P E s done rest c).sched :=
  enqueueChildren_keeps rest done
    (fun s' c task _ h => h.trans (enqueueTaskLocked_objects s' task c))
    (fun s' id c h => h.trans (removeQueuedTaskLocked_objects s' id c)) (SameObjects.refl s) c

theorem submitSplitTaskLocked_objects (s : Sched σ) (parent : TaskDesc)
    (children : List TaskDesc) (c : Cursor) :
    SameObjects s (submitSplitTaskLocked P E s parent children c).sched := by
  unfold submitSplitTaskLocked
  dsimp only
  split
  · exact ⟨rfl, rfl⟩
  · split
    · exact ⟨rfl, rfl⟩
    · split
      · exact enqueueChildren_objects (P := P) (E := E) { s with
          tasks := _, enqueueSeqNext := s.enqueueSeqNext + 1 } [] children _
      · exact enqueueChildren_objects (P := P) (E := E) { s with
          tasks := _, enqueueSeqNext := s.enqueueSeqNext + 1 } [] children _

theorem computeSplitConfig_objects (s : Sched σ) (task : TaskDesc) :
    SameObjects s (computeSplitConfig P s task).2 := by
  rw [computeSplitConfig_sched]
  unfold getPolicySplitConfig
  split <;> exact ⟨rfl, rfl⟩

theorem submission_objects (s : Sched σ) : SubmissionKeeps P E (SameObjects s) where
  config s' task h := h.trans (computeSplitConfig_objects s' task)
  enqueue s' task c _ h := h.trans (enqueueTaskLocked_objects s' task c)
  split s' parent children c _ h := h.trans (submitSplitTaskLocked_objects s' parent children c)

theorem schedSelectNext_objects : SameObjects s (schedSelectNext P E s c).sched := by
  unfold schedSelectNext
  split
  · exact ⟨rfl, rfl⟩
  · dsimp only
    split
    · exact ⟨rfl, rfl⟩
    · split
      · exact ⟨rfl, rfl⟩
      · split
        · exact ⟨rfl, rfl⟩
        · exact ⟨qpuUnqueued_refcount _, rfl⟩

theorem taskUpdatePriority_objects {priority : Int64} :
    SameObjects s (taskUpdatePriority P E s id priority c).sched := by
  unfold taskUpdatePriority
  split
  · exact ⟨rfl, rfl⟩
  · split
    · exact ⟨rfl, rfl⟩
    · dsimp only
      split
      · exact ⟨rfl, rfl⟩
      · split <;> exact ⟨rfl, rfl⟩

theorem taskStarted_objects : SameObjects s (taskStarted P E s id c).sched := by
  unfold taskStarted
  split
  · exact ⟨rfl, rfl⟩
  · next record hfind =>
    split
    · exact ⟨rfl, rfl⟩
    · dsimp only
      split
      · exact ⟨rfl, rfl⟩
      · by_cases hqueued : record.state = .queued
        · simp only [hqueued, if_true]
          split
          · exact ⟨by simp, rfl⟩
          · split
            · exact ⟨by simp, rfl⟩
            · exact ⟨by simp, rfl⟩
        · simp only [hqueued, if_false]
          split
          · exact ⟨by simp, rfl⟩
          · split
            · exact ⟨by simp, rfl⟩
            · exact ⟨by simp, rfl⟩

theorem finishTask_objects {state : TaskState} :
    SameObjects s (finishTask P E s id state c).sched := by
  unfold finishTask
  split
  · exact ⟨rfl, rfl⟩
  · next record hfind =>
    have hqpu : (qpuRuntimeTaskFinished (if record.state = .queued then
        qpuRuntimeTaskUnqueued s.qpu else s.qpu) id state).refcount = s.qpu.refcount := by
      rw [qpuFinished_refcount]
      split
      · exact qpuUnqueued_refcount _
      · rfl
    split
    · exact ⟨rfl, rfl⟩
    · split
      · exact ⟨rfl, rfl⟩
      · split
        · exact ⟨rfl, rfl⟩
        · dsimp only
          split
          · exact ⟨hqpu, rfl⟩
          · exact ⟨hqpu, rfl⟩

theorem setPolicy_objects [DecidableEq ν] {name : ν} {options : KvArray} :
    SameObjects s (setPolicy P E s name options c).sched := by
  unfold setPolicy
  split
  · exact ⟨rfl, rfl⟩
  · split
    · exact ⟨rfl, rfl⟩
    · dsimp only
      split
      · exact ⟨rfl, rfl⟩
      · split <;> exact ⟨rfl, rfl⟩

/-- **Only loading a plugin changes the plugins**, and no operation on tasks the references. -/
theorem step_objects [DecidableEq ν] {op : Op ν}
    (hload : ∀ name valid, op ≠ .loadPlugin name valid) :
    SameObjects s (step P s E op).sched := by
  cases op with
  | setCallbacks callbacks => exact ⟨rfl, rfl⟩
  | loadPlugin name valid => exact absurd rfl (hload name valid)
  | setPolicy name options => exact setPolicy_objects
  | submitTask task answers =>
    exact (submission_objects s).submit (SameObjects.refl s) task answers .start
  | submitBegin task => exact (submission_objects s).prepare (SameObjects.refl s) task .start
  | submitEnd plan answers =>
    exact (submission_objects s).finish (SameObjects.refl s) plan answers .start
  | selectNext => exact schedSelectNext_objects
  | taskUpdatePriority id priority => exact taskUpdatePriority_objects
  | taskStarted id => exact taskStarted_objects
  | taskCompleted id => exact finishTask_objects
  | taskFailed id => exact finishTask_objects
  | taskCancelled id => exact finishTask_objects

end Operations

end QhwScheduler
