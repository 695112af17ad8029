import QhwScheduler.Core.Lifetimes

/-!
# One QPU of the world

What the calls do on one QPU is what `sharedNext` says.

* `World.view` — a QPU and the schedulers on it.
* `ViewMoves` — a call is some operations on the QPU; `qpuCreate_view`, `create_view`,
  `destroy_view`, `moves_call` — the calls; `worldStep_view` — any of them.
* `view_reachable` — as long as the user has the QPU, it and the schedulers on it are in a
  state that `sharedNext` reaches.
-/

namespace QhwScheduler

open Foundations

variable {ν : Type} {σ : ν → Type}

/-- A QPU and the schedulers on it. -/
def World.view (w : World σ) (q : ℕ) (qpu : Qpu) : Shared σ where
  qpu := qpu
  scheds h := (w.scheds h).bind fun s => if s.qpu = q then some s.sched else none

section Moves

variable {x : Session σ} {w w' : World σ} {h q : ℕ} {s s' : SchedObject σ}
  {object object' : QpuObject} {qpu : Qpu}

/-- A view changes with the schedulers on its QPU only. -/
theorem view_congr (hsched : ∀ x,
      (w'.scheds x).bind (fun s => if s.qpu = q then some s.sched else none) =
      (w.scheds x).bind fun s => if s.qpu = q then some s.sched else none) :
    w'.view q qpu = w.view q qpu := by
  rw [World.view, World.view, Shared.mk.injEq]
  exact ⟨rfl, funext hsched⟩

theorem view_update (hw : ∀ x, w'.scheds x = if x = h then some s' else w.scheds x)
    (hqpu : s'.qpu = q) (old : Qpu) : w'.view q qpu =
      ⟨qpu, Function.update (w.view q old).scheds h (some s'.sched)⟩ := by
  rw [World.view, Shared.mk.injEq]
  refine ⟨rfl, funext fun x => ?_⟩
  rw [hw, Function.update_apply]
  split
  · simp [hqpu]
  · rfl

theorem qpuRelease_qpus (hobject : w.qpus h = some object) (x : ℕ) :
    (w.qpuRelease h).1.qpus x = if x = h then
      if (qpuRelease object.qpu).refcount ≠ 0 then some { object with qpu := qpuRelease object.qpu }
      else none
      else w.qpus x := by
  unfold World.qpuRelease
  rw [hobject]
  dsimp only
  split <;> exact putQpu_qpus ..

/-- No scheduler is on a QPU that was just made. -/
theorem view_new (hx : x.Ok) (hnone : x.world.qpus q = none) (metadata : KvArray)
    (object : Option QpuObject) :
    (x.world.putQpu q object).view q (qpuCreate metadata) = sharedCreate metadata := by
  rw [World.view, sharedCreate, Shared.mk.injEq]
  refine ⟨rfl, funext fun y => ?_⟩
  rw [putQpu_scheds]
  cases hy : x.world.scheds y with
  | none => rfl
  | some t =>
    have hne : t.qpu ≠ q := fun heq => by
      have hmem : y ∈ x.world.bound q := ⟨t, hy, heq⟩
      rw [hx.world.bound_eq_empty hnone] at hmem
      exact hmem
    simp [hne]

variable [DecidableEq ν] {P : ∀ n, PluginDesc (σ n)}

theorem setPolicy_qpu {E : Env} {sched : Sched σ} {name : ν} {options : KvArray} {c : Cursor} :
    (setPolicy P E sched name options c).sched.qpu = sched.qpu := by
  unfold setPolicy
  split
  · rfl
  · split
    · rfl
    · dsimp only
      split
      · rfl
      · split <;> rfl

/-! ## Views -/

/-- The QPU is new, or the user had it, and it and the schedulers on it moved by operations of
theirs. -/
def ViewMoves (P : ∀ n, PluginDesc (σ n)) (x : Session σ) (w' : World σ) (q : ℕ)
    (object' : QpuObject) : Prop :=
  (∃ metadata, w'.view q object'.qpu = sharedCreate metadata) ∨
  ∃ object, x.world.qpus q = some object ∧ x.user.qpus q ∧ ∃ ops : List (SharedOp ν),
    w'.view q object'.qpu = Foundations.run (sharedNext P) (x.world.view q object.qpu) ops

/-- Nothing happened to the QPU. -/
theorem moves_still (hqpus : w'.qpus q = x.world.qpus q)
    (hview : w'.view q object'.qpu = x.world.view q object'.qpu) (hq : w'.qpus q = some object')
    (howned : x.user.qpus q) : ViewMoves P x w' q object' :=
  Or.inr ⟨object', hqpus ▸ hq, howned, [], hview⟩

/-- An operation on a scheduler is one of its QPU, and none of the others. -/
theorem moves_call {E : Env} {op : Op ν} (hs : x.world.scheds h = some s)
    (hobject : x.world.qpus s.qpu = some object)
    (hw : ∀ y, w'.scheds y = if y = h then some s' else x.world.scheds y) (hqpu : s'.qpu = s.qpu)
    (hsched : s'.sched = (step P (s.sched.at object.qpu) E op).sched)
    (hqpus : ∀ y, w'.qpus y =
      if y = s.qpu then some { object with qpu := s'.sched.qpu } else x.world.qpus y)
    (hq : w'.qpus q = some object') (howned : x.user.qpus q) : ViewMoves P x w' q object' := by
  rw [hqpus] at hq
  split at hq
  · next hself =>
    cases hq
    subst hself
    refine Or.inr ⟨object, hobject, howned, [.call h E op], ?_⟩
    have hold : (x.world.view s.qpu object.qpu).scheds h = some s.sched := by
      simp [World.view, hs]
    rw [view_update hw hqpu object.qpu, run_cons, run_nil, sharedNext, hold]
    show _ = Shared.put _ _ (step P (s.sched.at object.qpu) E op).sched
    rw [← hsched]
    rfl
  · next hother =>
    refine Or.inr ⟨object', hq, howned, [], view_congr fun y => ?_⟩
    rw [hw]
    split
    · next hy => simp [hy, hs, hqpu, Ne.symm hother]
    · rfl

theorem qpuCreate_view (hx : x.Ok) (hnone : x.world.qpus h = none) {qpuId : UInt64}
    {metadata : KvArray} {mutex : Bool} {E : Env}
    (hq : (x.world.qpuCreate h qpuId metadata mutex E).world.qpus q = some object')
    (howned : (if (x.world.qpuCreate h qpuId metadata mutex E).rc = .ok then
      Function.update x.user.qpus h true else x.user.qpus) q) :
    ViewMoves P x (x.world.qpuCreate h qpuId metadata mutex E).world q object' := by
  rcases qpuCreate_cases x.world h qpuId metadata mutex E with
    ⟨hrc, hworld, -⟩ | ⟨copied, hnew⟩
  · rw [if_neg hrc] at howned
    rw [hworld] at hq ⊢
    exact moves_still rfl rfl hq howned
  · rw [hnew, if_pos rfl] at howned
    rw [hnew] at hq ⊢
    dsimp only at hq ⊢
    by_cases hqh : q = h
    · subst hqh
      rw [putQpu_qpus, if_pos rfl] at hq
      cases hq
      exact Or.inl ⟨metadata, view_new hx hnone metadata _⟩
    · rw [Function.update_of_ne hqh] at howned
      exact moves_still (by rw [putQpu_qpus, if_neg hqh]) rfl hq howned

theorem create_view (hnone : x.world.scheds h = none) {y : ℕ} (hobject : x.world.qpus y = some object)
    (threading : Threading) (hq : (x.world.withSched h y object threading).qpus q = some object')
    (howned : x.user.qpus q) :
    ViewMoves P x (x.world.withSched h y object threading) q object' := by
  unfold World.withSched at hq ⊢
  rw [putSched_qpus, putQpu_qpus] at hq
  split at hq
  · next hself =>
    cases hq
    subst hself
    refine Or.inr ⟨object, hobject, howned, [.create h (.still 0)], ?_⟩
    have hold : (x.world.view q object.qpu).scheds h = none := by
      simp [World.view, hnone]
    rw [view_update (fun z => putSched_scheds _ h _ z) rfl object.qpu, run_cons, run_nil,
      sharedNext, hold]
    rfl
  · next hother =>
    refine Or.inr ⟨object', hq, howned, [], view_congr fun z => ?_⟩
    rw [putSched_scheds, putQpu_scheds]
    split
    · next hz => simp [hz, hnone, Ne.symm hother]
    · rfl

theorem destroy_view (hs : x.world.scheds h = some s) (hobject : x.world.qpus s.qpu = some object)
    (hq : ((x.world.putSched h none).qpuRelease s.qpu).1.qpus q = some object')
    (howned : x.user.qpus q) :
    ViewMoves P x ((x.world.putSched h none).qpuRelease s.qpu).1 q object' := by
  have hgone : (x.world.putSched h none).qpus s.qpu = some object := hobject
  have hscheds : ∀ z, ((x.world.putSched h none).qpuRelease s.qpu).1.scheds z =
      if z = h then none else x.world.scheds z := by
    intro z
    rw [qpuRelease_scheds, putSched_scheds]
  rw [qpuRelease_qpus hgone] at hq
  split at hq
  · next hself =>
    split at hq
    · cases hq
      subst hself
      refine Or.inr ⟨object, hobject, howned, [.destroy h], ?_⟩
      have hold : (x.world.view s.qpu object.qpu).scheds h = some s.sched := by
        simp [World.view, hs]
      rw [run_cons, run_nil, sharedNext, hold]
      rw [World.view, Shared.mk.injEq]
      refine ⟨rfl, funext fun z => ?_⟩
      rw [hscheds, Function.update_apply]
      split <;> rfl
    · simp at hq
  · next hother =>
    refine Or.inr ⟨object', hq, howned, [], view_congr fun z => ?_⟩
    rw [hscheds]
    split
    · next hz => simp [hz, hs, Ne.symm hother]
    · rfl

theorem load_view (hx : x.Ok) (hs : x.world.scheds h = some s) {path : Path}
    {file : SharedObject ν} {E : Env}
    (hq : (x.world.load h path file E).world.qpus q = some object') (howned : x.user.qpus q) :
    ViewMoves P x (x.world.load h path file E).world q object' := by
  obtain ⟨object, hobject, hat⟩ := hx.world.schedAt hs
  rcases load_world (P := P) hat path file E with hworld | ⟨name, libraries, hworld⟩
  · rw [hworld] at hq ⊢
    exact moves_still rfl rfl hq howned
  · rw [hworld] at hq ⊢
    refine moves_call hs hobject (fun z => putSched_scheds x.world h _ z) rfl rfl (fun z => ?_) hq
      howned
    rw [putSched_qpus]
    split
    · next hz =>
      rw [hz, hobject]
      rfl
    · rfl

theorem setPolicy_view (hx : x.Ok) (hs : x.world.scheds h = some s) {name : ν}
    {options : KvArray} {E : Env}
    (hq : (x.world.setPolicy P h name options E).world.qpus q = some object')
    (howned : x.user.qpus q) :
    ViewMoves P x (x.world.setPolicy P h name options E).world q object' := by
  obtain ⟨object, hobject, hat⟩ := hx.world.schedAt hs
  obtain ⟨active, made, hworld⟩ := setPolicy_world (P := P) hat name options E
  rw [hworld] at hq ⊢
  refine moves_call hs hobject (fun z => putSched_scheds x.world h _ z) rfl rfl (fun z => ?_) hq
    howned
  have hqpu : (step P (s.sched.at object.qpu) E (.setPolicy name options)).sched.qpu =
      object.qpu := setPolicy_qpu
  rw [putSched_qpus]
  split
  · next hz =>
    rw [hz, hobject]
    dsimp only
    rw [hqpu]
  · rfl

theorem call_view (hx : x.Ok) (hs : x.world.scheds h = some s) {op : Op ν} {E : Env}
    (hq : (x.world.call P h op E).world.qpus q = some object') (howned : x.user.qpus q) :
    ViewMoves P x (x.world.call P h op E).world q object' := by
  obtain ⟨object, hobject, hat⟩ := hx.world.schedAt hs
  have hworld : (x.world.call P h op E).world =
      (x.world.putQpu s.qpu (some { object with
        qpu := (step P (s.sched.at object.qpu) E op).sched.qpu })).putSched h
        (some { s with sched := (step P (s.sched.at object.qpu) E op).sched }) := by
    unfold World.call
    rw [hat]
    dsimp only
    rw [hobject]
    rfl
  rw [hworld] at hq ⊢
  refine moves_call hs hobject (fun z => putSched_scheds _ h _ z) rfl rfl (fun z => ?_) hq howned
  rw [putSched_qpus, putQpu_qpus]

/-- **Every call** is some operations on each QPU that the user has after it. -/
theorem worldStep_view (hx : x.Ok) {op : WorldOp ν} (hproper : op.Proper x)
    (hq : (sessionNext P x op).world.qpus q = some object')
    (howned : (sessionNext P x op).user.qpus q) :
    ViewMoves P x (sessionNext P x op).world q object' := by
  cases op with
  | qpuCreate y qpuId metadata mutex E =>
    refine qpuCreate_view hx hproper hq ?_
    have hafter : (sessionNext P x (.qpuCreate y qpuId metadata mutex E)).user.qpus = _ :=
      apply_ite User.qpus _ _ _
    rw [hafter] at howned
    exact howned
  | qpuDestroy y =>
    obtain ⟨object, hobject⟩ := hx.qpu hproper
    have hne : q ≠ y := by
      rintro rfl
      have hgone : Function.update x.user.qpus q false q = true := howned
      simp at hgone
    have hstill : Function.update x.user.qpus y false q = true := howned
    rw [Function.update_of_ne hne] at hstill
    refine moves_still ?_ (view_congr fun z => ?_) hq hstill
    · show (x.world.qpuRelease y).1.qpus q = _
      rw [qpuRelease_qpus hobject, if_neg hne]
    · show (x.world.qpuRelease y).1.scheds z >>= _ = _
      rw [qpuRelease_scheds]
      rfl
  | create h y policyNamed attr options mutex E =>
    obtain ⟨object, hobject⟩ := hx.qpu hproper.2
    have hafter : (sessionNext P x (.create h y policyNamed attr options mutex E)).user.qpus =
        x.user.qpus := (apply_ite User.qpus _ _ _).trans (ite_self _)
    rw [hafter] at howned
    change (x.world.create h y policyNamed attr options mutex E).world.qpus q = some object' at hq
    show ViewMoves P x (x.world.create h y policyNamed attr options mutex E).world q object'
    rcases create_cases hobject h policyNamed attr options mutex E with ⟨-, hworld, -⟩ | hnew
    · rw [hworld] at hq ⊢
      exact moves_still rfl rfl hq howned
    · rw [hnew] at hq ⊢
      exact create_view hproper.1 hobject _ hq howned
  | destroy h =>
    obtain ⟨s, hs⟩ := hx.sched hproper
    obtain ⟨object, hobject, -⟩ := hx.world.schedAt hs
    have hworld : (sessionNext P x (.destroy h)).world =
        ((x.world.putSched h none).qpuRelease s.qpu).1 := by
      show (x.world.destroy h).world = _
      unfold World.destroy
      rw [hs]
    rw [hworld] at hq ⊢
    exact destroy_view hs hobject hq howned
  | load h path file E =>
    obtain ⟨s, hs⟩ := hx.sched hproper
    exact load_view hx hs hq howned
  | setPolicy h name options E =>
    obtain ⟨s, hs⟩ := hx.sched hproper
    exact setPolicy_view hx hs hq howned
  | call h op E =>
    obtain ⟨s, hs⟩ := hx.sched hproper.1
    exact call_view hx hs hq howned

/-- **A QPU of the world is a QPU of its schedulers.**  As long as the user has it, it exists,
and it and the schedulers on it are in a state that operations on them alone reach, so that
all that holds of those states holds of it. -/
theorem view_reachable {is : List (WorldOp ν)}
    (his : Along (sessionNext P) (fun x op => op.Proper x) Session.empty is) :
    let x := Foundations.run (sessionNext P) Session.empty is
    ∀ q, x.user.qpus q → ∃ object metadata ops, x.world.qpus q = some object ∧
      x.world.view q object.qpu =
        Foundations.run (sharedNext P) (sharedCreate metadata) ops := by
  intro x q howned
  have hrun := run_invariant_along (motive := fun x : Session σ => x.Ok ∧ ∀ q object,
    x.world.qpus q = some object → x.user.qpus q → ∃ metadata ops, x.world.view q object.qpu =
      Foundations.run (sharedNext P) (sharedCreate metadata) ops)
    (fun x op hinv hproper => ?_) ⟨empty_ok, fun q object hq => ?_⟩ his
  · obtain ⟨object, hobject⟩ := hrun.1.qpu howned
    obtain ⟨metadata, ops, hview⟩ := hrun.2 q object hobject howned
    exact ⟨object, metadata, ops, hobject, hview⟩
  · refine ⟨sessionNext_ok P hinv.1 hproper, fun q object' hq howned => ?_⟩
    rcases worldStep_view hinv.1 hproper hq howned with
      ⟨metadata, hnew⟩ | ⟨object, hobject, hheld, ops, hmoved⟩
    · exact ⟨metadata, [], hnew⟩
    · obtain ⟨metadata, before, hview⟩ := hinv.2 q object hobject hheld
      refine ⟨metadata, before ++ ops, ?_⟩
      rw [run_append, ← hview]
      exact hmoved
  · simp [Session.empty, World.empty] at hq

end Moves

end QhwScheduler
