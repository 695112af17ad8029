import QhwScheduler.Core.Lockstep
import QhwScheduler.Policy.Contract

/-!
# Plugins that follow another

One plugin follows another when its hooks answer as those of the other do, from
related states on.

* `Follows` — the relation of two plugins.
* `sideBySide`, `follows_lockstep` — both in one scheduler, in lockstep.
* `Alike`, `alike_lockstep` — two states of a plugin that follow the same state.
* `replies_timed` — twins cannot be told apart while the relation moves with the
  time.
-/

namespace QhwScheduler

variable {ν : Type} {σ σ' : ν → Type}

/-! ## One plugin -/

/-- The hooks of a plugin answer as those of another do, and leave related states. -/
structure Follows {σ σ' : Type} (P : PluginDesc σ) (P' : PluginDesc σ') (Good : Env → Prop)
    (Q : σ → σ' → Prop) : Prop where
  init : ∀ {E} options c c', Good E →
    (∃ rc, (P.init E options c).outcome = .error rc ∧ (P'.init E options c').outcome = .error rc) ∨
      ∃ s s', (P.init E options c).outcome = .ok s ∧ (P'.init E options c').outcome = .ok s' ∧ Q s s'
  submit : ∀ {E s s'} task c c', Good E → Q s s' →
    (P.onTaskSubmit E s task c).rc = (P'.onTaskSubmit E s' task c').rc ∧
      Q (P.onTaskSubmit E s task c).state (P'.onTaskSubmit E s' task c').state
  select : ∀ {E s s'} c c', Good E → Q s s' →
    (P.selectNext E s c).rc = (P'.selectNext E s' c').rc ∧
      ((P.selectNext E s c).rc = .ok →
        (P.selectNext E s c).taskId = (P'.selectNext E s' c').taskId) ∧
      Q (P.selectNext E s c).state (P'.selectNext E s' c').state
  config : ∀ {s s'} config, Q s s' →
    (P.getSplitConfig config s).rc = (P'.getSplitConfig config s').rc ∧
      (P.getSplitConfig config s).config = (P'.getSplitConfig config s').config ∧
      Q (P.getSplitConfig config s).state (P'.getSplitConfig config s').state
  priorityChanged : ∀ {E s s'} id priority c c', Good E → Q s s' →
    (P.onTaskPriorityChanged E s id priority c).rc =
        (P'.onTaskPriorityChanged E s' id priority c').rc ∧
      Q (P.onTaskPriorityChanged E s id priority c).state
        (P'.onTaskPriorityChanged E s' id priority c').state
  started : ∀ {E s s'} id c c', Good E → Q s s' →
    (P.onTaskStarted E s id c).rc = (P'.onTaskStarted E s' id c').rc ∧
      Q (P.onTaskStarted E s id c).state (P'.onTaskStarted E s' id c').state
  finished : ∀ {E s s'} id state c c', Good E → Q s s' →
    (P.onTaskFinished E s id state c).rc = (P'.onTaskFinished E s' id state c').rc ∧
      Q (P.onTaskFinished E s id state c).state (P'.onTaskFinished E s' id state c').state

/-! ## Both in one scheduler -/

/-- The plugins of two families, each under its own name. -/
def sideBySide (P : ∀ n, PluginDesc (σ n)) (P' : ∀ n, PluginDesc (σ' n)) :
    ∀ n : ν ⊕ ν, PluginDesc (Sum.elim σ σ' n)
  | .inl n => P n
  | .inr n => P' n

/-- A policy of the first family and the one of the second that it follows. -/
def Beside (Q : ∀ n, σ n → σ' n → Prop) (π π' : Sigma (Sum.elim σ σ')) : Prop :=
  ∃ (n : ν) (s : σ n) (s' : σ' n), π = ⟨.inl n, s⟩ ∧ π' = ⟨.inr n, s'⟩ ∧ Q n s s'

section

variable {P : ∀ n, PluginDesc (σ n)} {P' : ∀ n, PluginDesc (σ' n)} {Good : Env → Prop}
  {Q : ∀ n, σ n → σ' n → Prop}

/-- No two requests of a call are answered differently. -/
theorem paces_of_memory {E : Env} (hE : ∀ n, E.alloc n = true) : Paces E fun _ _ => True :=
  ⟨trivial, fun _ => by rw [hE, hE], fun _ => trivial⟩

/-- **A policy and the one that it follows are in lockstep.** -/
theorem follows_lockstep (h : ∀ n, Follows (P n) (P' n) Good (Q n))
    (hmemory : ∀ E, Good E → ∀ n, E.alloc n = true) :
    Lockstep (sideBySide P P') Good (fun _ _ => True) (Beside Q) fun _ _ => True where
  paces hE := paces_of_memory (hmemory _ hE)
  submit := by
    rintro E π π' c c' task hE ⟨n, s, s', rfl, rfl, hQ⟩ -
    obtain ⟨hrc, hstate⟩ := (h n).submit task c c' hE hQ
    exact ⟨hrc, ⟨n, _, _, rfl, rfl, hstate⟩, trivial⟩
  select := by
    rintro E π π' c c' hE ⟨n, s, s', rfl, rfl, hQ⟩ -
    obtain ⟨hrc, hid, hstate⟩ := (h n).select c c' hE hQ
    exact ⟨hrc, hid, n, _, _, rfl, rfl, hstate⟩
  config := by
    rintro π π' config ⟨n, s, s', rfl, rfl, hQ⟩
    obtain ⟨hrc, hconfig, hstate⟩ := (h n).config config hQ
    exact ⟨hrc, hconfig, n, _, _, rfl, rfl, hstate⟩
  priorityChanged := by
    rintro E π π' c c' id priority hE ⟨n, s, s', rfl, rfl, hQ⟩ - -
    obtain ⟨hrc, hstate⟩ := (h n).priorityChanged id priority c c' hE hQ
    exact ⟨hrc, ⟨n, _, _, rfl, rfl, hstate⟩, trivial⟩
  started := by
    rintro E π π' c c' id hE ⟨n, s, s', rfl, rfl, hQ⟩ -
    obtain ⟨hrc, hstate⟩ := (h n).started id c c' hE hQ
    exact ⟨hrc, ⟨n, _, _, rfl, rfl, hstate⟩, trivial⟩
  finished := by
    rintro E π π' c c' id state hE ⟨n, s, s', rfl, rfl, hQ⟩ -
    obtain ⟨hrc, hstate⟩ := (h n).finished id state c c' hE hQ
    exact ⟨hrc, ⟨n, _, _, rfl, rfl, hstate⟩, trivial⟩

/-- Both refuse their options alike, or start out related. -/
theorem follows_inits (h : ∀ n, Follows (P n) (P' n) Good (Q n)) {E : Env} (hE : Good E) (n : ν)
    (options : KvArray) (c c' : Cursor) :
    @InitsAgree (ν ⊕ ν) (Sum.elim σ σ') (fun _ _ => True) (Beside Q) (.inl n) (.inr n)
      ((P n).init E options c) ((P' n).init E options c') := by
  rcases (h n).init options c c' hE with ⟨rc, hrc, hrc'⟩ | ⟨s, s', hs, hs', hQ⟩
  · exact Or.inl ⟨rc, hrc, hrc'⟩
  · exact Or.inr ⟨s, s', hs, hs', ⟨n, s, s', rfl, rfl, hQ⟩, trivial⟩

/-! ## Two states that follow the same one -/

/-- Two states of one policy that follow the same state. -/
def Alike (Q : ∀ n, σ n → σ' n → Prop) (π π' : Sigma σ) : Prop :=
  ∃ (n : ν) (s s' : σ n) (r : σ' n), π = ⟨n, s⟩ ∧ π' = ⟨n, s'⟩ ∧ Q n s r ∧ Q n s' r

/-- **States that follow the same state are in lockstep.** -/
theorem alike_lockstep (h : ∀ n, Follows (P n) (P' n) Good (Q n))
    (hmemory : ∀ E, Good E → ∀ n, E.alloc n = true) :
    Lockstep P Good (fun _ _ => True) (Alike Q) fun _ _ => True where
  paces hE := paces_of_memory (hmemory _ hE)
  submit := by
    rintro E π π' c c' task hE ⟨n, s, s', r, rfl, rfl, hs, hs'⟩ -
    obtain ⟨hrc, hstate⟩ := (h n).submit task c c hE hs
    obtain ⟨hrc', hstate'⟩ := (h n).submit task c' c hE hs'
    exact ⟨hrc.trans hrc'.symm, ⟨n, _, _, _, rfl, rfl, hstate, hstate'⟩, trivial⟩
  select := by
    rintro E π π' c c' hE ⟨n, s, s', r, rfl, rfl, hs, hs'⟩ -
    obtain ⟨hrc, hid, hstate⟩ := (h n).select c c hE hs
    obtain ⟨hrc', hid', hstate'⟩ := (h n).select c' c hE hs'
    have hsame := hrc.trans hrc'.symm
    exact ⟨hsame, fun hok => (hid hok).trans (hid' (hsame ▸ hok)).symm, n, _, _, _, rfl, rfl,
      hstate, hstate'⟩
  config := by
    rintro π π' config ⟨n, s, s', r, rfl, rfl, hs, hs'⟩
    obtain ⟨hrc, hconfig, hstate⟩ := (h n).config config hs
    obtain ⟨hrc', hconfig', hstate'⟩ := (h n).config config hs'
    exact ⟨hrc.trans hrc'.symm, hconfig.trans hconfig'.symm, n, _, _, _, rfl, rfl, hstate, hstate'⟩
  priorityChanged := by
    rintro E π π' c c' id priority hE ⟨n, s, s', r, rfl, rfl, hs, hs'⟩ - -
    obtain ⟨hrc, hstate⟩ := (h n).priorityChanged id priority c c hE hs
    obtain ⟨hrc', hstate'⟩ := (h n).priorityChanged id priority c' c hE hs'
    exact ⟨hrc.trans hrc'.symm, ⟨n, _, _, _, rfl, rfl, hstate, hstate'⟩, trivial⟩
  started := by
    rintro E π π' c c' id hE ⟨n, s, s', r, rfl, rfl, hs, hs'⟩ -
    obtain ⟨hrc, hstate⟩ := (h n).started id c c hE hs
    obtain ⟨hrc', hstate'⟩ := (h n).started id c' c hE hs'
    exact ⟨hrc.trans hrc'.symm, ⟨n, _, _, _, rfl, rfl, hstate, hstate'⟩, trivial⟩
  finished := by
    rintro E π π' c c' id state hE ⟨n, s, s', r, rfl, rfl, hs, hs'⟩ -
    obtain ⟨hrc, hstate⟩ := (h n).finished id state c c hE hs
    obtain ⟨hrc', hstate'⟩ := (h n).finished id state c' c hE hs'
    exact ⟨hrc.trans hrc'.symm, ⟨n, _, _, _, rfl, rfl, hstate, hstate'⟩, trivial⟩

end

/-! ## Runs -/

theorem Twins.imp {Q Q' : Sigma σ → Sigma σ → Prop} {s s' : Sched σ} (hs : Twins Q s s')
    (himp : ∀ π π', Q π π' → Q' π π') : Twins Q' s s' := by
  obtain ⟨π, π', hQ, hpol, hs'⟩ := hs
  exact ⟨π, π', himp _ _ hQ, hpol, hs'⟩

/-- **Twins cannot be told apart**, also when the relation of their policies moves with
the time. -/
theorem replies_timed [DecidableEq ν] {P : ∀ n, PluginDesc (σ n)} {Good : UInt64 → Env → Prop}
    {C : Cursor → Cursor → Prop} {Q : UInt64 → Sigma σ → Sigma σ → Prop}
    (hP : ∀ t, Lockstep P (Good t) C (Q t) fun _ _ => True)
    (hmono : ∀ {τ t π π'}, τ ≤ t → Q τ π π' → Q t π π') {s s' : Sched σ} {τ t : UInt64}
    (hs : Twins (Q τ) s s' ∨ s = s') {is : List (Env × Op ν)}
    (his : GoodRun (fun τ E t => τ ≤ t ∧ Good t E) τ is t) :
    replies P s is = replies P s' is := by
  induction is generalizing τ s s' with
  | nil => rfl
  | cons i is ih =>
    obtain ⟨u, ⟨hle, hE⟩, hrest⟩ := his
    rcases hs with htwins | rfl
    · have htwins := htwins.imp fun _ _ => hmono hle
      have hagree := step_twins (hP u) hE htwins (fun _ _ _ _ _ _ => trivial) i.2
      have hnext : replies P (step P s i.1 i.2).sched is = replies P (step P s' i.1 i.2).sched is :=
        ih hagree.sched hrest
      have hreply : reply P s i = reply P s' i := by
        rw [reply, reply, hagree.rc, hagree.assignment]
      show reply P s i :: _ = reply P s' i :: _
      rw [hreply]
      exact congrArg _ hnext
    · rfl

end QhwScheduler
