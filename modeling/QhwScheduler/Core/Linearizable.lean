import QhwScheduler.Core.Concurrent
import QhwScheduler.Foundations.BinaryHeap
import QhwScheduler.Plugins.Builtin
import Mathlib.Data.Finsupp.Weight

/-!
# Calls are linearizable

Several schedulers on one QPU are used by several threads, and the sections of
their calls interleave.  Still what a call does while it holds the lock of its
scheduler is done at one moment: every call at one between its invocation and its
response, and a submission whose callbacks run at two, with the callbacks between
them.

* `Share` — what the queue counter of the QPU counts for each scheduler.
* `Progress` — where a call stands that holds the lock of its scheduler: before
  its section at the slot, or after it.
* `Linear` — the threads and the schedulers of `Concurrent` beside those whose
  calls are done at moments.
* `Linear.step` — each step is followed by one moment at most: that of the section
  at the slot, or that of giving the lock back.
* `calls_linearizable` — what the threads see is what they would see if the calls
  came one after the other.
-/

namespace QhwScheduler

open Foundations

variable {ν : Type} {σ : ν → Type}

/-! ## Shares of the queue counter -/

/-- The queued records under a handle. -/
noncomputable def queuedUnder (s : Option (Sched σ)) : ℕ :=
  s.elim 0 fun s => s.tasks.number fun r => r.state = .queued

/-- The counter counts the shares of the handles, and `base` of those that are
gone. -/
def Share (base : ℕ) (share : ℕ →₀ ℕ) (qpu : Qpu) : Prop :=
  qpu.runtime.queuedCount = base + share.degree

section Shares

variable {base n : ℕ} {share : ℕ →₀ ℕ} {qpu qpu' : Qpu} {h : ℕ}

/-- One share beside the others. -/
theorem share_iff : Share base share qpu ↔
    qpu.runtime.queuedCount = (base + (share.erase h).degree) + share h := by
  unfold Share
  conv_lhs => rw [← Finsupp.erase_add_single h share]
  rw [map_add, Finsupp.degree_single, ← Nat.add_assoc]

/-- One share moves, and the counter with it. -/
theorem Share.update (hqpu : qpu.runtime.queuedCount = (base + (share.erase h).degree) + n) :
    Share base (share.update h n) qpu := by
  unfold Share
  rw [Finsupp.update_eq_erase_add_single, map_add, Finsupp.degree_single, hqpu, Nat.add_assoc]

/-- A share is given up with its scheduler. -/
theorem Share.leave (hshare : Share base share qpu) :
    Share (base + share h) (share.update h 0) qpu := by
  have hqpu := (share_iff (h := h)).1 hshare
  refine Share.update ?_
  omega

end Shares

/-! ## Where a call stands -/

/-- A call that holds the lock of a scheduler, and the scheduler as it is where
this is done at one moment.  Before its section at the slot the call is not
done: what is left of it comes out as the whole call would.  After the section it
is done: what is left of it comes out as it did. -/
inductive Progress [DecidableEq ν] (P : ∀ n, PluginDesc (σ n)) (a : Atomic σ) (t h : ℕ) (s : Sched σ)
    (rest : Call (Halt σ)) : Prop where
  | before (E : Env) (op : Op ν) (hcalled : a.calls t = .called h op)
      (hrest : ∀ qpu,
        let whole := Sections.sectionOf P (s.at (Sections.profile a.shared.qpu)) E op
        (whole.run QpuSection.exec qpu).1 = (rest.run QpuSection.exec qpu).1 ∧
          (whole.run QpuSection.exec qpu).2.slots = (rest.run QpuSection.exec qpu).2.slots)
      (hone : Call.OneDecision rest)
  | after (hpending : a.calls t = (Call.result rest).pending h)
      (hsched : ∀ qpu, (Call.result rest).result.sched.at qpu = s.at qpu) (htrails : Call.Trails rest)

/-- A handle beside the scheduler under it. -/
def UnderHandle [DecidableEq ν] (P : ∀ n, PluginDesc (σ n)) (m : Machine σ) (a : Atomic σ) (share h : ℕ) :
    Handle σ → Prop
  | .absent => a.shared.scheds h = none ∧ share = 0
  | .free s => ∃ s', a.shared.scheds h = some s' ∧ (∀ qpu, s.at qpu = s'.at qpu) ∧
      share = queuedUnder (some s')
  | .held t => ∃ s' rest, a.shared.scheds h = some s' ∧ m.threads t = .inside h rest ∧
      Progress P a t h s' rest ∧ Call.Covered Halt.queued rest share

/-- A thread beside its call. -/
def UnderWay (m : Machine σ) (a : Atomic σ) (t : ℕ) : Thread σ → Prop
  | .idle => a.calls t = .idle
  | .waiting h op => a.calls t = .called h op
  | .inside h _ => m.handles h = .held t
  | .leaving reply => a.calls t = .answered reply

/-- The threads beside the calls that are done at moments. -/
structure Linear [DecidableEq ν] (P : ∀ n, PluginDesc (σ n)) (base : ℕ) (num share : ℕ →₀ ℕ)
    (m : Machine σ) (a : Atomic σ) : Prop where
  ok : SharedOk a.shared
  slots : m.qpu.slots = a.shared.qpu.slots
  queued : Share base share m.qpu
  counted : Share base num a.shared.qpu
  num_eq : ∀ h, num h = queuedUnder (a.shared.scheds h)
  handles : ∀ h, UnderHandle P m a (share h) h (m.handles h)
  threads : ∀ t, UnderWay m a t (m.threads t)

/-! ## Between two sections -/

/-- A call that comes back waits for the lock of the same scheduler. -/
theorem Halt.handle_of_pending {z : Halt σ} {h h' : ℕ} {op : Op ν}
    (hpending : z.pending h = .called h' op) : h = h' := by
  unfold Halt.pending at hpending
  cases hmore : z.more with
  | none =>
    rw [hmore] at hpending
    simp at hpending
  | some op' =>
    rw [hmore] at hpending
    injection hpending

/-- A thread that has given the lock back. -/
theorem UnderWay.halt {m : Machine σ} {a : Atomic σ} {t h : ℕ} {z : Halt σ}
    (hpending : a.calls t = z.pending h) : UnderWay m a t (z.thread h) := by
  unfold Halt.pending at hpending
  unfold Halt.thread
  cases hmore : z.more with
  | none =>
    rw [hmore] at hpending
    exact hpending
  | some op =>
    rw [hmore] at hpending
    exact hpending

/-! ## Frames -/

section Frames

variable [DecidableEq ν] {P : ∀ n, PluginDesc (σ n)} {m m' : Machine σ} {a a' : Atomic σ}

theorem Progress.frame {t h : ℕ} {s : Sched σ} {rest : Call (Halt σ)}
    (hprogress : Progress P a t h s rest) (hcalls : a'.calls t = a.calls t)
    (hprofile : a'.shared.qpu.metadata = a.shared.qpu.metadata) : Progress P a' t h s rest := by
  cases hprogress with
  | before E op hcalled hrest hone =>
    refine .before E op (hcalls.trans hcalled) (fun qpu => ?_) hone
    have hsame : Sections.profile a'.shared.qpu = Sections.profile a.shared.qpu := by
      simp only [Sections.profile, hprofile]
    rw [hsame]
    exact hrest qpu
  | after hpending hsched htrails => exact .after (hcalls.trans hpending) hsched htrails

/-- What another thread does on another handle. -/
theorem UnderHandle.frame {share h : ℕ} {H : Handle σ} (hunder : UnderHandle P m a share h H)
    (hscheds : a'.shared.scheds h = a.shared.scheds h)
    (hholder : ∀ t, H = .held t → m'.threads t = m.threads t ∧ a'.calls t = a.calls t)
    (hprofile : a'.shared.qpu.metadata = a.shared.qpu.metadata) : UnderHandle P m' a' share h H := by
  cases H with
  | absent => exact ⟨hscheds.trans hunder.1, hunder.2⟩
  | free s =>
    obtain ⟨s', hs', hsame, hshare⟩ := hunder
    exact ⟨s', hscheds.trans hs', hsame, hshare⟩
  | held t =>
    obtain ⟨s', rest, hs', hinside, hprogress, hcovered⟩ := hunder
    obtain ⟨hthread, hcalls⟩ := hholder t rfl
    exact ⟨s', rest, hscheds.trans hs', hthread.trans hinside, hprogress.frame hcalls hprofile,
      hcovered⟩

omit [DecidableEq ν] in
theorem UnderWay.frame {t : ℕ} {T : Thread σ} (hunder : UnderWay m a t T)
    (hcalls : a'.calls t = a.calls t)
    (hhandle : ∀ h rest, T = .inside h rest → m'.handles h = m.handles h) : UnderWay m' a' t T := by
  cases T with
  | idle => exact hcalls.trans hunder
  | waiting h op => exact hcalls.trans hunder
  | inside h rest => exact (hhandle h rest rfl).trans hunder
  | leaving reply => exact hcalls.trans hunder

end Frames

/-! ## One moment -/

section Moment

variable [DecidableEq ν] {P : ∀ n, PluginDesc (σ n)} {a : Atomic σ}

/-- **A call that is done at one moment** comes out as its sections do without
anyone else at the QPU. -/
theorem perform_spec {base t h : ℕ} {num : ℕ →₀ ℕ} {s : Sched σ} {E : Env} {op : Op ν}
    (hok : SharedOk a.shared) (hcounted : Share base num a.shared.qpu)
    (hnum : num h = queuedUnder (a.shared.scheds h))
    (hcalled : a.calls t = .called h op) (hsome : a.shared.scheds h = some s) :
    let whole := Sections.sectionOf P (s.at (Sections.profile a.shared.qpu)) E op
    let z := whole.run QpuSection.exec a.shared.qpu
    ∃ a' s', Atomic.Step P a none a' ∧ a'.shared.qpu.slots = z.2.slots ∧
      a'.shared.scheds = Function.update a.shared.scheds h (some s') ∧
      a'.calls = Function.update a.calls t (z.1.pending h) ∧
      (∀ qpu, z.1.result.sched.at qpu = s'.at qpu) ∧ SharedOk a'.shared ∧
      Share base (num.update h (queuedUnder (some s'))) a'.shared.qpu ∧
      a'.shared.qpu.metadata = a.shared.qpu.metadata := by
  intro whole z
  have hrun : z.1.atQpu z.2 = moment P (s.at a.shared.qpu) E op :=
    Sections.sectionOf_run P E s a.shared.qpu op
  have hstep : z.1.result.atQpu z.2 = step P (s.at a.shared.qpu) E op.firstSection := by
    rw [← moment_result, ← hrun]
    rfl
  have hnext : sharedNext P a.shared (.call h E op.firstSection) =
      a.shared.put h (z.1.result.sched.at z.2) := by
    simp only [sharedNext, hsome]
    rw [← hstep]
    rfl
  have hpending : (moment P (s.at a.shared.qpu) E op).pending h = z.1.pending h := by
    rw [← hrun]
    rfl
  have hqpu : (a.shared.put h (z.1.result.sched.at z.2)).qpu = z.2 := rfl
  have hsok := SharedOk.next P hok (.call h E op.firstSection)
  refine ⟨_, z.1.result.sched.at z.2, .perform E hcalled hsome, ?_, ?_, ?_, fun _ => rfl, hsok, ?_, ?_⟩
  · rw [hnext]
    rfl
  · rw [hnext]
    rfl
  · rw [hpending]
  · dsimp only
    rw [hnext, hqpu]
    refine Share.update ?_
    rw [share_iff, hnum, hsome] at hcounted
    obtain ⟨e, -, hallowed, hled⟩ := step_event P E op.firstSection (s := s.at a.shared.qpu) (hok h s hsome)
    have hafter := QueuedBeside.apply (k := base + (num.erase h).degree)
      (L := (s.at a.shared.qpu).ledger) hcounted (hok h s hsome) hallowed
    rw [← hled, ← hstep] at hafter
    exact hafter
  · dsimp only
    rw [hnext, hqpu]
    exact Call.run_metadata whole _

end Moment

/-! ## Steps -/

section Steps

variable [DecidableEq ν] {P : ∀ n, PluginDesc (σ n)} {base : ℕ} {num share : ℕ →₀ ℕ}
  {m m' : Machine σ} {a a' : Atomic σ}

/-- The thread that holds a lock works under it. -/
theorem Linear.inside_of_held (L : Linear P base num share m a) {h t : ℕ}
    (hheld : m.handles h = .held t) : ∃ rest, m.threads t = .inside h rest := by
  have hunder := L.handles h
  rw [hheld] at hunder
  obtain ⟨-, rest, -, hinside, -⟩ := hunder
  exact ⟨rest, hinside⟩

theorem Linear.held_of_inside (L : Linear P base num share m a) {h t : ℕ} {rest : Call (Halt σ)}
    (hinside : m.threads t = .inside h rest) : m.handles h = .held t := by
  have hunder := L.threads t
  rwa [hinside] at hunder

/-- Handles and threads that a step does not touch stay as they are. -/
theorem Linear.assemble {base' : ℕ} {num' share' : ℕ →₀ ℕ} (L : Linear P base num share m a)
    (TH TT : ℕ → Prop) (hprofile : a'.shared.qpu.metadata = a.shared.qpu.metadata)
    (hhandles : ∀ h, ¬ TH h → m'.handles h = m.handles h ∧
      a'.shared.scheds h = a.shared.scheds h ∧ share' h = share h)
    (hthreads : ∀ t, ¬ TT t → m'.threads t = m.threads t ∧ a'.calls t = a.calls t)
    (hpair : ∀ h t rest, m.threads t = .inside h rest → (TT t ↔ TH h))
    (hnewH : ∀ h, TH h → UnderHandle P m' a' (share' h) h (m'.handles h))
    (hnewT : ∀ t, TT t → UnderWay m' a' t (m'.threads t))
    (hok : SharedOk a'.shared) (hslots : m'.qpu.slots = a'.shared.qpu.slots)
    (hqueued : Share base' share' m'.qpu) (hcounted : Share base' num' a'.shared.qpu)
    (hnum : ∀ h, num' h = queuedUnder (a'.shared.scheds h)) :
    Linear P base' num' share' m' a' where
  ok := hok
  slots := hslots
  queued := hqueued
  counted := hcounted
  num_eq := hnum
  handles h := by
    by_cases htouched : TH h
    · exact hnewH h htouched
    · obtain ⟨hhandle, hscheds, hshare⟩ := hhandles h htouched
      rw [hhandle, hshare]
      refine (L.handles h).frame hscheds (fun t ht => ?_) hprofile
      obtain ⟨rest, hinside⟩ := L.inside_of_held ht
      exact hthreads t fun htt => htouched ((hpair h t rest hinside).1 htt)
  threads t := by
    by_cases htouched : TT t
    · exact hnewT t htouched
    · obtain ⟨hthread, hcalls⟩ := hthreads t htouched
      rw [hthread]
      refine (L.threads t).frame hcalls fun h rest hinside => ?_
      exact (hhandles h fun hth => htouched ((hpair h t rest hinside).2 hth)).1

/-- The thread under whose hands a call goes on. -/
theorem Linear.pair (L : Linear P base num share m a) {h t : ℕ} {rest : Call (Halt σ)}
    (hinside : m.threads t = .inside h rest) (h' t' : ℕ) (rest' : Call (Halt σ))
    (hinside' : m.threads t' = .inside h' rest') : t' = t ↔ h' = h := by
  constructor
  · rintro rfl
    rw [hinside] at hinside'
    injection hinside' with heq
    exact heq.symm
  · rintro rfl
    have hheld := L.held_of_inside hinside
    rw [L.held_of_inside hinside'] at hheld
    injection hheld

/-- The calls that have started on a handle. -/
theorem Linear.called (L : Linear P base num share m a) {h t : ℕ} {op : Op ν}
    (hcalled : a.calls t = .called h op) :
    m.threads t = .waiting h op ∨ m.handles h = .held t := by
  have hunder := L.threads t
  cases hthread : m.threads t with
  | idle =>
    rw [hthread] at hunder
    rw [show a.calls t = .idle from hunder] at hcalled
    simp at hcalled
  | waiting h' op' =>
    rw [hthread] at hunder
    rw [show a.calls t = .called h' op' from hunder] at hcalled
    injection hcalled with hh hop
    exact Or.inl (by rw [hh, hop])
  | inside h' rest =>
    have hheld := L.held_of_inside hthread
    have hh := L.handles h'
    rw [hheld] at hh
    obtain ⟨s', rest', -, -, hprogress, -⟩ := hh
    cases hprogress with
    | before E op' hcalled' hrest hone =>
      rw [hcalled'] at hcalled
      injection hcalled with hh' hop'
      exact Or.inr (hh' ▸ hheld)
    | after hpending hsched htrails =>
      rw [hpending] at hcalled
      exact Or.inr (Halt.handle_of_pending hcalled ▸ hheld)
  | leaving reply =>
    rw [hthread] at hunder
    rw [show a.calls t = .answered reply from hunder] at hcalled
    simp at hcalled

/-- A scheduler comes. -/
theorem Linear.create (L : Linear P base num share m a) {h : ℕ} (habsent : m.handles h = .absent) :
    ∃ a', Atomic.Step P a (some (.create h)) a' ∧ Linear P base num share
      { m with
        qpu := qpuRetain m.qpu
        handles := Function.update m.handles h (.free (schedCreate m.qpu)) } a' := by
  have hunder := L.handles h
  rw [habsent] at hunder
  obtain ⟨hnone, hshare⟩ := hunder
  have hnext : sharedNext P a.shared (.create h (Env.still 0)) =
      ⟨qpuRetain a.shared.qpu,
        Function.update a.shared.scheds h (some (schedCreate a.shared.qpu))⟩ := by
    simp only [sharedNext, hnone]
    rfl
  have hempty : queuedUnder (some (schedCreate a.shared.qpu : Sched σ)) = 0 :=
    TaskTable.number_empty _
  refine ⟨_, .create (Env.still 0) hnone, ?_⟩
  refine L.assemble (· = h) (fun _ => False) ?_ ?_ (fun t _ => ⟨rfl, rfl⟩) ?_ ?_ ?_
    (SharedOk.next P L.ok _) ?_ L.queued ?_ ?_
  · rw [hnext]
    rfl
  · intro h' hne
    rw [hnext]
    exact ⟨Function.update_of_ne hne _ _, Function.update_of_ne hne _ _, rfl⟩
  · intro h' t rest hinside
    refine ⟨False.elim, ?_⟩
    rintro rfl
    rw [L.held_of_inside hinside] at habsent
    simp at habsent
  · rintro h' rfl
    rw [hnext]
    simp only [Function.update_self]
    exact ⟨_, Function.update_self _ _ _, fun _ => rfl, hshare.trans hempty.symm⟩
  · exact fun _ hfalse => hfalse.elim
  · rw [hnext]
    exact congrArg (fun q : Qpu => { q with refcount := q.refcount + 1 }) L.slots
  · rw [hnext]
    exact L.counted
  · intro h'
    rw [hnext]
    dsimp only
    by_cases hh : h' = h
    · subst hh
      rw [Function.update_self, hempty, L.num_eq, hnone]
      rfl
    · rw [Function.update_of_ne hh, L.num_eq]

/-- A scheduler goes. -/
theorem Linear.destroy (L : Linear P base num share m a) {h : ℕ} {s : Sched σ}
    (hfree : m.handles h = .free s) (hunused : ∀ t op, m.threads t ≠ .waiting h op) :
    ∃ a', Atomic.Step P a (some (.destroy h)) a' ∧
      Linear P (base + share h) (num.update h 0) (share.update h 0)
      { m with qpu := qpuRelease m.qpu, handles := Function.update m.handles h .absent } a' := by
  have hunder := L.handles h
  rw [hfree] at hunder
  obtain ⟨s', hs', -, hshare⟩ := hunder
  have hnext : sharedNext P a.shared (.destroy h) =
      ⟨qpuRelease a.shared.qpu, Function.update a.shared.scheds h none⟩ := by
    simp only [sharedNext, hs']
  have hnum : num h = share h := by rw [L.num_eq, hs', hshare]
  have hidle : ∀ t op, a.calls t ≠ .called h op := by
    intro t op hcalled
    rcases L.called hcalled with hwaiting | hheld
    · exact hunused t op hwaiting
    · rw [hfree] at hheld
      simp at hheld
  refine ⟨_, .destroy hidle, ?_⟩
  refine L.assemble (· = h) (fun _ => False) ?_ ?_ (fun t _ => ⟨rfl, rfl⟩) ?_ ?_ ?_
    (SharedOk.next P L.ok _) ?_ L.queued.leave ?_ ?_
  · rw [hnext]
    rfl
  · intro h' hne
    rw [hnext]
    exact ⟨Function.update_of_ne hne _ _, Function.update_of_ne hne _ _, by
      rw [Finsupp.update_apply, if_neg hne]⟩
  · intro h' t rest hinside
    refine ⟨False.elim, ?_⟩
    rintro rfl
    rw [L.held_of_inside hinside] at hfree
    simp at hfree
  · rintro h' rfl
    rw [hnext]
    simp only [Function.update_self]
    exact ⟨Function.update_self _ _ _, by rw [Finsupp.update_apply, if_pos rfl]⟩
  · exact fun _ hfalse => hfalse.elim
  · rw [hnext]
    exact congrArg (fun q : Qpu => { q with refcount := q.refcount - 1 }) L.slots
  · rw [hnext, ← hnum]
    exact L.counted.leave
  · intro h'
    rw [hnext]
    dsimp only
    rw [Finsupp.update_apply]
    by_cases hh : h' = h
    · subst hh
      rw [Function.update_self, if_pos rfl]
      rfl
    · rw [Function.update_of_ne hh, if_neg hh, L.num_eq]

/-- A thread calls a scheduler. -/
theorem Linear.invoke (L : Linear P base num share m a) {t : ℕ} (h : ℕ) {op : Op ν}
    (hidle : m.threads t = .idle) (hop : op.Public) :
    ∃ a', Atomic.Step P a (some (.invoke t h op)) a' ∧ Linear P base num share
      { m with threads := Function.update m.threads t (.waiting h op) } a' := by
  have hunder := L.threads t
  rw [hidle] at hunder
  refine ⟨_, .invoke h hunder hop, ?_⟩
  refine L.assemble (fun _ => False) (· = t) rfl (fun h' _ => ⟨rfl, rfl, rfl⟩) ?_ ?_ ?_ ?_
    L.ok L.slots L.queued L.counted L.num_eq
  · exact fun t' hne => ⟨Function.update_of_ne hne _ _, Function.update_of_ne hne _ _⟩
  · intro h' t' rest hinside
    refine ⟨?_, False.elim⟩
    rintro rfl
    rw [hidle] at hinside
    simp at hinside
  · exact fun _ hfalse => hfalse.elim
  · rintro t' rfl
    simp only [Function.update_self]
    exact Function.update_self _ _ _

/-- A call returns. -/
theorem Linear.respond (L : Linear P base num share m a) {t : ℕ} {reply : Reply}
    (hleaving : m.threads t = .leaving reply) :
    ∃ a', Atomic.Step P a (some (.respond t reply)) a' ∧ Linear P base num share
      { m with threads := Function.update m.threads t .idle } a' := by
  have hunder := L.threads t
  rw [hleaving] at hunder
  refine ⟨_, .respond hunder, ?_⟩
  refine L.assemble (fun _ => False) (· = t) rfl (fun h' _ => ⟨rfl, rfl, rfl⟩) ?_ ?_ ?_ ?_
    L.ok L.slots L.queued L.counted L.num_eq
  · exact fun t' hne => ⟨Function.update_of_ne hne _ _, Function.update_of_ne hne _ _⟩
  · intro h' t' rest hinside
    refine ⟨?_, False.elim⟩
    rintro rfl
    rw [hleaving] at hinside
    simp at hinside
  · exact fun _ hfalse => hfalse.elim
  · rintro t' rfl
    simp only [Function.update_self]
    exact Function.update_self _ _ _

/-- A thread takes the lock: nothing is done yet. -/
theorem Linear.acquire (hstart : NeverRefusesStart P) (L : Linear P base num share m a) {t h : ℕ}
    {op : Op ν} {s : Sched σ} (E : Env) (hwaiting : m.threads t = .waiting h op)
    (hfree : m.handles h = .free s) :
    Linear P base num share
      { m with
        handles := Function.update m.handles h (.held t)
        threads := Function.update m.threads t
          (.inside h (Sections.sectionOf P (s.at (Sections.profile m.qpu)) E op)) } a := by
  have hhandle := L.handles h
  rw [hfree] at hhandle
  obtain ⟨s', hs', hsame, hshare⟩ := hhandle
  have hthread := L.threads t
  rw [hwaiting] at hthread
  have hprofile : Sections.profile m.qpu = Sections.profile a.shared.qpu := by
    simp only [Sections.profile, slots_metadata L.slots]
  refine L.assemble (· = h) (· = t) rfl ?_ ?_ ?_ ?_ ?_ L.ok L.slots L.queued L.counted L.num_eq
  · exact fun h' hne => ⟨Function.update_of_ne hne _ _, rfl, rfl⟩
  · exact fun t' hne => ⟨Function.update_of_ne hne _ _, rfl⟩
  · intro h' t' rest hinside
    constructor
    · rintro rfl
      rw [hwaiting] at hinside
      simp at hinside
    · rintro rfl
      rw [L.held_of_inside hinside] at hfree
      simp at hfree
  · rintro h' rfl
    simp only [Function.update_self]
    refine ⟨s', _, hs', Function.update_self _ _ _, ?_, ?_⟩
    · refine .before E op hthread (fun qpu => ?_) (Sections.sectionOf_oneDecision hstart _ E op)
      rw [hsame, hprofile]
      exact ⟨rfl, rfl⟩
    · rw [hsame, hprofile, hshare]
      exact Sections.sectionOf_covered hstart (L.ok _ _ hs') E a.shared.qpu op
  · rintro t' rfl
    simp only [Function.update_self]
    exact Function.update_self _ _ _

/-- A section that moves the counter: still nothing is done, or nothing more. -/
theorem Linear.passCounting (L : Linear P base num share m a) {t h : ℕ} {x : QpuSection}
    {next : Rc → Call (Halt σ)} (hinside : m.threads t = .inside h (.enter x next))
    (hx : x.Counts) :
    ∃ share', Linear P base num share'
      { m with
        qpu := (x.exec m.qpu).2
        threads := Function.update m.threads t (.inside h (next (x.exec m.qpu).1)) } a := by
  have hheld := L.held_of_inside hinside
  have hhandle := L.handles h
  rw [hheld] at hhandle
  obtain ⟨s', rest, hs', hrest, hprogress, hcovered⟩ := hhandle
  rw [hinside] at hrest
  injection hrest with _ hrest
  subst hrest
  obtain ⟨n', hcovered', hmoves⟩ := hcovered.counting hx
  refine ⟨share.update h n', ?_⟩
  refine L.assemble (· = h) (· = t) rfl ?_ ?_ (L.pair hinside) ?_ ?_ L.ok ?_ ?_ L.counted L.num_eq
  · exact fun h' hne => ⟨rfl, rfl, by rw [Finsupp.update_apply, if_neg hne]⟩
  · exact fun t' hne => ⟨Function.update_of_ne hne _ _, rfl⟩
  · rintro h' rfl
    rw [hx.answer, Finsupp.update_apply, if_pos rfl, show _ = Handle.held t from hheld]
    refine ⟨s', _, hs', Function.update_self _ _ _, ?_, hcovered'⟩
    cases hprogress with
    | before E op hcalled hrest hone =>
      have hone' : Call.OneDecision (next .ok) := by
        rcases hone with ⟨-, ho⟩ | ⟨hx', -⟩
        · exact ho
        · exact absurd hx hx'
      refine .before E op hcalled (fun qpu => ?_) hone'
      obtain ⟨hout, hslots⟩ := hrest qpu
      rw [Program.run_enter, hx.answer] at hout hslots
      have hcounted : (x.exec qpu).2.slots = qpu.slots := hx.exec_slots
      obtain ⟨hout', hslots'⟩ := hone'.run_congr hcounted
      exact ⟨hout.trans hout', hslots.trans hslots'⟩
    | after hpending hsched htrails => exact .after hpending hsched htrails.2
  · rintro t' rfl
    simp only [Function.update_self]
    exact hheld
  · exact hx.exec_slots.trans L.slots
  · exact Share.update (hmoves m.qpu _ (share_iff.1 L.queued))

/-- **The section at the slot is the moment of the call.** -/
theorem Linear.passDecision (L : Linear P base num share m a) {t h : ℕ} {x : QpuSection}
    {next : Rc → Call (Halt σ)} (hinside : m.threads t = .inside h (.enter x next))
    (hx : ¬ x.Counts) :
    ∃ a' num', Atomic.Step P a none a' ∧ Linear P base num' share
      { m with
        qpu := (x.exec m.qpu).2
        threads := Function.update m.threads t (.inside h (next (x.exec m.qpu).1)) } a' := by
  have hheld := L.held_of_inside hinside
  have hhandle := L.handles h
  rw [hheld] at hhandle
  obtain ⟨s', rest, hs', hrest, hprogress, hcovered⟩ := hhandle
  rw [hinside] at hrest
  injection hrest with _ hrest
  subst hrest
  cases hprogress with
  | after hpending hsched htrails => exact absurd htrails.1 hx
  | before E op hcalled hrest hone =>
    obtain ⟨a', s'', hstep, hslots', hscheds', hcalls', hsame, hok', hcounted', hprofile'⟩ :=
      perform_spec L.ok L.counted (L.num_eq h) hcalled hs' (E := E)
    obtain ⟨hout, hslots⟩ := hrest a.shared.qpu
    obtain ⟨hrc, hexec⟩ := x.exec_slots L.slots
    have htrails : Call.Trails (next (x.exec m.qpu).1) := by
      rcases hone with ⟨hx', -⟩ | ⟨-, ht⟩
      · exact absurd hx' hx
      · exact ht _
    rw [Program.run_enter, ← hrc] at hout hslots
    rw [(htrails.run _).1] at hout
    rw [(htrails.run _).2] at hslots
    rw [hout] at hsame hcalls'
    refine ⟨a', num.update h (queuedUnder (some s'')), hstep, ?_⟩
    refine L.assemble (· = h) (· = t) hprofile' ?_ ?_ (L.pair hinside) ?_ ?_ hok' ?_ ?_ hcounted' ?_
    · exact fun h' hne => ⟨rfl, by rw [hscheds', Function.update_of_ne hne], rfl⟩
    · exact fun t' hne => ⟨Function.update_of_ne hne _ _, by
        rw [hcalls', Function.update_of_ne hne]⟩
    · rintro h' rfl
      rw [show _ = Handle.held t from hheld]
      refine ⟨s'', _, by rw [hscheds', Function.update_self], Function.update_self _ _ _, ?_,
        hcovered.decision hx m.qpu⟩
      exact .after (by rw [hcalls', Function.update_self]) hsame htrails
    · rintro t' rfl
      simp only [Function.update_self]
      exact hheld
    · exact hexec.trans (hslots.symm.trans hslots'.symm)
    · refine Eq.trans ?_ L.queued
      exact QpuSection.exec_queuedCount hx
    · intro h'
      rw [hscheds', Finsupp.update_apply, Function.update_apply]
      split
      · rfl
      · exact L.num_eq h'

/-- A thread gives the lock back: a call that is not done yet is done now. -/
theorem Linear.release (L : Linear P base num share m a) {t h : ℕ} {z : Halt σ}
    (hinside : m.threads t = .inside h (.done z)) :
    ∃ a' num', Reaches (Atomic.Step P) a [] a' ∧ Linear P base num' share
      { m with
        handles := Function.update m.handles h (.free z.result.sched)
        threads := Function.update m.threads t (z.thread h) } a' := by
  have hheld := L.held_of_inside hinside
  have hhandle := L.handles h
  rw [hheld] at hhandle
  obtain ⟨s', rest, hs', hrest, hprogress, hcovered⟩ := hhandle
  rw [hinside] at hrest
  injection hrest with _ hrest
  subst hrest
  have hshare : ∀ {s'' : Sched σ}, (∀ qpu, z.result.sched.at qpu = s''.at qpu) →
      share h = queuedUnder (some s'') := by
    intro s'' hsame
    have htasks : (z.result.sched.at m.qpu).tasks = (s''.at m.qpu).tasks := by rw [hsame]
    have hown : z.queued = share h := hcovered
    rw [← hown]
    exact congrArg (fun table : TaskTable => table.number fun r => r.state = .queued) htasks
  cases hprogress with
  | after hpending hsched htrails =>
    refine ⟨a, num, .refl, ?_⟩
    refine L.assemble (· = h) (· = t) rfl ?_ ?_ (L.pair hinside) ?_ ?_ L.ok L.slots L.queued
      L.counted L.num_eq
    · exact fun h' hne => ⟨Function.update_of_ne hne _ _, rfl, rfl⟩
    · exact fun t' hne => ⟨Function.update_of_ne hne _ _, rfl⟩
    · rintro h' rfl
      simp only [Function.update_self]
      exact ⟨s', hs', hsched, hshare hsched⟩
    · rintro t' rfl
      simp only [Function.update_self]
      exact .halt hpending
  | before E op hcalled hrest hone =>
    obtain ⟨a', s'', hstep, hslots', hscheds', hcalls', hsame, hok', hcounted', hprofile'⟩ :=
      perform_spec L.ok L.counted (L.num_eq h) hcalled hs' (E := E)
    obtain ⟨hout, hslots⟩ := hrest a.shared.qpu
    rw [Program.run_done] at hout hslots
    rw [hout] at hsame hcalls'
    refine ⟨a', num.update h (queuedUnder (some s'')), .silently hstep, ?_⟩
    refine L.assemble (· = h) (· = t) hprofile' ?_ ?_ (L.pair hinside) ?_ ?_ hok' ?_ L.queued
      hcounted' ?_
    · exact fun h' hne => ⟨Function.update_of_ne hne _ _, by
        rw [hscheds', Function.update_of_ne hne], rfl⟩
    · exact fun t' hne => ⟨Function.update_of_ne hne _ _, by
        rw [hcalls', Function.update_of_ne hne]⟩
    · rintro h' rfl
      simp only [Function.update_self]
      exact ⟨s'', by rw [hscheds', Function.update_self], hsame, hshare hsame⟩
    · rintro t' rfl
      simp only [Function.update_self]
      exact .halt (by rw [hcalls', Function.update_self])
    · exact L.slots.trans (hslots.symm.trans hslots'.symm)
    · intro h'
      rw [hscheds', Finsupp.update_apply, Function.update_apply]
      split
      · rfl
      · exact L.num_eq h'

/-- **One step** is followed by the moment of one call at most. -/
theorem Linear.step (hstart : NeverRefusesStart P) (L : Linear P base num share m a)
    {l : Option (CallEvent ν)} (hstep : Machine.Step P m l m') :
    ∃ a', Reaches (Atomic.Step P) a l.toList a' ∧
      ∃ base num share, Linear P base num share m' a' := by
  cases hstep with
  | create habsent =>
    obtain ⟨a', hnext, hL⟩ := L.create habsent
    exact ⟨a', .seen hnext, _, _, _, hL⟩
  | destroy hfree hunused =>
    obtain ⟨a', hnext, hL⟩ := L.destroy hfree hunused
    exact ⟨a', .seen hnext, _, _, _, hL⟩
  | invoke h hidle hop =>
    obtain ⟨a', hnext, hL⟩ := L.invoke h hidle hop
    exact ⟨a', .seen hnext, _, _, _, hL⟩
  | acquire E hwaiting hfree => exact ⟨a, .refl, _, _, _, L.acquire hstart E hwaiting hfree⟩
  | @pass t h x next hinside =>
    by_cases hx : x.Counts
    · obtain ⟨share', hL⟩ := L.passCounting hinside hx
      exact ⟨a, .refl, _, _, _, hL⟩
    · obtain ⟨a', num', hnext, hL⟩ := L.passDecision hinside hx
      exact ⟨a', .silently hnext, _, _, _, hL⟩
  | release hinside =>
    obtain ⟨a', num', hnext, hL⟩ := L.release hinside
    exact ⟨a', hnext, _, _, _, hL⟩
  | respond hleaving =>
    obtain ⟨a', hnext, hL⟩ := L.respond hleaving
    exact ⟨a', .seen hnext, _, _, _, hL⟩

/-- The schedulers are those of the calls done so far. -/
theorem Linear.shows (L : Linear P base num share m a) (h : ℕ) :
    (m.handles h).Shows m.qpu (a.shared.scheds h) := by
  have hunder := L.handles h
  cases hhandle : m.handles h with
  | absent =>
    rw [hhandle] at hunder
    exact hunder.1
  | free s =>
    rw [hhandle] at hunder
    obtain ⟨s', hs', hsame, -⟩ := hunder
    show (a.shared.scheds h).map (·.at m.qpu) = some (s.at m.qpu)
    rw [hs', hsame]
    rfl
  | held t =>
    rw [hhandle] at hunder
    obtain ⟨s', -, hs', -⟩ := hunder
    exact Option.isSome_iff_exists.2 ⟨s', hs'⟩

/-- When no scheduler is being worked on, the QPU is that of the calls done so far. -/
theorem Linear.atRest (L : Linear P base num share m a) (hrest : m.AtRest) :
    m.qpu = a.shared.qpu := by
  have hshare : share = num := by
    ext h
    have hunder := L.handles h
    rw [L.num_eq]
    cases hhandle : m.handles h with
    | absent =>
      rw [hhandle] at hunder
      rw [hunder.1, hunder.2]
      rfl
    | free s =>
      rw [hhandle] at hunder
      obtain ⟨s', hs', -, hs⟩ := hunder
      rw [hs', hs]
    | held t => exact absurd hhandle (hrest h t)
  have hqueued := L.queued
  rw [hshare] at hqueued
  exact eq_of_slots L.slots (hqueued.trans L.counted.symm)

end Steps

/-- **Calls are linearizable.**  Whatever threads see of any interleaving of their
calls, on schedulers that come and go on one QPU, they could have seen with each
call done at one moment between its invocation and its response, or at two when it
is a submission whose callbacks run: its decision at the first, with the plan that
the second takes up.  The moments make a run of the schedulers one operation after
the other; at any time the slot, the counters of finished tasks and the schedulers
that nobody works on are as that run leaves them, and so is the queue counter
whenever no call is under way.  Assumed is that no policy refuses the start of a
task. -/
theorem calls_linearizable [DecidableEq ν] (P : ∀ n, PluginDesc (σ n)) (hstart : NeverRefusesStart P)
    (metadata : KvArray) {trace : List (CallEvent ν)} {m : Machine σ}
    (h : Reaches (Machine.Step P) (machineCreate metadata) trace m) :
    ∃ a : Atomic σ, Reaches (Atomic.Step P) (atomicCreate metadata) trace a ∧
      (∃ is, a.shared = run (sharedNext P) (sharedCreate metadata) is) ∧
      m.qpu.slots = a.shared.qpu.slots ∧
      (∀ h, (m.handles h).Shows m.qpu (a.shared.scheds h)) ∧
      (m.AtRest → m.qpu = a.shared.qpu) := by
  have hinit : Linear P 0 0 0 (machineCreate metadata) (atomicCreate metadata) := by
    refine ⟨by simp [SharedOk, atomicCreate, sharedCreate], rfl, ?_, ?_, ?_, ?_, ?_⟩
    · simp [Share, machineCreate, qpuCreate]
    · simp [Share, atomicCreate, sharedCreate, qpuCreate]
    · exact fun _ => rfl
    · exact fun _ => ⟨rfl, rfl⟩
    · exact fun _ => rfl
  have hsim : ∀ (m : Machine σ) (a : Atomic σ) l m',
      (∃ base num share, Linear P base num share m a) → Machine.Step P m l m' →
      ∃ a', Reaches (Atomic.Step P) a l.toList a' ∧
        ∃ base num share, Linear P base num share m' a' := by
    rintro m a l m' ⟨base, num, share, hL⟩ hstep
    exact hL.step hstart hstep
  obtain ⟨a, hreaches, base, num, share, hL⟩ := h.simulate hsim ⟨0, 0, 0, hinit⟩
  exact ⟨a, hreaches, Atomic.run_of_reaches hreaches, hL.slots, hL.shows, hL.atRest⟩

/-- The built-in policies refuse no start. -/
theorem builtin_neverRefusesStart (H : HeapOps) : NeverRefusesStart (builtinPlugins H) := by
  intro n E state id c
  cases n <;> rfl

/-- One thread submits to a scheduler with a policy and a cost callback; before the
callback has answered, another one submits there too, so that its task is the
first.  A task of another scheduler comes to the QPU while that one is selected. -/
def overlap : List (CallEvent Builtin) :=
  [.create 0, .create 1, .invoke 0 0 (.loadPlugin .fifo true), .respond 0 ⟨.ok, none⟩,
    .invoke 0 0 (.setPolicy .fifo (some [])), .respond 0 ⟨.ok, none⟩,
    .invoke 0 0 (.setCallbacks ⟨true, false⟩), .respond 0 ⟨.ok, none⟩,
    .invoke 0 0 (.submitTask { taskId := 7 } {}), .invoke 1 0 (.submitTask { taskId := 8 } {}),
    .respond 1 ⟨.ok, none⟩, .respond 0 ⟨.ok, none⟩,
    .invoke 0 0 .selectNext, .invoke 1 1 (.submitTask { taskId := 9 } {}),
    .respond 0 ⟨.ok, some ⟨8, 0, 0, 1, 0, 0, 0, 1⟩⟩, .respond 1 ⟨.ok, none⟩,
    .invoke 0 0 (.taskStarted 8), .respond 0 ⟨.ok, none⟩]

/-- The calls as they interleave, and at their moments. -/
theorem calls_linearizable_overlap :
    ∃ (m : Machine BuiltinState) (a : Atomic BuiltinState),
      Reaches (Machine.Step (builtinPlugins binaryHeap)) (machineCreate none) overlap m ∧
      Reaches (Atomic.Step (builtinPlugins binaryHeap)) (atomicCreate none) overlap a ∧
      m.qpu = a.shared.qpu ∧ m.qpu.runtime.runningTaskId = 8 ∧
      m.qpu.runtime.queuedCount = 2 := by
  have h : ∃ m, Reaches (Machine.Step (builtinPlugins binaryHeap)) (machineCreate none) overlap m ∧
      m.AtRest ∧ m.qpu.runtime.runningTaskId = 8 ∧ m.qpu.runtime.queuedCount = 2 := by
    refine ⟨_, .visible (.create rfl) <| .visible (.create rfl) <|
      -- the plugin, the policy and the callback
      .visible (.invoke 0 rfl trivial) <| .silent (.acquire (t := 0) (.still 0) rfl rfl) <|
      .silent (.release (t := 0) rfl) <| .visible (.respond rfl) <|
      .visible (.invoke 0 rfl trivial) <| .silent (.acquire (t := 0) (.still 0) rfl rfl) <|
      .silent (.release (t := 0) rfl) <| .visible (.respond rfl) <|
      .visible (.invoke 0 rfl trivial) <| .silent (.acquire (t := 0) (.still 0) rfl rfl) <|
      .silent (.release (t := 0) rfl) <| .visible (.respond rfl) <|
      -- two submissions, both of them before either has its cost
      .visible (.invoke 0 rfl trivial) <| .visible (.invoke 0 rfl trivial) <|
      .silent (.acquire (t := 0) (.still 0) rfl rfl) <| .silent (.release (t := 0) rfl) <|
      .silent (.acquire (t := 1) (.still 0) rfl rfl) <| .silent (.release (t := 1) rfl) <|
      .silent (.acquire (t := 1) (.still 0) rfl rfl) <| .silent (.pass (t := 1) rfl) <|
      .silent (.release (t := 1) rfl) <|
      .silent (.acquire (t := 0) (.still 0) rfl rfl) <| .silent (.pass (t := 0) rfl) <|
      .silent (.release (t := 0) rfl) <| .visible (.respond rfl) <| .visible (.respond rfl) <|
      -- a selection and a submission at the QPU
      .visible (.invoke 0 rfl trivial) <| .visible (.invoke 1 rfl trivial) <|
      .silent (.acquire (t := 0) (.still 0) rfl rfl) <|
      .silent (.acquire (t := 1) (.still 0) rfl rfl) <| .silent (.pass (t := 1) rfl) <|
      .silent (.pass (t := 0) rfl) <| .silent (.release (t := 0) rfl) <|
      .silent (.release (t := 1) rfl) <| .visible (.respond rfl) <| .visible (.respond rfl) <|
      -- the start
      .visible (.invoke 0 rfl trivial) <| .silent (.acquire (t := 0) (.still 0) rfl rfl) <|
      .silent (.pass (t := 0) rfl) <| .silent (.release (t := 0) rfl) <|
      .visible (.respond rfl) .refl, ?_, rfl, rfl⟩
    intro h t
    simp only [machineCreate, Function.update_apply]
    split
    · simp
    · split <;> simp
  obtain ⟨m, hm, hrest, hrunning, hqueued⟩ := h
  obtain ⟨a, ha, -, -, -, hsame⟩ :=
    calls_linearizable (builtinPlugins binaryHeap) (builtin_neverRefusesStart _) none hm
  exact ⟨m, a, hm, ha, hsame hrest, hrunning, hqueued⟩

end QhwScheduler
