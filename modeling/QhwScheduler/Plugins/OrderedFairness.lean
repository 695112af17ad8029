import QhwScheduler.Plugins.Fairness
import QhwScheduler.Plugins.Instants

/-!
# Rotation of the ordered plugin

With a round-robin key the groups that tie on the earlier keys take turns.

* `Ahead` — one entry of a list stands before every occurrence of another.
* `Grouped` — the groups of the plugin with the order of their tickets as a ring;
  `grouped_step` — what a hook does to the ring.
* `ahead_run` — who is ahead stays ahead while it waits and is not served.
* `ordered_rotation` — a group that is served again was not tied with a group that
  waited all the while and was not served.
-/

namespace QhwScheduler

open Foundations DeadlineQueue

/-! ## Who is ahead -/

section Ahead

variable {α : Type} {x y : α} {l : List α}

/-- The entry `x` is in the list, and `y` does not stand before it. -/
def Ahead (x y : α) (l : List α) : Prop := ∃ before after, l = before ++ x :: after ∧ y ∉ before

theorem ahead_of_not_mem (hx : x ∈ l) (hy : y ∉ l) : Ahead x y l := by
  obtain ⟨before, after, rfl⟩ := List.append_of_mem hx
  exact ⟨before, after, rfl, fun h => hy (List.mem_append_left _ h)⟩

theorem Ahead.append (h : Ahead x y l) (m : List α) : Ahead x y (l ++ m) := by
  obtain ⟨before, after, rfl, hy⟩ := h
  exact ⟨before, after ++ m, by simp, hy⟩

theorem Ahead.filter {p : α → Bool} (h : Ahead x y l) (hx : p x) : Ahead x y (l.filter p) := by
  obtain ⟨before, after, rfl, hy⟩ := h
  refine ⟨before.filter p, after.filter p, ?_, fun hin => hy (List.mem_of_mem_filter hin)⟩
  rw [List.filter_append, List.filter_cons_of_pos hx]

theorem Ahead.rel {R : α → α → Prop} (h : Ahead x y l) (hR : l.Pairwise R) (hy : y ∈ l)
    (hne : x ≠ y) : R x y := by
  obtain ⟨before, after, rfl, hout⟩ := h
  have hin : y ∈ after := by
    rcases List.mem_append.1 hy with h | h
    · exact absurd h hout
    · exact (List.mem_cons.1 h).resolve_left (Ne.symm hne)
  exact (List.pairwise_cons.1 (List.pairwise_append.1 hR).2.1).1 y hin

end Ahead

/-! ## The ring of the groups -/

/-- The plugin keeps groups, with this order of their tickets. -/
structure Grouped (s : History OrderedState) (ring : List GroupKey) : Prop where
  keys : OrderKey.roundRobin ∈ s.state.order.keys
  thresholds : s.state.order.deadline.boost.thresholdsRejected = false
  ok : ∃ queue, s.state.ready = .grouped queue ∧
    GroupedOk s.state.order (orderConfigUsesCost s.state.order) False 0 queue s.waiting ring

/-- What a call can do to the ring: it leaves the tasks `l` and hands out the given task. -/
inductive RingMove (ring : List GroupKey) (l : List TaskDesc) :
    Option TaskDesc → List GroupKey → Prop where
  | stay : RingMove ring l none ring
  | enter (key) : RingMove ring l none (ringWith key ring)
  | drop (key) : RingMove ring l none (ringWithout key l ring)
  | serve (d) : RingMove ring l (some d) (ringServed (groupKeyFromTask d) l ring)

section Steps

variable {H : HeapOps} {s : History OrderedState} {ring ring' : List GroupKey} {l : List TaskDesc}
  {out : Option TaskDesc} {G K : GroupKey} {is : List (Env × Hook)}

/-- Every call makes one of these moves. -/
theorem grouped_step (hH : H.Lawful) (hs : Grouped s ring) (i : Env × Hook) :
    ∃ ring', Grouped (hookStep (orderedPlugin H) s i) ring' ∧
      (hookStep (orderedPlugin H) s i).state.order = s.state.order ∧
      RingMove ring (hookStep (orderedPlugin H) s i).waiting (handsOut (orderedPlugin H) s i)
        ring' := by
  obtain ⟨⟨order, splitConfig, ready⟩, l⟩ := s
  obtain ⟨hkeys, hthr, queue, rfl, hok⟩ := hs
  obtain ⟨E, hook⟩ := i
  dsimp only at hkeys hthr hok
  have hE : False → Within 0 E 0 := False.elim
  cases hook with
  | submit task =>
    simp only [hookStep, handsOut, orderedPlugin, orderedOnTaskSubmit]
    rcases orderedSubmitRoundRobin_spec hH hE hok task .start with ⟨hrc, -, h⟩ | ⟨hrc, h, -⟩
    · simp only [hrc, if_true]
      exact ⟨_, ⟨hkeys, hthr, _, rfl, h⟩, trivial, .enter _⟩
    · simp only [hrc, if_false]
      exact ⟨_, ⟨hkeys, hthr, _, rfl, h⟩, trivial, .stay⟩
  | select =>
    simp only [hookStep, handsOut, orderedPlugin, orderedSelectNext]
    rcases orderedSelectGroups_spec hH hE hok .start with ⟨hrc, -, h⟩ | ⟨d, hd, hrc, hid, h, -⟩
    · simp only [hrc, reduceCtorEq, if_false]
      exact ⟨_, ⟨hkeys, hthr, _, rfl, h⟩, trivial, .stay⟩
    · simp only [hrc, if_true, hid, find_taskId hok.tracked.nodup hd]
      exact ⟨_, ⟨hkeys, hthr, _, rfl, h⟩, trivial, .serve d⟩
  | priorityChanged id priority =>
    simp only [hookStep, handsOut, orderedPlugin, orderedOnTaskPriorityChanged]
    rcases orderedGroupsPriorityChanged_spec hH hthr hE hok id priority .start with
      ⟨hrc, h⟩ | ⟨hrc, h⟩
    · simp only [hrc, if_true]
      exact ⟨_, ⟨hkeys, hthr, _, rfl, h⟩, trivial, .stay⟩
    · simp only [hrc, if_false]
      exact ⟨_, ⟨hkeys, hthr, _, rfl, h⟩, trivial, .stay⟩
  | started id => exact ⟨ring, ⟨hkeys, hthr, queue, rfl, hok⟩, rfl, .stay⟩
  | finished id state =>
    simp only [hookStep, handsOut, orderedPlugin, orderedOnTaskFinished]
    obtain ⟨-, ring', hring, h⟩ := orderedGroupsFinished_spec hH hok id .start
    refine ⟨ring', ⟨hkeys, hthr, _, rfl, h⟩, trivial, ?_⟩
    rcases hring with rfl | ⟨key, rfl⟩
    · exact .stay
    · exact .drop key

/-- A group that waits and is not served stays ahead. -/
theorem Ahead.move (h : Ahead K G ring) (hmove : RingMove ring l out ring')
    (hwaits : ofGroup K l ≠ []) (hout : ∀ d, out = some d → groupKeyFromTask d ≠ K) :
    Ahead K G ring' := by
  cases hmove with
  | stay => exact h
  | enter key =>
    unfold ringWith
    split
    · exact h
    · exact h.append _
  | drop key =>
    unfold ringWithout
    split
    · next hnil =>
      have hne : K ≠ key := fun he => hwaits (he ▸ hnil)
      exact h.filter (by simpa using hne)
    · exact h
  | serve d =>
    have hne : K ≠ groupKeyFromTask d := Ne.symm (hout d rfl)
    exact (h.filter (by simpa using hne)).append _

theorem ofGroup_ne_nil (h : GroupWaits K s) : ofGroup K s.waiting ≠ [] := by
  obtain ⟨d, hd, hK⟩ := h
  exact List.ne_nil_of_mem (mem_ofGroup.2 ⟨hd, hK⟩)

/-- **Who is ahead stays ahead** over every run in which it always waits and is never
served. -/
theorem ahead_run (hH : H.Lawful) (hs : Grouped s ring) (h : Ahead K G ring)
    (hwaits : Throughout (hookStep (orderedPlugin H)) (GroupWaits K) s is)
    (hserved : timesServed (orderedPlugin H) K s is = 0) :
    ∃ ring', Grouped (run (hookStep (orderedPlugin H)) s is) ring' ∧
      (run (hookStep (orderedPlugin H)) s is).state.order = s.state.order ∧ Ahead K G ring' := by
  induction is generalizing s ring with
  | nil => exact ⟨ring, hs, rfl, h⟩
  | cons i is ih =>
    obtain ⟨ring₁, hs₁, horder, hmove⟩ := grouped_step hH hs i
    rw [timesServed, handedOut, ofGroup_append, List.length_append, Nat.add_eq_zero_iff] at hserved
    have hout : ∀ d, handsOut (orderedPlugin H) s i = some d → groupKeyFromTask d ≠ K := by
      intro d hd hK
      have hone := hserved.1
      rw [hd] at hone
      simp [ofGroup, hK] at hone
    have h₁ := h.move hmove (ofGroup_ne_nil hwaits.2.head) hout
    obtain ⟨ring', hs', horder', h'⟩ := ih hs₁ h₁ hwaits.2 hserved.2
    exact ⟨ring', hs', horder'.trans horder, h'⟩

/-! ## Selections -/

/-- The task handed out comes first among all waiting tasks, as the selection judged
them, by the keys and the tickets. -/
theorem grouped_select (hH : H.Lawful) (hs : Grouped s ring) {E : Env} {d : TaskDesc}
    (hout : handsOut (orderedPlugin H) s (E, .select) = some d) {j : Judgement}
    (hj : judgement H E ⟨.ordered, s.state⟩ = some j) :
    d ∈ s.waiting ∧ ∃ ticket : GroupKey → ℕ, (ring.Pairwise fun a b => ticket a < ticket b) ∧
      (∀ e ∈ s.waiting, groupKeyFromTask e ∈ ring) ∧
      ∀ e ∈ s.waiting, (orderCompareGroups s.state.order (j.mem d.taskId) (j.mem e.taskId)
        (ticket (groupKeyFromTask d)) (ticket (groupKeyFromTask e))).isLE := by
  obtain ⟨⟨order, splitConfig, ready⟩, l⟩ := s
  obtain ⟨hkeys, -, queue, rfl, hok⟩ := hs
  dsimp only at hkeys hok
  obtain rfl := Option.some.inj hj
  have hto := ordered_touches hH order (orderConfigUsesCost order) l ring
  obtain ⟨-, -, hgroups, -⟩ := refreshExpired_spec hH E order.deadline .start hto hok.tracked hok.groups
  have ht := hgroups.tables
  have hring : ∀ e ∈ l, groupKeyFromTask e ∈ ring := fun e he =>
    (ht.mem_ring _).2 (List.ne_nil_of_mem (mem_ofGroup.2 ⟨he, rfl⟩))
  have hE : False → Within 0 E 0 := False.elim
  simp only [handsOut, orderedPlugin, orderedSelectNext] at hout
  rcases orderedSelectGroups_spec hH hE hok .start with ⟨hrc, -⟩ | ⟨e, he, hrc, hid, -, hleast⟩
  · simp [hrc] at hout
  · simp only [hrc, if_true, hid, find_taskId hok.tracked.nodup he, Option.some.injEq] at hout
    subst hout
    exact ⟨he, _, ht.tickets, hring, hleast⟩

end Steps

/-- **Groups that tie take turns.**  In every run of the ordered plugin with a round-robin
key, when a group `G` is served and later served again, and a group `K` has waiting tasks
all the while and is not served in between: the task handed out then is the best one of
`G`, and no task of `K`, so in particular the best one of `K`, ties with it on the keys
before the first round-robin key. -/
theorem ordered_rotation {H : HeapOps} (hH : H.Lawful) {E₀ : Env} {options : KvArray} {c : Cursor}
    {π : OrderedState} (hinit : ((orderedPlugin H).init E₀ options c).outcome = .ok π)
    (hrr : OrderKey.roundRobin ∈ π.order.keys) (first between : List (Env × Hook)) (E₁ E₂ : Env) :
    let P := orderedPlugin H
    let s := run (hookStep P) ⟨π, []⟩ first
    let s₁ := hookStep P s (E₁, .select)
    let s₂ := run (hookStep P) s₁ between
    ∀ d₁ d₂ G K, handsOut P s (E₁, .select) = some d₁ → groupKeyFromTask d₁ = G →
      handsOut P s₂ (E₂, .select) = some d₂ → groupKeyFromTask d₂ = G → K ≠ G →
      Throughout (hookStep P) (GroupWaits K) s₁ between → timesServed P K s₁ between = 0 →
      ∀ j ∈ judgement H E₂ ⟨.ordered, s₂.state⟩,
        (∀ e ∈ s₂.waiting, groupKeyFromTask e = G →
          (orderCompare π.order (j.mem d₂.taskId) (j.mem e.taskId)).isLE) ∧
        ∀ e ∈ s₂.waiting, groupKeyFromTask e = K →
          ¬ π.order.TiesBeforeRoundRobin (j.mem d₂.taskId) (j.mem e.taskId) := by
  intro P s s₁ s₂ d₁ d₂ G K hfirst hG hsecond hG' hne hwaits hserved j hj
  have hstart : ∃ ring, Grouped ⟨π, []⟩ ring := by
    obtain ⟨hready, hthr⟩ : OrderedInv False 0 π [] := orderedInit_inv hinit
    obtain ⟨order, splitConfig, ready⟩ := π
    cases hready with
    | flat keys => exact absurd hrr keys
    | grouped ring keys ok => exact ⟨ring, hrr, hthr, _, rfl, ok⟩
  have hs : (∃ ring, Grouped s ring) ∧ s.state.order = π.order := by
    refine run_invariant (motive := fun s => (∃ ring, Grouped s ring) ∧ s.state.order = π.order)
      ?_ ⟨hstart, rfl⟩ first
    rintro s i ⟨⟨ring, hs⟩, horder⟩
    obtain ⟨ring', hs', horder', -⟩ := grouped_step hH hs i
    exact ⟨⟨ring', hs'⟩, horder'.trans horder⟩
  obtain ⟨⟨ring, hs⟩, horder⟩ := hs
  obtain ⟨ring₁, hs₁, horder₁, hmove⟩ := grouped_step hH hs (E₁, .select)
  -- the group that was served stands behind all others, or is gone
  have hahead : Ahead K G ring₁ := by
    obtain ⟨-, -, queue, -, hok⟩ := id hs₁
    have hK : K ∈ ring₁ := (hok.groups.tables.mem_ring K).2 (ofGroup_ne_nil hwaits.head)
    rw [show handsOut (orderedPlugin H) s (E₁, .select) = some d₁ from hfirst] at hmove
    cases hmove with
    | serve =>
      rw [hG] at hK ⊢
      have hfilter : K ∈ ring.filter (· ≠ G) := by
        rcases List.mem_append.1 hK with h | h
        · exact h
        · split at h
          · simp at h
          · exact absurd (List.mem_singleton.1 h) hne
      exact (ahead_of_not_mem hfilter (by simp)).append _
  obtain ⟨ring₂, hs₂, horder₂, hahead⟩ := ahead_run hH hs₁ hahead hwaits hserved
  obtain ⟨hd, ticket, htickets, hring, hleast⟩ := grouped_select hH hs₂ hsecond hj
  have hconfig : s₂.state.order = π.order := (horder₂.trans horder₁).trans horder
  rw [show (run (hookStep (orderedPlugin H)) (hookStep (orderedPlugin H) s (E₁, .select))
    between).state.order = π.order from hconfig] at hleast
  refine ⟨fun e he heG => ?_, fun e he heK hties => ?_⟩
  · have hle := hleast e he
    rw [hG', heG, orderCompareGroups, orderCompareLoop_same_ticket] at hle
    exact hle
  · have hlt : ticket K < ticket G := hahead.rel htickets (hG' ▸ hring d₂ hd) hne
    have hgt := orderCompareLoop_tied hrr (a := ⟨j.mem d₂.taskId, ticket G⟩)
      (b := ⟨j.mem e.taskId, ticket K⟩) hties hlt
    have hle := hleast e he
    rw [hG', heK, orderCompareGroups, hgt] at hle
    simp at hle

/-- Two urgent tasks of a job, and a task of another job that is not. -/
def urgentJob : List (Env × Hook) :=
  [(.still 0, .submit { taskId := 1, jobId := 1, priority := 5 }),
    (.still 0, .submit { taskId := 2, jobId := 1, priority := 5 }),
    (.still 0, .submit { taskId := 3, jobId := 2 })]

/-- The plugin after its initialisation with the keys priority and round_robin. -/
def rotationStart : OrderedState :=
  ⟨⟨[.priority, .roundRobin], {}⟩, splitConfigInit, .grouped (freshQueue Heap.empty
    ⟨GroupMap.empty, fun _ => none, Heap.empty, false, 1⟩)⟩

/-- The first job is served twice, as the other one has a lower priority. -/
theorem ordered_rotation_urgentJob :
    let P := orderedPlugin binaryHeap
    let s₁ := hookStep P (run (hookStep P) ⟨rotationStart, []⟩ urgentJob) (.still 0, .select)
    (judgement binaryHeap (.still 0) ⟨.ordered, s₁.state⟩).isSome ∧
    ∀ j ∈ judgement binaryHeap (.still 0) ⟨.ordered, s₁.state⟩, ∀ e ∈ s₁.waiting,
      groupKeyFromTask e = ⟨.job, 2⟩ →
        ¬ rotationStart.order.TiesBeforeRoundRobin (j.mem 2) (j.mem e.taskId) := by
  intro P s₁
  have hinit : (P.init (.still 0) (some [⟨optOrderKey, .u64 1⟩, ⟨optOrderKey, .u64 5⟩])
    .start).outcome = .ok rotationStart := rfl
  refine ⟨by decide +kernel, fun j hj => ?_⟩
  exact (ordered_rotation binaryHeap_lawful hinit (by decide) urgentJob [] (.still 0) (.still 0)
    { taskId := 1, jobId := 1, priority := 5 } { taskId := 2, jobId := 1, priority := 5 } ⟨.job, 1⟩
    ⟨.job, 2⟩ (by decide +kernel) (by decide) (by decide +kernel) (by decide) (by decide)
    (by show GroupWaits _ _; decide +kernel) rfl j hj).2

end QhwScheduler
