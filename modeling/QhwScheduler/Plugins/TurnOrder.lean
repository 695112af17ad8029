import QhwScheduler.Foundations.Turns
import QhwScheduler.Plugins.DrainOrder

/-!
# The order in which groups in turns drain

With the groups in turns a worker gets the first task of each group, then the second one of
each group, and so on.

* `turnOf` — what a policy orders the groups by.
* `TakesTurns` — a policy holds these tasks, with the groups in this ring.
* `TakesTurns.select` — a selection serves the first group of the ring.
* `groups_drain_in_turns` — what a worker gets, after every run.
-/

namespace QhwScheduler

open Foundations DeadlineQueue
open Std (ReflCmp TransCmp)

/-- What a policy orders the groups by: the tickets, or the list of the active groups. -/
def turnOf : Sigma BuiltinState → GroupKey → ℕ
  | ⟨.ordered, s⟩ =>
    match OrderedState.ready s with
    | .grouped q => q.ready.ticket
    | .flat _ => fun _ => 0
  | ⟨.roundRobin, s⟩ => fun key => (RrState.activeGroups s).idxOf key
  | ⟨.fifo, _⟩ => fun _ => 0
  | ⟨.priority, _⟩ => fun _ => 0

/-- A policy that looks at the turns first holds these tasks, with the groups in this ring. -/
inductive TakesTurns (order : OrderConfig) (t : UInt64) (l : List TaskDesc) (ring : List GroupKey) :
    Sigma BuiltinState → Prop where
  | ordered {splitConfig q} (keys : order.keys.head? = some .roundRobin)
      (thresholds : order.deadline.boost.thresholdsRejected = false)
      (ok : GroupedOk order (orderConfigUsesCost order) True t q l ring) :
      TakesTurns order t l ring ⟨.ordered, (⟨order, splitConfig, .grouped q⟩ : OrderedState)⟩
  | roundRobin {s : RrState} {r} (keys : order = roundRobinFifo) (ok : RrOk s r)
      (holds : r.waiting = entries l) (isRing : r.ring = ring) :
      TakesTurns order t l ring ⟨.roundRobin, s⟩

section Turns

variable {H : HeapOps} {E : Env} {order : OrderConfig} {t u : UInt64} {l l₀ : List TaskDesc}
  {ring : List GroupKey} {π : Sigma BuiltinState} {d e : TaskDesc}

/-- The policy that is active after a run holds the waiting tasks in some ring. -/
theorem takesTurns_of_inv {n : Builtin} {π : BuiltinState n} (hπ : BuiltinInv True n t π l)
    (hkeys : (settings ⟨n, π⟩).1.keys.head? = some .roundRobin) :
    ∃ ring, TakesTurns (settings ⟨n, π⟩).1 t l ring ⟨n, π⟩ := by
  have hin : ∀ {keys : List OrderKey}, keys.head? = some .roundRobin → .roundRobin ∈ keys :=
    fun h => List.mem_of_head? h
  cases n with
  | fifo => simp [settings, fifoOrder] at hkeys
  | priority => simp [settings, priorityKeys] at hkeys
  | ordered =>
    obtain ⟨order, splitConfig, ready⟩ := π
    obtain ⟨hready, hthr⟩ : OrderedInv True t ⟨order, splitConfig, ready⟩ l := hπ
    cases hready with
    | flat keys ok => exact absurd (hin hkeys) keys
    | grouped ring keys ok => exact ⟨ring, .ordered hkeys hthr ok⟩
  | roundRobin =>
    obtain ⟨r, hr, hl⟩ : RrInv π l := hπ
    exact ⟨r.ring, .roundRobin rfl hr hl rfl⟩

theorem TakesTurns.keys (h : TakesTurns order t l ring π) :
    order.keys.head? = some .roundRobin := by
  cases h with
  | ordered keys thresholds ok => exact keys
  | roundRobin keys ok holds isRing => rw [keys]; rfl

theorem TakesTurns.mono (h : TakesTurns order t l ring π) (hle : t ≤ u) :
    TakesTurns order u l ring π := by
  cases h with
  | ordered keys thresholds ok => exact .ordered keys thresholds (ok.mono fun _ => hle)
  | roundRobin keys ok holds isRing => exact .roundRobin keys ok holds isRing

/-- The ring lists the groups that have tasks. -/
theorem TakesTurns.mem_ring (h : TakesTurns order t l ring π) (key : GroupKey) :
    key ∈ ring ↔ ofGroup key l ≠ [] := by
  cases h with
  | ordered keys thresholds ok => exact ok.groups.tables.mem_ring key
  | roundRobin keys ok holds isRing =>
    rw [← isRing, ok.rotation.mem_ring, Rotation.groups, holds, mem_groups_entries]

theorem TakesTurns.nodup_ring (h : TakesTurns order t l ring π) : ring.Nodup := by
  cases h with
  | ordered keys thresholds ok => exact ok.groups.tables.nodup
  | roundRobin keys ok holds isRing => exact isRing ▸ ok.rotation.nodup

theorem TakesTurns.key_mem (h : TakesTurns order t l ring π) (hd : d ∈ l) :
    groupKeyFromTask d ∈ ring :=
  (h.mem_ring _).2 (List.ne_nil_of_mem (mem_ofGroup.2 ⟨hd, rfl⟩))

/-- The groups compare by their places in the ring. -/
theorem TakesTurns.compare_turnOf (h : TakesTurns order t l ring π) {k k' : GroupKey}
    (hk : k ∈ ring) (hk' : k' ∈ ring) :
    compare (turnOf π k) (turnOf π k') = compare (ring.idxOf k) (ring.idxOf k') := by
  cases h with
  | @ordered splitConfig q keys thresholds ok =>
    rw [← compareAsc_nat, ← compareAsc_nat]
    exact compareAsc_positions ok.groups.tables.tickets (List.getElem?_idxOf hk)
      (List.getElem?_idxOf hk')
  | @roundRobin s r keys ok holds isRing =>
    rw [← isRing, ← ok.active]
    rfl

/-! ## One selection -/

/-- What the first key tells apart, no other key is asked about. -/
theorem compare_of_turn {a b : Candidate} (hkeys : order.keys.head? = some .roundRobin)
    (h : (Candidate.compare order u a b).isLE) : a.turn ≤ b.turn := by
  obtain ⟨rest, hrest⟩ := List.head?_eq_some_iff.1 hkeys
  unfold Candidate.compare at h
  rw [hrest, List.map_cons, List.cons_append, lexCompare_cons] at h
  have hturn : (compareAsc a.turn b.turn).isLE := (Ordering.isLE_then_iff_and.1 h).1
  rw [compareAsc_nat] at hturn
  exact Nat.isLE_compare.1 hturn

/-- The task that is least among the candidates is the first one of the first group. -/
theorem RingOk.first_of_front {q : DeadlineQueue OrderedGroups} {w : List (TaskDesc × ℕ)}
    {next : GroupKey → ℕ} (hq : RingOk order True t q w ring next)
    (hkeys : order.keys.head? = some .roundRobin) (hnd : l₀.Nodup)
    (hsub : (w.map Prod.fst).Sublist l₀) {a : Candidate}
    (ha : leastBy (Candidate.compare order u) (ReferenceReady.ring w ring next).candidates = some a) :
    (∃ tail, ring = groupKeyFromTask a.task :: tail) ∧
      ∀ e ∈ w.map Prod.fst, groupKeyFromTask e = groupKeyFromTask a.task →
        (standing order u l₀ a.task e).isLE := by
  obtain ⟨hain, haturn⟩ := mem_ring_candidates.1 (leastBy_mem ha)
  have htask : a.task ∈ w.map Prod.fst := List.mem_map_of_mem hain
  have htables := hq.ok.groups.tables
  have hin : groupKeyFromTask a.task ∈ ring :=
    (htables.mem_ring _).2 (List.ne_nil_of_mem (mem_ofGroup.2 ⟨htask, rfl⟩))
  have hle : ∀ {e : TaskDesc} {j : ℕ}, (e, j) ∈ w →
      (Candidate.compare order u a ⟨e, j, ring.idxOf (groupKeyFromTask e)⟩).isLE := fun he =>
    leastBy_le ha (mem_ring_candidates.2 ⟨he, rfl⟩)
  constructor
  · -- the first group has a task, whose turn is the first one
    obtain ⟨k, tail, rfl⟩ := List.exists_cons_of_ne_nil (List.ne_nil_of_mem hin)
    obtain ⟨d, hd⟩ := List.exists_mem_of_ne_nil _ ((htables.mem_ring k).1 List.mem_cons_self)
    obtain ⟨hdl, rfl⟩ := mem_ofGroup.1 hd
    obtain ⟨⟨d, j⟩, hdw, rfl⟩ := List.mem_map.1 hdl
    have hturn := compare_of_turn hkeys (hle hdw)
    dsimp only at hturn
    rw [haturn, List.idxOf_cons_self] at hturn
    by_contra hne
    have hother : groupKeyFromTask d ≠ groupKeyFromTask a.task := fun h => hne ⟨tail, by rw [← h]⟩
    rw [List.idxOf_cons_ne tail hother] at hturn
    omega
  · intro e he hkey
    obtain ⟨⟨e, j⟩, hew, rfl⟩ := List.mem_map.1 he
    dsimp only at he hkey ⊢
    have hsame : Candidate.compare order u a ⟨e, j, ring.idxOf (groupKeyFromTask e)⟩ =
        standing order u l₀ a.task e := by
      refine Candidate.compare_congr rfl rfl ?_ ?_
      · -- in a group the numbers grow along the line
        obtain ⟨group, hgroup⟩ := Option.isSome_iff_exists.1 ((htables.live _).2 hin)
        have hgrow := (htables.ready _ group hgroup).numbered.growing
        obtain ⟨i, hi⟩ := List.mem_iff_getElem?.1 (mem_ofGroup.2 ⟨htask, rfl⟩)
        obtain ⟨i', hi'⟩ := List.mem_iff_getElem?.1 (mem_ofGroup.2 ⟨he, hkey⟩)
        have hseqs := compareAsc_positions hgrow hi hi'
        have hplaces := compareAsc_positions
          ((idxOf_growing hnd).sublist (ofGroup_sublist.trans hsub)) hi hi'
        have hnumber : (q.mem a.task.taskId).seq = a.number := hq.number _ hain
        have hnumber' : (q.mem e.taskId).seq = j := hq.number _ hew
        rw [hnumber, hnumber'] at hseqs
        exact hseqs.trans hplaces.symm
      · rw [haturn, hkey]
        simp [compareAsc, inLine]
    rw [← hsame]
    exact hle hew

/-- The groups of an ordered policy as those of a reference ring. -/
theorem ringOk_of_grouped {q : DeadlineQueue OrderedGroups}
    (hq : GroupedOk order (orderConfigUsesCost order) True t q l ring) :
    RingOk order True t q (l.map fun d => (d, (q.mem d.taskId).seq)) ring q.ready.nextSeq := by
  have hfst : (l.map fun d => (d, (q.mem d.taskId).seq)).map Prod.fst = l := by
    rw [List.map_map]
    exact List.map_id l
  refine ⟨by rw [hfst]; exact hq, fun e he => ?_, fun key => rfl⟩
  obtain ⟨d, -, rfl⟩ := List.mem_map.1 he
  rfl

/-- The ring once the first group has been served. -/
def served (key : GroupKey) (rest : List TaskDesc) (tail : List GroupKey) : List GroupKey :=
  tail ++ if ofGroup key rest = [] then [] else [key]

/-- A selection serves the first group with the task that stands first in it. -/
def ServesFirst (order : OrderConfig) (t : UInt64) (l₀ l : List TaskDesc) (ring : List GroupKey)
    {n : Builtin} (r : SelectResult (BuiltinState n)) : Prop :=
  (r.rc = .errNotFound ∧ l = [] ∧ TakesTurns order t l ring ⟨n, r.state⟩) ∨
    ∃ d ∈ l, r.rc = .ok ∧ r.taskId = d.taskId ∧
      (∀ e ∈ l, groupKeyFromTask e = groupKeyFromTask d →
        (standing order (clockValue order.deadline t) l₀ d e).isLE) ∧
      ∃ tail, ring = groupKeyFromTask d :: tail ∧
        TakesTurns order t (withoutTask d.taskId l)
          (served (groupKeyFromTask d) (withoutTask d.taskId l) tail) ⟨n, r.state⟩

/-- **A selection serves the first group**: of the ordered policy, -/
theorem ordered_serves (hH : H.Lawful) (hE : Steady E t) {splitConfig : SplitConfig}
    {q : DeadlineQueue OrderedGroups} (hkeys : order.keys.head? = some .roundRobin)
    (hthr : order.deadline.boost.thresholdsRejected = false)
    (hq : GroupedOk order (orderConfigUsesCost order) True t q l ring) (hnd : l₀.Nodup)
    (hsub : l.Sublist l₀) (c : Cursor) :
    ServesFirst (n := .ordered) order t l₀ l ring
      (orderedSelectNext H E ⟨order, splitConfig, .grouped q⟩ c) := by
  have hfst : (l.map fun d => (d, (q.mem d.taskId).seq)).map Prod.fst = l := by
    rw [List.map_map]
    exact List.map_id l
  have hring := ringOk_of_grouped hq
  rcases orderedSelectGroups_spec hH (E := E) (fun _ => hE.within (UInt64.le_refl t)) hq c with
    ⟨hrc, hnil, hok⟩ | ⟨d, hd, hrc, hid, hok, hleast⟩
  · exact Or.inl ⟨hrc, hnil, .ordered hkeys hthr hok⟩
  · obtain ⟨a, ha, rfl⟩ := ring_first hH hE hthr (fun _ => trivial) hring c
      (by rw [hfst]; exact hd) (by rw [hfst]; exact hleast)
    obtain ⟨⟨tail, hfront⟩, hstands⟩ := hring.first_of_front hkeys hnd (by rwa [hfst]) ha
    rw [hfst] at hstands
    refine Or.inr ⟨a.task, hd, hrc, hid, hstands, tail, hfront, ?_⟩
    have hnew : groupKeyFromTask a.task ∉ tail := by
      have hnodup := hq.groups.tables.nodup
      rw [hfront, List.nodup_cons] at hnodup
      exact hnodup.1
    have hserved : served (groupKeyFromTask a.task) (withoutTask a.task.taskId l) tail =
        ringServed (groupKeyFromTask a.task) (withoutTask a.task.taskId l) ring := by
      rw [served, ringServed, hfront, List.filter_cons_of_neg (by simp), List.filter_eq_self.2]
      exact fun key hkey => decide_eq_true fun h => hnew (h ▸ hkey)
    rw [hserved]
    exact .ordered hkeys hthr hok

/-- In the order of arrival the first of a list stands first. -/
theorem standing_fifo (hnd : l₀.Nodup) (hsub : (d :: l).Sublist l₀) (he : e ∈ d :: l) :
    (standing roundRobinFifo u l₀ d e).isLE := by
  rcases List.mem_cons.1 he with rfl | he
  · exact ReflCmp.isLE_rfl
  · have hlt : l₀.idxOf d < l₀.idxOf e :=
      (List.pairwise_cons.1 ((idxOf_growing hnd).sublist hsub)).1 e he
    have hfirst : standing roundRobinFifo u l₀ d e = .lt := by
      simp [standing, Candidate.compare, roundRobinFifo, lexCompare, OrderKey.compareCandidates,
        inLine, compareAsc, hlt, Nat.ne_of_lt hlt]
    rw [hfirst]
    rfl

/-- and of the round_robin policy. -/
theorem roundRobin_serves {s : RrState} {r : Rotation TaskId GroupKey} (hs : RrOk s r)
    (hholds : r.waiting = entries l) (hnd : l₀.Nodup) (hsub : l.Sublist l₀) (c : Cursor) :
    ServesFirst (n := .roundRobin) roundRobinFifo t l₀ l r.ring (rrSelectNext s c) := by
  rcases rrSelectNext_spec hs c with ⟨hrc, hnone, hok⟩ | ⟨e, hnext, hrc, hid, hok⟩
  · have hnil : l = [] := by
      have hempty := hs.rotation.next_eq_none_iff.1 hnone
      rw [hholds] at hempty
      exact List.map_eq_nil_iff.1 hempty
    exact Or.inl ⟨hrc, hnil, .roundRobin rfl hok hholds rfl⟩
  · obtain ⟨-, hfront⟩ := Rotation.next_mem hnext
    have hfind : (entries l).find? (·.2 = e.2) = some e := by
      rw [Rotation.next, hfront, hholds] at hnext
      exact hnext
    rw [entries, List.find?_map, Option.map_eq_some_iff] at hfind
    obtain ⟨d, hfind, rfl⟩ := hfind
    obtain ⟨others, hgroup⟩ : ∃ others, ofGroup (groupKeyFromTask d) l = d :: others := by
      rw [← List.head?_eq_some_iff, ofGroup, List.head?_filter]
      exact hfind
    have hrest := entries_withoutTask hholds d.taskId
    have hd : d ∈ l := List.mem_of_find?_eq_some hfind
    refine Or.inr ⟨d, hd, hrc, hid, fun e he hkey => ?_, r.ring.tail, hfront, ?_⟩
    · refine standing_fifo hnd (l := others) ?_ ?_
      · rw [← hgroup]
        exact ofGroup_sublist.trans hsub
      · rw [← hgroup]
        exact mem_ofGroup.2 ⟨he, hkey⟩
    · refine .roundRobin rfl hok hrest ?_
      have hmem : groupKeyFromTask d ∈ (entries (withoutTask d.taskId l)).map Prod.snd ↔
          ofGroup (groupKeyFromTask d) (withoutTask d.taskId l) ≠ [] := mem_groups_entries
      show r.ring.tail ++ (if _ then _ else _) = served _ _ _
      rw [hrest, served]
      by_cases hnil : ofGroup (groupKeyFromTask d) (withoutTask d.taskId l) = []
      · rw [if_pos hnil, if_neg fun h => hmem.1 h hnil]
      · rw [if_neg hnil, if_pos (hmem.2 hnil)]

theorem TakesTurns.serves (hH : H.Lawful) (hE : Steady E t) (h : TakesTurns order t l ring π)
    (hnd : l₀.Nodup) (hsub : l.Sublist l₀) (c : Cursor) :
    ServesFirst order t l₀ l ring ((builtinPlugins H π.1).selectNext E π.2 c) := by
  cases h with
  | ordered keys thresholds ok => exact ordered_serves hH hE keys thresholds ok hnd hsub c
  | roundRobin keys ok holds isRing =>
    rw [keys, ← isRing]
    exact roundRobin_serves ok holds hnd hsub c

/-! ## Other calls of a worker -/

/-- A policy does nothing when a task starts, -/
theorem TakesTurns.started {n : Builtin} {state : BuiltinState n}
    (h : TakesTurns order t l ring ⟨n, state⟩) (id : TaskId) (c : Cursor) :
    TakesTurns order t l ring ⟨n, ((builtinPlugins H n).onTaskStarted E state id c).state⟩ := by
  cases n <;> exact h

/-- and when one ends that does not wait. -/
theorem TakesTurns.finished {n : Builtin} {state : BuiltinState n}
    (h : TakesTurns order t l ring ⟨n, state⟩) {id : TaskId} (hid : id ∉ taskIds l)
    (taskState : TaskState) (c : Cursor) : TakesTurns order t l ring
      ⟨n, ((builtinPlugins H n).onTaskFinished E state id taskState c).state⟩ := by
  cases h with
  | @ordered splitConfig q keys thresholds ok =>
    have hnone : q.ready.groupTasks id = none := by
      rw [← Option.not_isSome_iff_eq_none, ok.groups.tables.isSome_iff]
      exact hid
    have hsame : (orderedGroupsFinished H order q id c).state = q := by
      have hfind : orderedFindGroupTask q.ready id = false := by
        rw [orderedFindGroupTask, hnone]
      unfold orderedGroupsFinished orderedRemoveGroupTask
      simp only [hfind, hnone, Bool.false_eq_true, if_false]
    show TakesTurns order t l ring
      ⟨.ordered, (⟨order, splitConfig, .grouped (orderedGroupsFinished H order q id c).state⟩ :
        OrderedState)⟩
    rw [hsame]
    exact .ordered keys thresholds ok
  | @roundRobin s r keys ok holds isRing =>
    have hnone : s.tasks id = none := by
      rw [← Option.not_isSome_iff_eq_none, ok.tasks_isSome_iff, names_entries holds]
      exact hid
    have hsame : (rrOnTaskFinished s id c).state = s := by
      unfold rrOnTaskFinished rrRemoveReadyTask
      simp only [hnone]
    show TakesTurns order t l ring ⟨.roundRobin, (rrOnTaskFinished s id c).state⟩
    rw [hsame]
    exact .roundRobin keys ok holds isRing

end Turns

section Worker

variable {ν : Type} {σ : ν → Type} [DecidableEq ν] {P : ∀ n, PluginDesc (σ n)} {E : Env}
  {s : Sched σ} {R : ∀ n, UInt64 → σ n → List TaskDesc → Prop} {t : UInt64} {Q : Sigma σ → Prop}

/-- A call of a worker other than a selection only tells the policy that a task starts, or
that one ends that does not wait. -/
theorem worker_policy (hstarted : ∀ {n state} E id c, Q ⟨n, state⟩ →
      Q ⟨n, ((P n).onTaskStarted E state id c).state⟩)
    (hcompleted : ∀ {n state} E id c, id ∉ taskIds (waiting s.tasks) → Q ⟨n, state⟩ →
      Q ⟨n, ((P n).onTaskFinished E state id .completed c).state⟩)
    (hok : s.tasks.Ok) (hQ : ∃ π, s.policy = some π ∧ Q π) {op : Op ν} (hop : op.ByWorker)
    (hselect : op.isSelect = false) : ∃ π, (step P s E op).sched.policy = some π ∧ Q π := by
  obtain ⟨⟨n, state⟩, hpolicy, hπ⟩ := hQ
  cases op with
  | setCallbacks callbacks => exact ⟨_, hpolicy, hπ⟩
  | loadPlugin name valid =>
    show ∃ π, (loadPlugin E s name valid .start).sched.policy = some π ∧ Q π
    unfold loadPlugin
    split
    · exact ⟨_, hpolicy, hπ⟩
    · exact ⟨_, hpolicy, hπ⟩
  | selectNext => simp [Op.isSelect] at hselect
  | taskStarted id =>
    show ∃ π, (taskStarted P E s id .start).sched.policy = some π ∧ Q π
    unfold taskStarted
    rw [hpolicy]
    split
    · exact ⟨_, hpolicy, hπ⟩
    · split
      · exact ⟨_, hpolicy, hπ⟩
      · dsimp only
        split
        · exact ⟨_, hpolicy, hπ⟩
        · split
          · exact ⟨_, rfl, hstarted E id .start hπ⟩
          · exact ⟨_, rfl, hstarted E id .start hπ⟩
  | taskCompleted id =>
    show ∃ π, (finishTask P E s id .completed .start).sched.policy = some π ∧ Q π
    unfold finishTask
    rw [hpolicy]
    split
    · exact ⟨_, hpolicy, hπ⟩
    · next r hr =>
      split
      · exact ⟨_, hpolicy, hπ⟩
      · split
        · exact ⟨_, hpolicy, hπ⟩
        · split
          · exact ⟨_, hpolicy, hπ⟩
          · next hrunning =>
            have hstate : r.state = .running := by simpa using hrunning
            refine ⟨_, rfl, hcompleted E id .start (fun hin => ?_) hπ⟩
            obtain ⟨r', hr', hq⟩ := hok.mem_taskIds_waiting.1 hin
            rw [hr, Option.some.injEq] at hr'
            rw [← hr', hstate] at hq
            simp at hq
  | setPolicy name options => exact hop.elim
  | submitTask task answers => exact hop.elim
  | submitBegin task => exact hop.elim
  | submitEnd plan answers => exact hop.elim
  | taskUpdatePriority id priority => exact hop.elim
  | taskFailed id => exact hop.elim
  | taskCancelled id => exact hop.elim

end Worker

/-! ## Draining -/

section Drain

variable {H : HeapOps} {t : UInt64} {order : OrderConfig} {l₀ : List TaskDesc}

/-- How two tasks compare whose groups take turns. -/
def turnStanding (order : OrderConfig) (u : UInt64) (place : GroupKey → ℕ) (l₀ l : List TaskDesc) :
    TaskDesc → TaskDesc → Ordering :=
  inTurns (standing order u l₀) groupKeyFromTask place l

instance turnStanding_transCmp (order : OrderConfig) (u : UInt64) (place : GroupKey → ℕ)
    (l₀ l : List TaskDesc) : TransCmp (turnStanding order u place l₀ l) :=
  inTurns_transCmp (standing order u l₀) groupKeyFromTask place l

/-- What a scheduler has to hand out in turns: these tasks, which are left of a line, and
compare as they did at first. -/
structure ToServe (order : OrderConfig) (t₀ : UInt64) (place : GroupKey → ℕ) (l₀ : List TaskDesc)
    (t : UInt64) (s : Sched BuiltinState) (l : List TaskDesc) : Prop where
  agreed : Agreed (BuiltinInv True) t s
  policy : ∃ π, s.policy = some π ∧ ∃ ring, TakesTurns order t l ring π ∧
    ∀ d ∈ l, ∀ e ∈ l, turnStanding order (clockValue order.deadline t₀) ring.idxOf l₀ l d e =
      turnStanding order (clockValue order.deadline t₀) place l₀ l₀ d e
  waits : waiting s.tasks = l
  sublist : l.Sublist l₀

/-- The groups that are left compare as they did before the first one was served. -/
theorem turnStanding_served {u : UInt64} {l : List TaskDesc} {d : TaskDesc} {tail : List GroupKey}
    {ring : List GroupKey} (hids : (taskIds l).Nodup) (hd : d ∈ l)
    (hring : ∀ e ∈ l, groupKeyFromTask e ∈ ring) (hfront : ring = groupKeyFromTask d :: tail)
    (hnodup : ring.Nodup) (hleast : ∀ e ∈ l, groupKeyFromTask e = groupKeyFromTask d →
      (standing order u l₀ d e).isLE) {e f : TaskDesc}
    (he : e ∈ withoutTask d.taskId l) (hf : f ∈ withoutTask d.taskId l) :
    turnStanding order u (served (groupKeyFromTask d) (withoutTask d.taskId l) tail).idxOf l₀
        (withoutTask d.taskId l) e f =
      turnStanding order u ring.idxOf l₀ l e f := by
  subst hfront
  rw [List.nodup_cons] at hnodup
  have hrest : ∀ e ∈ withoutTask d.taskId l, groupKeyFromTask e ≠ groupKeyFromTask d →
      groupKeyFromTask e ∈ tail := fun e he hne =>
    (List.mem_cons.1 (hring e (withoutTask_sublist.subset he))).resolve_left hne
  refine inTurns_served (perm_cons_withoutTask hids hd) (by simp)
    (fun a ha b hb h => eq_of_taskId_eq hids ha hb (taskId_eq_of_standing h)) hleast
    (fun b _ hne => idxOf_front hne)
    (fun b hb c hc hgb hgc => idxOf_others (hrest b hb hgb) (hrest c hc hgc) hnodup.1)
    (fun b hb c hc hgb hgc => ?_) he hf
  -- a task of the group is left, so the group is in the ring
  have hleft : ofGroup (groupKeyFromTask d) (withoutTask d.taskId l) ≠ [] :=
    List.ne_nil_of_mem (mem_ofGroup.2 ⟨hc, hgc⟩)
  rw [served, if_neg hleft, hgc]
  exact idxOf_back (hrest b hb hgb) hnodup.1

/-- **Groups in turns**: a selection hands out the task that is first by its rank in its
group, and then by the turn of the group. -/
theorem turns_drain (hH : H.Lawful) {place : GroupKey → ℕ} (hnd : (taskIds l₀).Nodup) :
    Drains (nextState (builtinPlugins H)) (taskHandedOut (builtinPlugins H)) TaskDesc.taskId
      (turnStanding order (clockValue order.deadline t) place l₀ l₀) (fun i => i.2.isSelect)
      (Drain order t l₀) (ToServe order t place l₀) where
  take := by
    rintro τ ⟨E, op⟩ u s l ⟨⟨⟨hle, hE⟩, hunmoved⟩, -⟩ hselect
      ⟨hagreed, ⟨π, hpolicy, ring, hturns, hsame⟩, rfl, hsub⟩
    obtain rfl : op = .selectNext := by cases op <;> simp_all [Op.isSelect]
    have hP := fun n => builtin_policyInv hH True n
    have hagreed : Agreed (BuiltinInv True) u s := hagreed.mono hP fun _ => hE.within hle
    have hwithin := fun _ : True => hE.within (UInt64.le_refl u)
    have hnext : Agreed (BuiltinInv True) u (nextState (builtinPlugins H) s (E, .selectNext)) :=
      step_agreed hP hwithin hagreed .selectNext
    have hids : (taskIds (waiting s.tasks)).Nodup := hnd.sublist (hsub.map _)
    have hturns := hturns.mono hle
    obtain ⟨hleft, hcase⟩ := schedSelectNext_hands hP hwithin hagreed
      (show s.policy = some ⟨π.1, π.2⟩ from hpolicy) .start
    have hserves := hturns.serves hH hE hnd.of_map hsub .start
    rcases hcase with ⟨hrc, hnil, hnil', hnone⟩ | ⟨d, hd, hrc, hid, hrest, hsome⟩
    · rcases hserves with ⟨-, -, hstill⟩ | ⟨d, -, hok, -⟩
      · rw [hnil] at hstill hsame
        exact Or.inl ⟨hnil, congrArg (Option.map _) hnone, hnext, ⟨_, hleft, ring, hstill, by simp⟩,
          hnil', List.nil_sublist l₀⟩
      · simp [hrc] at hok
    · rcases hserves with ⟨hfail, -⟩ | ⟨d', hd', -, hid', hleast, tail, hfront, hstill⟩
      · simp [hrc] at hfail
      · obtain rfl : d = d' := eq_of_taskId_eq hids hd hd' (hid.symm.trans hid')
        have hmoved : ∀ e ∈ waiting s.tasks, groupKeyFromTask e = groupKeyFromTask d →
            (standing order (clockValue order.deadline t) l₀ d e).isLE := fun e he hkey => by
          rw [← hunmoved d (hsub.subset hd) e (hsub.subset he)]
          exact hleast e he hkey
        refine Or.inr ⟨d, _, perm_cons_withoutTask hids hd, hsome, fun e he => ?_, hnext,
          ⟨_, hleft, _, hstill, fun e he f hf => ?_⟩, hrest, withoutTask_sublist.trans hsub⟩
        · rw [← hsame d hd e he]
          refine inTurns_least hmoved (fun f hf => ?_) he
          rw [hfront, List.idxOf_cons_self]
          exact Nat.zero_le _
        · rw [turnStanding_served hids hd (fun e he => hturns.key_mem he) hfront hturns.nodup_ring
            hmoved he hf]
          exact hsame e (withoutTask_sublist.subset he) f (withoutTask_sublist.subset hf)
  keep := by
    rintro τ ⟨E, op⟩ u s l ⟨⟨⟨hle, hE⟩, -⟩, hop⟩ hselect
      ⟨hagreed, ⟨π, hpolicy, ring, hturns, hsame⟩, rfl, hsub⟩
    have hP := fun n => builtin_policyInv hH True n
    have hwaiting := worker_waiting (P := builtinPlugins H) (E := E) hagreed (by rw [hpolicy]; rfl)
      hop hselect
    have hnext : Agreed (BuiltinInv True) u (step (builtinPlugins H) s E op).sched :=
      step_agreed hP (fun _ => hE.within hle) hagreed op
    have hnone := assignment_of_waiting hagreed.ok hnext.ok hwaiting
    obtain ⟨π', hpolicy', hturns'⟩ := worker_policy (P := builtinPlugins H) (E := E)
      (Q := TakesTurns order u (waiting s.tasks) ring) (fun _ id c h => h.started id c)
      (fun _ id c hid h => h.finished hid .completed c) hagreed.ok
      ⟨π, hpolicy, hturns.mono hle⟩ hop hselect
    exact ⟨congrArg (Option.map _) hnone, hnext, ⟨π', hpolicy', ring, hturns', hsame⟩, hwaiting, hsub⟩

end Drain

/-- **Groups in turns.** After every run, in which allocations may fail and the clock may
run, a worker selects tasks, starts and completes them, as often and in any order, while a
policy is active whose first key are the turns. As long as no boost changes how two of the
waiting tasks compare, it gets the first task of each group by the other keys, then the
second one of each group, and so on, and the groups in their order at the start. -/
theorem groups_drain_in_turns {H : HeapOps} (hH : H.Lawful) (metadata : KvArray)
    {before is : List (Env × Op Builtin)} {t t' t'' : UInt64}
    (hbefore : GoodRun Within 0 before t) (hle : t ≤ t') :
    let s := builtinRun H metadata before
    let l := waiting s.tasks
    ∀ π, s.policy = some π → (settings π).1.keys.head? = some .roundRobin →
      GoodRun (fun τ E u => Calm τ E u ∧ Unmoved (settings π).1 t' l u) t' is t'' →
      (∀ i ∈ is, i.2.ByWorker) →
      (assignments (builtinPlugins H) s is).map Assignment.taskId =
        (taskIds (sortBy (turnStanding (settings π).1 (clockValue (settings π).1.deadline t')
          (turnOf π) l l) l)).take (is.countP fun i => i.2.isSelect) := by
  intro s l π hpolicy hkeys his hworker
  have hP := fun n => builtin_policyInv hH True n
  have hagreed : Agreed (BuiltinInv True) t' s := by
    have hstill : Within t (.still t') t' := ⟨fun _ => hle, fun _ => UInt64.le_refl t'⟩
    exact (builtinRun_fresh hH metadata hbefore).mono hP fun _ => hstill
  have hholds := hagreed.holds
  rw [hpolicy] at hholds
  have hnd : (taskIds l).Nodup := (hP π.1).nodup hholds
  obtain ⟨ring, hturns⟩ := takesTurns_of_inv hholds hkeys
  have hplaces : ∀ d ∈ l, ∀ e ∈ l, compare (turnOf π (groupKeyFromTask d))
      (turnOf π (groupKeyFromTask e)) = compare (ring.idxOf (groupKeyFromTask d))
        (ring.idxOf (groupKeyFromTask e)) := fun d hd e he =>
    hturns.compare_turnOf (hturns.key_mem hd) (hturns.key_mem he)
  have hsame : ∀ d ∈ l, ∀ e ∈ l, turnStanding (settings π).1
      (clockValue (settings π).1.deadline t') ring.idxOf l l d e =
        turnStanding (settings π).1 (clockValue (settings π).1.deadline t') (turnOf π) l l d e := by
    intro d hd e he
    unfold turnStanding inTurns
    rw [hplaces d hd e he]
  rw [assignments_taskIds, taskIds, ← List.map_take]
  refine outputs_drain (turns_drain hH hnd) (timed_drain his hworker)
    ⟨hagreed, ⟨π, hpolicy, ring, hturns, hsame⟩, rfl, List.Sublist.refl l⟩ fun d hd e he heq => ?_
  refine eq_of_inTurns (fun d hd e he h => eq_of_taskId_eq hnd hd he (taskId_eq_of_standing h))
    (fun d hd e he hturn => ?_) hd he heq
  have hcmp := hplaces d hd e he
  rw [hturn, compare_eq_iff_eq.2 rfl] at hcmp
  exact (List.idxOf_inj (hturns.key_mem hd)).1 (compare_eq_iff_eq.1 hcmp.symm)

/-- Two jobs take turns, the tasks of each by priority; the first job has been served. -/
def jobsInTurns : List (Env × Op Builtin) :=
  [(.still 0, .loadPlugin .ordered true),
    (.still 0, .setPolicy .ordered (some [⟨optOrderKey, .u64 5⟩, ⟨optOrderKey, .u64 1⟩,
      ⟨optDeadlineBoostEnable, .u64 1⟩])),
    (.still 0, .submitTask { taskId := 1, jobId := 1, priority := 3 } {}),
    (.still 0, .submitTask { taskId := 2, jobId := 1, priority := 5 } {}),
    (.still 0, .submitTask { taskId := 3, jobId := 2 } {}), (.still 0, .selectNext),
    (.still 0, .submitTask
      { taskId := 4, jobId := 1, deadlineNs := 210, estimatedRuntimeNs := 100 } {}),
    (.still 0, .submitTask { taskId := 5, jobId := 2, priority := 9 } {})]

/-- A worker comes when the fourth task has become urgent. -/
def workerInTurns : List (Env × Op Builtin) :=
  [(.still 120, .selectNext), (.still 120, .taskStarted 5), (.still 130, .selectNext),
    (.still 140, .taskCompleted 5), (.still 140, .selectNext), (.still 150, .selectNext)]

/-- It gets the first task of the second job and of the first one, and then the others. -/
theorem groups_drain_in_turns_jobs :
    (assignments (builtinPlugins binaryHeap) (builtinRun binaryHeap (some []) jobsInTurns)
      workerInTurns).map Assignment.taskId = [5, 4, 3, 1] := by
  have hstill : ∀ i ∈ jobsInTurns, i.1 = Env.still 0 := by simp [jobsInTurns]
  have hbefore : GoodRun Within 0 jobsInTurns 0 := goodRun_of_forall fun i hi => by
    rw [hstill i hi]
    exact ⟨fun _ => UInt64.le_refl 0, fun _ => UInt64.le_refl 0⟩
  have hsome : (builtinRun binaryHeap (some []) jobsInTurns).policy.isSome = true := by
    decide +kernel
  obtain ⟨π, hπ⟩ := Option.isSome_iff_exists.1 hsome
  have horder : (settings π).1 = (builtinRun binaryHeap (some []) jobsInTurns).policy.elim fifoOrder
      fun π => (settings π).1 := by
    rw [hπ]
    rfl
  have hturn : turnOf π = (builtinRun binaryHeap (some []) jobsInTurns).policy.elim (fun _ => 0)
      turnOf := by
    rw [hπ]
    rfl
  have hkeys : (settings π).1.keys.head? = some .roundRobin := by
    rw [horder]
    decide +kernel
  have hrun : GoodRun (fun τ E u => Calm τ E u ∧ Unmoved (settings π).1 120
      (waiting (builtinRun binaryHeap (some []) jobsInTurns).tasks) u) 120 workerInTurns 150 := by
    rw [horder]
    exact ⟨120, ⟨calm_still (by decide) (by decide), by decide +kernel⟩,
      120, ⟨calm_still (by decide) (by decide), by decide +kernel⟩,
      130, ⟨calm_still (by decide) (by decide), by decide +kernel⟩,
      140, ⟨calm_still (by decide) (by decide), by decide +kernel⟩,
      140, ⟨calm_still (by decide) (by decide), by decide +kernel⟩,
      150, ⟨calm_still (by decide) (by decide), by decide +kernel⟩, rfl⟩
  have hworker : ∀ i ∈ workerInTurns, i.2.ByWorker := by simp [workerInTurns, Op.ByWorker]
  have hlater : (0 : UInt64) ≤ 120 := by decide
  rw [groups_drain_in_turns binaryHeap_lawful (some []) hbefore hlater π hπ hkeys hrun hworker,
    horder, hturn]
  decide +kernel

end QhwScheduler
