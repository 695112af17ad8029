import QhwScheduler.Plugins.GroupNumbers
import QhwScheduler.Plugins.ReferenceQueue

/-!
# The policies with groups

The ordered plugin with a round_robin key and the round_robin plugin answer as their
reference policies do, at a steady clock and with memory.

* `RingOk` — the groups of the ordered plugin and a reference ring.
* `ring_submit`, `ring_select`, `ring_priorityChanged`, `ring_finished` — the hooks keep
  them together.
* `OrderedMatches`, `RrMatches` — a policy and its reference.
* `ordered_follows`, `roundRobin_follows` — the two plugins.
-/

namespace QhwScheduler

open Foundations DeadlineQueue

/-- The groups hold the tasks of a reference ring, under its numbers; priorities are
fresh where they matter. -/
structure RingOk (order : OrderConfig) (G : Prop) (t : UInt64) (q : DeadlineQueue OrderedGroups)
    (waiting : List (TaskDesc × ℕ)) (groups : List GroupKey) (next : GroupKey → ℕ) : Prop where
  ok : GroupedOk order (orderConfigUsesCost order) G t q (waiting.map Prod.fst) groups
  number : ∀ e ∈ waiting, (q.mem e.1.taskId).seq = e.2
  next : ∀ key, q.ready.nextSeq key = next key

section Ring

variable {H : HeapOps} {E : Env} {order : OrderConfig} {G : Prop}
  {t : UInt64} {q q' : DeadlineQueue OrderedGroups} {w : List (TaskDesc × ℕ)}
  {groups ring : List GroupKey}
  {next : GroupKey → ℕ} {id : TaskId} {rest : List TaskDesc}

/-- The tasks that stay, with their numbers. -/
theorem map_fst_filter (id : TaskId) (w : List (TaskDesc × ℕ)) :
    (w.filter fun e => e.1.taskId ≠ id).map Prod.fst = withoutTask id (w.map Prod.fst) := by
  rw [withoutTask, List.filter_map]
  rfl

/-- A group without tasks starts with the first number. -/
theorem RingOk.next_absent (hq : RingOk order G t q w groups next) {key : GroupKey}
    (hnil : ofGroup key (w.map Prod.fst) = []) : next key = 1 := by
  have ht := hq.ok.groups.tables
  have hnone : groupMapFind q.ready.groups key = none := by
    rw [← Option.not_isSome_iff_eq_none, ht.live, ht.mem_ring]
    exact not_not.2 hnil
  rw [← hq.next, OrderedGroups.nextSeq, hnone]

/-- A group that is left goes on, any other one starts over. -/
theorem RingOk.next_of_keeps (hq : RingOk order G t q w groups next)
    (hkeeps : KeepsNumbers q.ready q'.ready)
    (ht : GroupTables order (orderConfigUsesCost order) rest ring q'.mem q'.ready) (key : GroupKey) :
    q'.ready.nextSeq key = ReferenceReady.numbersOf rest next key := by
  unfold ReferenceReady.numbersOf
  split
  · next hnil =>
    have hnone : groupMapFind q'.ready.groups key = none := by
      rw [← Option.not_isSome_iff_eq_none, ht.live, ht.mem_ring]
      exact not_not.2 hnil
    rw [OrderedGroups.nextSeq, hnone]
  · next hne =>
    have hsome := (ht.live key).2 ((ht.mem_ring key).2 hne)
    rcases hkeeps key with hnone | hsame
    · rw [hnone] at hsome
      simp at hsome
    · rw [hsame, hq.next]

/-- The tasks that stay keep their numbers. -/
theorem RingOk.number_filter (hq : RingOk order G t q w groups next)
    (hmem : SameNumbers q.mem q'.mem) (p : TaskDesc × ℕ → Bool) :
    ∀ e ∈ w.filter p, (q'.mem e.1.taskId).seq = e.2 :=
  fun e he => (hmem _).trans (hq.number e (List.mem_filter.1 he).1)

/-- Both refuse a task that waits already, or take it in under the next number. -/
theorem ring_submit (hH : H.Lawful) (hE : Steady E t) (n : Builtin) (splitConfig : SplitConfig)
    (hq : RingOk order G t q w groups next) (task : TaskDesc) (c c' : Cursor) :
    let r := orderedSubmitRoundRobin H E order q task c
    let r' := (referencePlugin n).onTaskSubmit E ⟨order, splitConfig, .ring w groups next⟩ task c'
    r.rc = r'.rc ∧ ∃ w' groups' next', r'.state = ⟨order, splitConfig, .ring w' groups' next'⟩ ∧
      RingOk order G t r.state w' groups' next' := by
  have hspec := orderedSubmitRoundRobin_spec hH (E := E) (t := t)
    (fun _ => hE.within (UInt64.le_refl t)) hq.ok task c
  dsimp only [referencePlugin] at hspec ⊢
  split
  · next hin =>
    have hin : task.taskId ∈ taskIds (w.map Prod.fst) := hin
    have hsame : orderedSubmitRoundRobin H E order q task c = ⟨.errExists, q, c⟩ := by
      unfold orderedSubmitRoundRobin
      rw [if_pos ((hq.ok.groups.tables.isSome_iff _).2 hin)]
    rw [hsame]
    exact ⟨rfl, w, groups, next, rfl, hq⟩
  · next hnot =>
    have hnot : task.taskId ∉ taskIds (w.map Prod.fst) := hnot
    rcases hspec with ⟨hrc, -, hok⟩ | ⟨-, -, hmemory⟩
    · obtain ⟨hitem, hothers, hnext, hgroups⟩ := orderedSubmitRoundRobin_numbers q task hrc
      refine ⟨hrc, _, _, _, rfl, ?_, fun e he => ?_, fun key => ?_⟩
      · rw [List.map_append]
        exact hok
      · rcases List.mem_append.1 he with he | he
        · have hne : e.1.taskId ≠ task.taskId := fun h =>
            hnot (h ▸ mem_taskIds_of_mem (List.mem_map_of_mem he))
          rw [hothers _ hne]
          exact hq.number e he
        · rw [List.mem_singleton.1 he]
          exact hitem.trans (hq.next _)
      · by_cases hkey : key = groupKeyFromTask task
        · rw [hkey, Function.update_self, ← hq.next]
          exact hnext
        · rw [Function.update_of_ne hkey, ← hq.next]
          exact hgroups key hkey
    · exact absurd (hmemory hE.alloc).2 hnot

/-- The candidates of a ring are its tasks with the places of their groups. -/
theorem mem_ring_candidates {a : Candidate} :
    a ∈ (ReferenceReady.ring w groups next).candidates ↔
      (a.task, a.number) ∈ w ∧ a.turn = groups.idxOf (groupKeyFromTask a.task) := by
  unfold ReferenceReady.candidates
  rw [List.mem_map]
  constructor
  · rintro ⟨e, he, rfl⟩
    exact ⟨he, rfl⟩
  · rintro ⟨he, hturn⟩
    refine ⟨_, he, ?_⟩
    rw [← hturn]

/-- **The heap of the groups finds the first candidate.** -/
theorem ring_first (hH : H.Lawful) (hE : Steady E t)
    (hconfig : order.deadline.boost.thresholdsRejected = false) (hG : .priority ∈ order.keys → G)
    (hq : RingOk order G t q w groups next) (c : Cursor) {d : TaskDesc} (hd : d ∈ w.map Prod.fst)
    (hleast :
      let m := (refreshExpired H E order.deadline (orderedTouch H order) q c).state
      ∀ e ∈ w.map Prod.fst, (orderCompareGroups order (m.mem d.taskId) (m.mem e.taskId)
        (m.ready.ticket (groupKeyFromTask d)) (m.ready.ticket (groupKeyFromTask e))).isLE) :
    ∃ a, leastBy (Candidate.compare order (clockValue order.deadline t))
      (ReferenceReady.ring w groups next).candidates = some a ∧ a.task = d := by
  have hto := ordered_touches hH order (orderConfigUsesCost order) (w.map Prod.fst) groups
  obtain ⟨-, htr, hgr, hkept⟩ := refreshExpired_spec hH E order.deadline c hto hq.ok.tracked
    hq.ok.groups
  have hcur := fun h => (refreshExpired_current hH hE c hconfig hto hq.ok.tracked hq.ok.groups
    (hq.ok.fresh (hG h))).2
  dsimp only at htr hgr hkept hcur hleast
  generalize (refreshExpired H E order.deadline (orderedTouch H order) q c).state = m
    at htr hgr hkept hcur hleast
  obtain ⟨e, he, rfl⟩ := List.mem_map.1 hd
  have htask : ∀ a ∈ (ReferenceReady.ring w groups next).candidates, a.task ∈ w.map Prod.fst :=
    fun a ha => List.mem_map_of_mem (mem_ring_candidates.1 ha).1
  have hring : ∀ a ∈ (ReferenceReady.ring w groups next).candidates,
      groups[a.turn]? = some (groupKeyFromTask a.task) := by
    intro a ha
    have hin : groupKeyFromTask a.task ∈ groups := by
      rw [hgr.tables.mem_ring]
      exact List.ne_nil_of_mem (mem_ofGroup.2 ⟨htask a ha, rfl⟩)
    rw [(mem_ring_candidates.1 ha).2]
    exact List.getElem?_idxOf hin
  have hnumber : ∀ a ∈ (ReferenceReady.ring w groups next).candidates,
      (m.mem a.task.taskId).seq = a.number := fun a ha =>
    (hkept a.task.taskId).2.2.2.trans (hq.number _ (mem_ring_candidates.1 ha).1)
  have hnd : (taskIds (w.map Prod.fst)).Nodup := hq.ok.tracked.nodup
  refine ⟨⟨e.1, e.2, groups.idxOf (groupKeyFromTask e.1)⟩, leastBy_of_items
    (show Shows order _ m.mem m.ready.ticket _ from ⟨?_, ?_, ?_, ?_⟩) ?_
    (mem_ring_candidates.2 ⟨he, rfl⟩) fun b hb => hleast _ (htask b hb), rfl⟩
  · exact fun h a ha => hcur h _ (htask a ha)
  · exact fun a ha => htr.mirrored.mirrors _ (htask a ha)
  · exact fun _ a ha b hb => by rw [hnumber a ha, hnumber b hb]
  · exact fun _ a ha b hb => compareAsc_positions hgr.tables.tickets (hring a ha) (hring b hb)
  · intro a ha b hb hid
    have hsame : a.task = b.task := eq_of_taskId_eq hnd (htask a ha) (htask b hb) hid
    have hnum : a.number = b.number := by rw [← hnumber a ha, ← hnumber b hb, hsame]
    have hturn : a.turn = b.turn := by
      rw [(mem_ring_candidates.1 ha).2, (mem_ring_candidates.1 hb).2, hsame]
    cases a
    cases b
    simp_all

/-- Both select the first candidate, and its group goes to the end of the ring. -/
theorem ring_select (hH : H.Lawful) (hE : Steady E t) (n : Builtin) (splitConfig : SplitConfig)
    (hconfig : order.deadline.boost.thresholdsRejected = false) (hG : .priority ∈ order.keys → G)
    (hq : RingOk order G t q w groups next) (c c' : Cursor) :
    let r := orderedSelectGroups H E order q c
    let r' := (referencePlugin n).selectNext E ⟨order, splitConfig, .ring w groups next⟩ c'
    r.rc = r'.rc ∧ (r.rc = .ok → r.taskId = r'.taskId) ∧
      ∃ w' groups' next', r'.state = ⟨order, splitConfig, .ring w' groups' next'⟩ ∧
        RingOk order G t r.state w' groups' next' := by
  have hnow : (deadlineNow order.deadline E c').1 = clockValue order.deadline t :=
    deadlineNow_clockValue hE.clock
  obtain ⟨hmem, hkeeps⟩ := orderedSelectGroups_numbers H E order q c
  dsimp only [referencePlugin] at hmem hkeeps ⊢
  rw [hnow]
  rcases orderedSelectGroups_spec hH (E := E) (t := t) (fun _ => hE.within (UInt64.le_refl t)) hq.ok c
    with ⟨hrc, hnil, hok⟩ | ⟨d, hd, hrc, hid, hok, hleast⟩
  · obtain rfl : w = [] := List.map_eq_nil_iff.1 hnil
    refine ⟨hrc, fun h => by simp [hrc] at h, [], groups, next, rfl, hok, by simp, fun key => ?_⟩
    have hempty : ofGroup key (([] : List (TaskDesc × ℕ)).map Prod.fst) = [] := rfl
    rw [hq.next_of_keeps hkeeps hok.groups.tables, ReferenceReady.numbersOf, if_pos hempty,
      hq.next_absent hempty]
  · obtain ⟨a, ha, rfl⟩ := ring_first hH hE hconfig hG hq c hd hleast
    rw [ReferenceState.first, ha]
    refine ⟨hrc, fun _ => hid, _, _, _, rfl, ?_, hq.number_filter hmem _, ?_⟩
    · rw [map_fst_filter]
      exact hok
    · rw [map_fst_filter]
      exact hq.next_of_keeps hkeeps hok.groups.tables

/-- The priority of a task that waits can be changed. -/
theorem ring_reprioritize (hH : H.Lawful) (hE : Steady E t)
    (hconfig : order.deadline.boost.thresholdsRejected = false) (hq : RingOk order G t q w groups next)
    {id : TaskId} (hid : id ∈ taskIds (w.map Prod.fst)) (priority : Int64) (c : Cursor) :
    let r := orderedGroupsPriorityChanged H E order q id priority c
    r.rc = .ok ∧ RingOk order G t r.state
      (w.map fun e => (if e.1.taskId = id then e.1.withPriority priority else e.1, e.2))
      groups next := by
  obtain ⟨hmem, hnext⟩ := orderedGroupsPriorityChanged_numbers H E order q id priority c
  dsimp only at hmem hnext ⊢
  have hfind : orderedFindGroupTask q.ready id = true := hq.ok.groups.tables.findTask_iff.2 hid
  have hto := ordered_touches hH order (orderConfigUsesCost order) (w.map Prod.fst) groups
  obtain ⟨hgroups, hcase⟩ := priorityChanged_spec hH E order.deadline c hto hq.ok.tracked
    hq.ok.groups orderedFindGroupTask hfind hid priority
  have hfresh := fun hG => (priorityChanged_fresh hH (hE.within (UInt64.le_refl t)) c hconfig hto
    hq.ok.tracked hq.ok.groups orderedFindGroupTask hfind hid priority (hq.ok.fresh hG)).2
  rcases hcase with ⟨hrc, htracked⟩ | ⟨-, -, halloc⟩
  · refine ⟨hrc, ?_, ?_, fun key => (hnext key).trans (hq.next key)⟩
    · have hmap : (w.map fun e => (if e.1.taskId = id then e.1.withPriority priority else e.1, e.2)).map
          Prod.fst = reprioritize id priority (w.map Prod.fst) := by
        rw [reprioritize, List.map_map, List.map_map]
        rfl
      rw [hmap]
      exact ⟨htracked, hgroups.reprioritize id priority, hfresh⟩
    · intro e he
      obtain ⟨e', he', rfl⟩ := List.mem_map.1 he
      have hsame : (if e'.1.taskId = id then e'.1.withPriority priority else e'.1).taskId =
          e'.1.taskId := by
        split <;> rfl
      show (_ : ReadyTask).seq = e'.2
      rw [hsame, hmem]
      exact hq.number e' he'
  · exact absurd hE.alloc halloc

/-- Both change the priority of a task that waits, and of no other one. -/
theorem ring_priorityChanged (hH : H.Lawful) (hE : Steady E t) (n : Builtin) (splitConfig : SplitConfig)
    (hn : n.looksUp = true) (hconfig : order.deadline.boost.thresholdsRejected = false)
    (hq : RingOk order G t q w groups next) (id : TaskId) (priority : Int64) (c c' : Cursor) :
    let r := orderedGroupsPriorityChanged H E order q id priority c
    let r' := (referencePlugin n).onTaskPriorityChanged E ⟨order, splitConfig, .ring w groups next⟩
      id priority c'
    r.rc = r'.rc ∧ ∃ w' groups' next', r'.state = ⟨order, splitConfig, .ring w' groups' next'⟩ ∧
      RingOk order G t r.state w' groups' next' := by
  dsimp only [referencePlugin]
  split
  · next hmissing =>
    have hid : id ∉ taskIds (w.map Prod.fst) := hmissing.2
    have hfind : orderedFindGroupTask q.ready id = false := by
      rw [← Bool.not_eq_true, hq.ok.groups.tables.findTask_iff]
      exact hid
    have hsame : orderedGroupsPriorityChanged H E order q id priority c = ⟨.errNotFound, q, c⟩ := by
      simp [orderedGroupsPriorityChanged, priorityChanged, hfind]
    rw [hsame]
    exact ⟨rfl, w, groups, next, rfl, hq⟩
  · next hfound =>
    have hid : id ∈ taskIds (w.map Prod.fst) := by
      by_contra hnot
      exact hfound ⟨hn, hnot⟩
    obtain ⟨hrc, hok⟩ := ring_reprioritize hH hE hconfig hq hid priority c
    exact ⟨hrc, _, _, _, rfl, hok⟩

/-- The groups that are left, in both ways to say it. -/
theorem ring_left {l : List TaskDesc} (hring : ∀ key, key ∈ ring ↔ ofGroup key l ≠ [])
    (h : ring = groups ∨ ∃ key, ring = ringWithout key l groups) :
    ring = groups.filter fun key => ofGroup key l ≠ [] := by
  rcases h with rfl | ⟨key, rfl⟩
  · rw [List.filter_eq_self.2]
    exact fun key hkey => decide_eq_true ((hring key).1 hkey)
  · unfold ringWithout at hring ⊢
    split
    · next hnil =>
      rw [if_pos hnil] at hring
      refine List.filter_congr fun k hk => ?_
      by_cases hkey : k = key
      · rw [hkey]
        simp [hnil]
      · have hleft := (hring k).1 (List.mem_filter.2 ⟨hk, by simpa using hkey⟩)
        simp [hkey, hleft]
    · next hne =>
      rw [if_neg hne] at hring
      rw [List.filter_eq_self.2]
      exact fun key hkey => decide_eq_true ((hring key).1 hkey)

/-- A task leaves both, with its group if it was the last one. -/
theorem ring_finished (hH : H.Lawful) (n : Builtin) (splitConfig : SplitConfig)
    (hq : RingOk order G t q w groups next) (id : TaskId) (state : TaskState) (c c' : Cursor) :
    let r := orderedGroupsFinished H order q id c
    let r' := (referencePlugin n).onTaskFinished E ⟨order, splitConfig, .ring w groups next⟩
      id state c'
    r.rc = r'.rc ∧ ∃ w' groups' next', r'.state = ⟨order, splitConfig, .ring w' groups' next'⟩ ∧
      RingOk order G t r.state w' groups' next' := by
  obtain ⟨hmem, hkeeps⟩ := orderedGroupsFinished_numbers H order q id c
  obtain ⟨hrc, ring', hring, hok⟩ := orderedGroupsFinished_spec hH hq.ok id c
  dsimp only at hmem hkeeps hok ⊢
  refine ⟨hrc, _, _, _, rfl, ?_, hq.number_filter hmem _, ?_⟩
  · rw [map_fst_filter, ← ring_left hok.groups.tables.mem_ring hring]
    exact hok
  · rw [map_fst_filter]
    exact hq.next_of_keeps hkeeps hok.groups.tables

theorem RingOk.mono {τ : UInt64} (hq : RingOk order G τ q w groups next) (hle : G → τ ≤ t) :
    RingOk order G t q w groups next := ⟨hq.ok.mono hle, hq.number, hq.next⟩

end Ring

/-! ## The ordered plugin -/

/-- An ordered policy and the reference policy over the same tasks: with one queue, or
with the groups in a ring. -/
inductive OrderedMatches (t : UInt64) : OrderedState → ReferenceState → Prop where
  | queue {order splitConfig q l} (keys : OrderKey.roundRobin ∉ order.keys)
      (thresholds : order.deadline.boost.thresholdsRejected = false)
      (ok : FlatOk order.deadline (orderCompare order) (orderConfigUsesCost order) True t q l) :
      OrderedMatches t ⟨order, splitConfig, .flat q⟩ ⟨order, splitConfig, .queue l⟩
  | ring {order splitConfig q w groups next} (keys : OrderKey.roundRobin ∈ order.keys)
      (thresholds : order.deadline.boost.thresholdsRejected = false)
      (ok : RingOk order True t q w groups next) :
      OrderedMatches t ⟨order, splitConfig, .grouped q⟩ ⟨order, splitConfig, .ring w groups next⟩

/-- Both refuse the options, or start without tasks. -/
theorem orderedInit_matches {E : Env} {t : UInt64} (hE : Steady E t) (options : KvArray) (c : Cursor) :
    ((orderedInit E options c).outcome = .error .errInvalidArg ∧
        referenceInit .ordered options = none) ∨
      ∃ s r, (orderedInit E options c).outcome = .ok s ∧
        referenceInit .ordered options = some r ∧ OrderedMatches t s r := by
  cases hsplit : splitConfigParseOptions splitConfigInit options with
  | none =>
    exact Or.inl ⟨by simp [orderedInit, hE.alloc, hsplit], by simp [referenceInit, hsplit]⟩
  | some splitConfig =>
    cases horder : orderConfigParseOptions orderConfigInit options with
    | error rc =>
      exact Or.inl ⟨by simp [orderedInit, hE.alloc, hsplit, horder],
        by simp [referenceInit, referenceOrder, horder, Except.toOption]⟩
    | ok order =>
      have hthr := orderConfigParseOptions_thresholds horder
      have hinit : referenceInit .ordered options = some ⟨order, splitConfig, .init order⟩ := by
        simp [referenceInit, referenceOrder, hsplit, horder, Except.toOption]
      by_cases hrr : OrderKey.roundRobin ∈ order.keys
      · have hready : ReferenceReady.init order = .ring [] [] fun _ => 1 := if_pos hrr
        rw [hready] at hinit
        have hok : (orderedInit E options c).outcome = .ok ⟨order, splitConfig, .grouped (freshQueue
            Heap.empty ⟨GroupMap.empty, fun _ => none, Heap.empty, orderConfigUsesCost order, 1⟩)⟩ := by
          simp [orderedInit, deadlineRefreshInit, orderedGroupsInit, groupMapInit, hE.alloc, hsplit,
            horder, orderConfigUsesRoundRobin_iff.2 hrr]
        refine Or.inr ⟨_, _, hok, hinit, .ring hrr hthr ⟨?_, by simp, fun key => ?_⟩⟩
        · have hgroups : orderedGroupsInit E (orderConfigUsesCost order) c = (some ⟨GroupMap.empty,
              fun _ => none, Heap.empty, orderConfigUsesCost order, 1⟩,
              c.alloc.alloc.alloc.alloc.alloc) := by
            simp [orderedGroupsInit, groupMapInit, hE.alloc]
          have hrefresh : deadlineRefreshInit E c = (some Heap.empty, c.alloc) := by
            simp [deadlineRefreshInit, hE.alloc]
          exact groupedOk_nil hgroups hrefresh
        · simp [OrderedGroups.nextSeq, freshQueue]
      · have hready : ReferenceReady.init order = .queue [] := if_neg hrr
        rw [hready] at hinit
        have huses : orderConfigUsesRoundRobin order = false := by
          rw [← Bool.not_eq_true, orderConfigUsesRoundRobin_iff]
          exact hrr
        have hok : (orderedInit E options c).outcome = .ok ⟨order, splitConfig, .flat (freshQueue
            Heap.empty ⟨.heap, orderConfigUsesCost order, [], Heap.empty, ∅, 1⟩)⟩ := by
          simp [orderedInit, deadlineRefreshInit, readyQueueInit, hE.alloc, hsplit, horder, huses]
        refine Or.inr ⟨_, _, hok, hinit, .queue hrr hthr ?_⟩
        have hqueue : readyQueueInit E .heap (orderConfigUsesCost order) c =
            (some ⟨.heap, orderConfigUsesCost order, [], Heap.empty, ∅, 1⟩, c.alloc.alloc) := by
          simp [readyQueueInit, hE.alloc]
        have hrefresh : deadlineRefreshInit E c = (some Heap.empty, c.alloc) := by
          simp [deadlineRefreshInit, hE.alloc]
        exact flatOk_nil hqueue hrefresh

/-- **The ordered plugin follows its reference**, at a steady clock and with memory. -/
theorem ordered_follows {H : HeapOps} (hH : H.Lawful) (t : UInt64) :
    Follows (orderedPlugin H) (referencePlugin .ordered) (fun E => Steady E t)
      (OrderedMatches t) where
  init := by
    intro E options c c' hE
    rcases orderedInit_matches hE options c with ⟨hrc, hnone⟩ | ⟨s, r, hok, hsome, hmatches⟩
    · exact Or.inl ⟨_, hrc, by simp [referencePlugin, hnone]⟩
    · exact Or.inr ⟨s, r, hok, by simp [referencePlugin, hsome], hmatches⟩
  submit := by
    intro E s r task c c' hE h
    cases h with
    | @queue order splitConfig q l keys thresholds ok =>
      have hsubmit := flatSubmit_submits hH (orderCompare_reads order)
        (fun _ => hE.within (UInt64.le_refl t)) ok task c
      obtain ⟨hold, hnew⟩ := flatSubmit_memory hH (orderCompare_reads order) hE.alloc ok task c
      obtain ⟨hrc, l', hr, hs'⟩ := queue_submit (E := E) .ordered order splitConfig hsubmit hold hnew c'
      rw [hr]
      exact ⟨hrc, .queue keys thresholds hs'⟩
    | @ring order splitConfig q w groups next keys thresholds ok =>
      obtain ⟨hrc, w', groups', next', hr, hs'⟩ := ring_submit hH hE .ordered splitConfig
        ok task c c'
      rw [hr]
      exact ⟨hrc, .ring keys thresholds hs'⟩
  select := by
    intro E s r c c' hE h
    cases h with
    | @queue order splitConfig q l keys thresholds ok =>
      obtain ⟨hrc, hid, l', hr, hs'⟩ := queue_select .ordered order splitConfig hE
        (flatSelect_reference hH thresholds keys hE ok c) c'
      rw [hr]
      exact ⟨hrc, hid, .queue keys thresholds hs'⟩
    | @ring order splitConfig q w groups next keys thresholds ok =>
      obtain ⟨hrc, hid, w', groups', next', hr, hs'⟩ := ring_select hH hE .ordered splitConfig
        thresholds (fun _ => trivial) ok c c'
      rw [hr]
      exact ⟨hrc, hid, .ring keys thresholds hs'⟩
  config := by
    intro s r config h
    cases h with
    | queue keys thresholds ok => exact ⟨rfl, rfl, .queue keys thresholds ok⟩
    | ring keys thresholds ok => exact ⟨rfl, rfl, .ring keys thresholds ok⟩
  priorityChanged := by
    intro E s r id priority c c' hE h
    cases h with
    | @queue order splitConfig q l keys thresholds ok =>
      have hchanged := flatPriorityChanged_reprioritizes hH (orderCompare_reads order) thresholds
        (fun _ => hE.within (UInt64.le_refl t)) ok id priority c
      have hcode : (flatPriorityChanged H E order.deadline (orderCompare order) q id priority c).rc =
          if Builtin.ordered.looksUp ∧ id ∉ taskIds l then .errNotFound else .ok := by
        simpa only [Builtin.looksUp, true_and] using
          flatPriorityChanged_rc hH (orderCompare_reads order) thresholds hE ok id priority c
      obtain ⟨hrc, l', hr, hs'⟩ := queue_priorityChanged (E := E) .ordered order splitConfig hchanged
        hcode c'
      rw [hr]
      exact ⟨hrc, .queue keys thresholds hs'⟩
    | @ring order splitConfig q w groups next keys thresholds ok =>
      obtain ⟨hrc, w', groups', next', hr, hs'⟩ := ring_priorityChanged hH hE .ordered
        splitConfig rfl thresholds ok id priority c c'
      rw [hr]
      exact ⟨hrc, .ring keys thresholds hs'⟩
  started := by
    intro E s r id c c' hE h
    exact ⟨rfl, h⟩
  finished := by
    intro E s r id state c c' hE h
    cases h with
    | @queue order splitConfig q l keys thresholds ok =>
      obtain ⟨hrc, l', hr, hs'⟩ := queue_finished (E := E) .ordered order splitConfig
        (flatFinished_finishes hH (orderCompare_reads order) ok id c) state c'
      rw [hr]
      exact ⟨hrc, .queue keys thresholds hs'⟩
    | @ring order splitConfig q w groups next keys thresholds ok =>
      obtain ⟨hrc, w', groups', next', hr, hs'⟩ := ring_finished (E := E) hH .ordered
        splitConfig ok id state c c'
      rw [hr]
      exact ⟨hrc, .ring keys thresholds hs'⟩

/-! ## The round_robin plugin -/

/-- A round_robin policy and the reference policy over the same groups: an ordered policy
has the rotation of the one and the tasks of the other. -/
def RrMatches (s : RrState) (r : ReferenceState) : Prop :=
  ∃ q w groups next, SameRotation s q ∧
    r = ⟨roundRobinFifo, s.splitConfig, .ring w groups next⟩ ∧
    RingOk roundRobinFifo False 0 q w groups next

/-- An ordered policy with the rotation has the tasks of the round_robin policy. -/
theorem SameRotation.tasks_isSome_iff {s : RrState} {q : DeadlineQueue OrderedGroups}
    {w : List (TaskDesc × ℕ)} {groups : List GroupKey} {next : GroupKey → ℕ} (hs : SameRotation s q)
    (hq : RingOk roundRobinFifo False 0 q w groups next) (id : TaskId) :
    (s.tasks id).isSome ↔ id ∈ taskIds (w.map Prod.fst) := by
  obtain ⟨l, r, hrr, hr, hl⟩ := hs
  rw [hrr.tasks_isSome_iff, names_entries hr, ← hl.groups.tables.findTask_iff,
    hq.ok.groups.tables.findTask_iff]

/-- A task that does not wait has no priority to change. -/
theorem reprioritize_absent {w : List (TaskDesc × ℕ)} {id : TaskId}
    (hid : id ∉ taskIds (w.map Prod.fst)) (priority : Int64) :
    (w.map fun e => (if e.1.taskId = id then e.1.withPriority priority else e.1, e.2)) = w := by
  refine (List.map_congr_left fun e he => ?_).trans (List.map_id w)
  have hne : e.1.taskId ≠ id := fun h =>
    hid (h ▸ mem_taskIds_of_mem (List.mem_map_of_mem he))
  rw [if_neg hne]
  rfl

/-- **The round_robin plugin follows its reference**, at a steady clock and with memory. -/
theorem roundRobin_follows {H : HeapOps} (hH : H.Lawful) (t : UInt64) :
    Follows rrPlugin (referencePlugin .roundRobin) (fun E => Steady E t) RrMatches where
  init := by
    intro E options c c' hE
    show (∃ rc, (rrInit E options c).outcome = .error rc ∧ _) ∨
      ∃ s s', (rrInit E options c).outcome = .ok s ∧ _
    cases hsplit : splitConfigParseOptions splitConfigInit options with
    | none =>
      exact Or.inl ⟨.errInvalidArg, by simp [rrInit, hE.alloc, groupMapInit, hsplit],
        by simp [referencePlugin, referenceInit, hsplit]⟩
    | some splitConfig =>
      have hinit : (rrInit E options c).outcome =
          .ok ⟨GroupMap.empty, fun _ => none, [], splitConfig⟩ := by
        simp [rrInit, hE.alloc, groupMapInit, hsplit]
      have hgroups : orderedGroupsInit E (orderConfigUsesCost roundRobinFifo) c = (some
          ⟨GroupMap.empty, fun _ => none, Heap.empty, false, 1⟩, c.alloc.alloc.alloc.alloc.alloc) := by
        simp [orderedGroupsInit, groupMapInit, hE.alloc, orderConfigUsesCost, roundRobinFifo]
      have hrefresh : deadlineRefreshInit E c = (some Heap.empty, c.alloc) := by
        simp [deadlineRefreshInit, hE.alloc]
      have hok : GroupedOk roundRobinFifo false False 0 _ [] [] := groupedOk_nil hgroups hrefresh
      refine Or.inr ⟨_, ⟨roundRobinFifo, splitConfig, .ring [] [] fun _ => 1⟩, hinit, ?_,
        _, [], [], fun _ => 1, ⟨[], ⟨[], []⟩, rrInit_ok hinit, rfl, hok⟩, rfl, hok, by simp,
        fun key => ?_⟩
      · simp [referencePlugin, referenceInit, referenceOrder, hsplit, ReferenceReady.init,
          roundRobinFifo]
      · simp [OrderedGroups.nextSeq, freshQueue]
  submit := by
    rintro E s _ task c c' hE ⟨q, w, groups, next, hs, rfl, hq⟩
    obtain ⟨hrc, hs'⟩ := submit_sameRotation hH hE.alloc hs task c c
    obtain ⟨hrc', w', groups', next', hr, hq'⟩ := ring_submit hH hE .roundRobin s.splitConfig
      (hq.mono False.elim) task c c'
    refine ⟨hrc.trans hrc', _, w', groups', next', hs', ?_, hq'.mono False.elim⟩
    rw [hr]
    exact congrArg (ReferenceState.mk _ · _) (rrOnTaskSubmit_splitConfig E s task c).symm
  select := by
    rintro E s _ c c' hE ⟨q, w, groups, next, hs, rfl, hq⟩
    have hkeys : OrderKey.priority ∈ roundRobinFifo.keys → False := by simp [roundRobinFifo]
    obtain ⟨hrc, hid, hs'⟩ := select_sameRotation hH hs E c c
    obtain ⟨hrc', hid', w', groups', next', hr, hq'⟩ := ring_select hH hE .roundRobin s.splitConfig
      rfl hkeys (hq.mono False.elim) c c'
    refine ⟨hrc.trans hrc', fun hok => (hid hok).trans (hid' (hrc ▸ hok)), _, w', groups', next', hs',
      ?_, hq'.mono False.elim⟩
    rw [hr]
    exact congrArg (ReferenceState.mk _ · _) (rrSelectNext_splitConfig s c).symm
  config := by
    rintro s _ config ⟨q, w, groups, next, hs, rfl, hq⟩
    exact ⟨rfl, rfl, q, w, groups, next, hs, rfl, hq⟩
  priorityChanged := by
    rintro E s _ id priority c c' hE ⟨q, w, groups, next, hs, rfl, hq⟩
    refine ⟨rfl, ?_⟩
    by_cases hid : (s.tasks id).isSome
    · obtain ⟨-, hs'⟩ := priorityChanged_sameRotation hH hE.alloc hs hid priority c
      obtain ⟨-, hq'⟩ := ring_reprioritize hH hE rfl (hq.mono (t := t) False.elim)
        ((hs.tasks_isSome_iff hq id).1 hid) priority c
      exact ⟨_, _, _, _, hs', rfl, hq'.mono False.elim⟩
    · refine ⟨q, w, groups, next, hs, ?_, hq⟩
      have hsame := reprioritize_absent (mt (hs.tasks_isSome_iff hq id).2 hid) priority
      exact congrArg (fun w => (⟨roundRobinFifo, s.splitConfig, .ring w groups next⟩ :
        ReferenceState)) hsame
  started := by
    rintro E s _ id c c' hE ⟨q, w, groups, next, hs, rfl, hq⟩
    exact ⟨rfl, q, w, groups, next, hs, rfl, hq⟩
  finished := by
    rintro E s _ id state c c' hE ⟨q, w, groups, next, hs, rfl, hq⟩
    obtain ⟨hrc, hs'⟩ := finished_sameRotation hH hs id c c
    obtain ⟨hrc', w', groups', next', hr, hq'⟩ := ring_finished (E := E) hH .roundRobin
      s.splitConfig hq id state c c'
    refine ⟨hrc.trans hrc', _, w', groups', next', hs', ?_, hq'⟩
    rw [hr]
    exact congrArg (ReferenceState.mk _ · _) (rrOnTaskFinished_splitConfig s id c).symm

end QhwScheduler
