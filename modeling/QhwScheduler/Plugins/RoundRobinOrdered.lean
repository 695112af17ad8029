import QhwScheduler.Core.Lockstep
import QhwScheduler.Foundations.BinaryHeap
import QhwScheduler.Plugins.Builtin

/-!
# The round_robin plugin as an ordered plugin

With the keys round_robin and fifo the ordered plugin is the round_robin plugin, as
long as there is memory.

* `SameSlicing` — the options of the two; `orderedInit_sameSlicing` — what the ordered
  plugin makes of them.
* `SameRotation` — the same tasks, and the same order of the groups.
* `orderedSelectGroups_next` — the heap of the groups finds the next entry of the rotation.
* `rotation_lockstep` — the hooks do the same.
* `round_robin_is_ordered` — no run of a scheduler can tell them apart.
-/

namespace QhwScheduler

open Foundations DeadlineQueue

/-! ## The options -/

/-- The options of a round_robin policy, and those of an ordered policy that has the same
slicing options, the keys round_robin and fifo, and no deadline options. -/
structure SameSlicing (options options' : List Kv) : Prop where
  slicing : options'.filter (isSplitOption ·.key) = options.filter (isSplitOption ·.key)
  keys : options'.filter (·.key = optOrderKey) = [⟨optOrderKey, .u64 5⟩, ⟨optOrderKey, .u64 4⟩]
  deadline : ∀ kv ∈ options', isDeadlineBoostOption kv.key = false

/-- The keys round_robin and fifo, and no boosts. -/
def roundRobinFifo : OrderConfig := ⟨[.roundRobin, .fifo], {}⟩

section Parse

variable {options options' kvs : List Kv}

/-- The slicing options are read, and no others. -/
theorem splitConfigParseOptions_slicing (config : SplitConfig) (kvs : List Kv) :
    splitConfigParseOptions config (some kvs) =
      (kvs.filter (isSplitOption ·.key)).foldlM splitConfigParseOption config := by
  rw [List.foldlM_filter]
  show kvs.foldlM splitConfigParseOption config = _
  congr 1
  funext config kv
  unfold splitConfigParseOption
  by_cases hkey : isSplitOption kv.key
  · rw [if_pos hkey]
  · rw [if_neg hkey]
    simp [hkey]

/-- Without deadline options the boosts are what they were. -/
theorem deadlineBoostParse_noDeadline (config : BoostConfig)
    (hkvs : ∀ kv ∈ kvs, isDeadlineBoostOption kv.key = false) :
    kvs.foldlM deadlineBoostParseOption config = some config := by
  induction kvs with
  | nil => rfl
  | cons kv rest ih =>
    have hkv : deadlineBoostParseOption config kv = some config := by
      simp [deadlineBoostParseOption, hkvs kv List.mem_cons_self]
    rw [List.foldlM_cons, hkv]
    exact ih fun k hk => hkvs k (List.mem_cons_of_mem kv hk)

/-- Without deadline options the loop reads the key options only. -/
theorem orderConfigParseLoop_noDeadline (config : OrderConfig) (sawOrderKey : Bool)
    (hkvs : ∀ kv ∈ kvs, isDeadlineBoostOption kv.key = false) :
    orderConfigParseLoop config sawOrderKey kvs =
      orderConfigParseLoop config sawOrderKey (kvs.filter (·.key = optOrderKey)) := by
  induction kvs generalizing config sawOrderKey with
  | nil => rfl
  | cons kv rest ih =>
    have hrest : ∀ k ∈ rest, isDeadlineBoostOption k.key = false :=
      fun k hk => hkvs k (List.mem_cons_of_mem kv hk)
    have hnow : kv.key ≠ optDeadlineNowNs := by
      intro hkey
      have hkv := hkvs kv List.mem_cons_self
      rw [hkey] at hkv
      simp [isDeadlineBoostOption] at hkv
    by_cases hkey : kv.key = optOrderKey
    · rw [List.filter_cons_of_pos (by simpa using hkey)]
      unfold orderConfigParseLoop
      rw [if_pos hkey, if_pos hkey]
      cases parseOrderKey (if sawOrderKey then config else { config with keys := [] }) kv with
      | error rc => rfl
      | ok config' => exact ih config' true hrest
    · rw [List.filter_cons_of_neg (by simpa using hkey), ← ih config sawOrderKey hrest]
      conv_lhs => unfold orderConfigParseLoop
      rw [if_neg hkey, if_neg hnow]

theorem SameSlicing.splitConfig (h : SameSlicing options options') :
    splitConfigParseOptions splitConfigInit (some options') =
      splitConfigParseOptions splitConfigInit (some options) := by
  rw [splitConfigParseOptions_slicing, splitConfigParseOptions_slicing, h.slicing]

theorem SameSlicing.order (h : SameSlicing options options') :
    orderConfigParseOptions orderConfigInit (some options') = .ok roundRobinFifo := by
  have hboost : deadlineBoostConfigParseOptions orderConfigInit.deadline.boost (some options') =
      some deadlineBoostConfigInit := by
    unfold deadlineBoostConfigParseOptions
    dsimp only
    rw [deadlineBoostParse_noDeadline _ h.deadline]
    rfl
  unfold orderConfigParseOptions
  dsimp only
  rw [hboost]
  dsimp only
  rw [orderConfigParseLoop_noDeadline _ _ h.deadline, h.keys]
  rfl

end Parse

/-! ## The rotation -/

/-- The groups of an ordered policy hold the tasks of a round_robin policy, and their
tickets put them in the order of its ring. -/
def SameRotation (s : RrState) (queue : DeadlineQueue OrderedGroups) : Prop :=
  ∃ l r, RrOk s r ∧ r.waiting = entries l ∧
    GroupedOk roundRobinFifo false False 0 queue l r.ring

section Ring

variable {l : List TaskDesc} {r : Rotation TaskId GroupKey} {ring : List GroupKey} {d : TaskDesc}
  {key : GroupKey} {id : TaskId}

theorem mem_groups_entries : key ∈ (entries l).map Prod.snd ↔ ofGroup key l ≠ [] := by
  rw [List.mem_map]
  constructor
  · rintro ⟨⟨x, k⟩, hx, rfl⟩
    obtain ⟨d, hd, -, hk⟩ := mem_entries.1 hx
    exact List.ne_nil_of_mem (mem_ofGroup.2 ⟨hd, hk⟩)
  · intro hne
    obtain ⟨d, hd⟩ := List.exists_mem_of_ne_nil _ hne
    obtain ⟨hd, hk⟩ := mem_ofGroup.1 hd
    exact ⟨_, mem_entries.2 ⟨d, hd, rfl, hk⟩, rfl⟩

/-- The front of the ring with its first task. -/
theorem next_entries (hr : r.waiting = entries l) {e : TaskId × GroupKey} (hnext : r.next = some e) :
    ∃ d rest, ofGroup e.2 l = d :: rest ∧ d.taskId = e.1 ∧ r.ring = e.2 :: r.ring.tail := by
  obtain ⟨-, hring⟩ := Rotation.next_mem hnext
  unfold Rotation.next at hnext
  rw [hring] at hnext
  dsimp only at hnext
  rw [hr, entries, List.find?_map, Option.map_eq_some_iff] at hnext
  obtain ⟨d, hd, rfl⟩ := hnext
  have hgroup : (ofGroup (groupKeyFromTask d) l).head? = some d := by
    rw [ofGroup, List.head?_filter]
    exact hd
  obtain ⟨rest, hrest⟩ := List.head?_eq_some_iff.1 hgroup
  exact ⟨d, rest, hrest, rfl, hring⟩

/-- A served group goes to the back of the ring, or away. -/
theorem serve_ring (hr : r.waiting = entries l) (hok : r.Ok) (hring : r.ring = key :: r.ring.tail) :
    (r.serve (id, key)).ring = ringServed key (withoutTask id l) r.ring := by
  have hnd := hok.nodup
  rw [hring, List.nodup_cons] at hnd
  have htail : r.ring.filter (· ≠ key) = r.ring.tail := by
    rw [hring, List.filter_cons_of_neg (by simp), List.tail_cons, List.filter_eq_self]
    intro k hk
    have hne : k ≠ key := fun h => hnd.1 (h ▸ hk)
    simpa using hne
  show r.ring.tail ++ (if key ∈ (r.without id).map Prod.snd then [key] else []) = _
  rw [ringServed, htail, entries_withoutTask hr]
  congr 1
  by_cases hnil : ofGroup key (withoutTask id l) = []
  · rw [if_pos hnil, if_neg fun h => mem_groups_entries.1 h hnil]
  · rw [if_neg hnil, if_pos (mem_groups_entries.2 hnil)]

/-- A ring without the groups that lost their last task. -/
theorem leave_ring_eq (hr : r.waiting = entries l) {ring' : List GroupKey}
    (hmem : ∀ k, k ∈ ring' ↔ ofGroup k (withoutTask id l) ≠ [])
    (hring : ring' = r.ring ∨ ∃ key, ring' = ringWithout key (withoutTask id l) r.ring) :
    ring' = (r.leave id).ring := by
  show ring' = r.ring.filter (· ∈ (r.without id).map Prod.snd)
  rw [entries_withoutTask hr]
  have hfilter : r.ring.filter (· ∈ (entries (withoutTask id l)).map Prod.snd) =
      r.ring.filter (· ∈ ring') :=
    List.filter_congr fun k _ => by rw [decide_eq_decide, mem_groups_entries, hmem]
  have hself : r.ring.filter (· ∈ r.ring) = r.ring :=
    List.filter_eq_self.2 fun k hk => decide_eq_true hk
  rw [hfilter]
  rcases hring with rfl | ⟨key, hkey⟩
  · exact hself.symm
  · unfold ringWithout at hkey
    split at hkey
    · rw [hkey]
      refine List.filter_congr fun k hk => ?_
      simp [hk]
    · rw [hkey, hself]

end Ring

/-! ## The hooks -/

section Hooks

variable {H : HeapOps} {E : Env} {s : RrState} {q : DeadlineQueue OrderedGroups} {c c' : Cursor}
  {l : List TaskDesc} {r : Rotation TaskId GroupKey} {id : TaskId}

/-- Among the heads of the groups the front of the ring has the first ticket, and in each
group the first task has the first number. -/
theorem least_is_next {mem : Memory} {g : OrderedGroups}
    (ht : GroupTables roundRobinFifo false l r.ring mem g) (hr : r.waiting = entries l)
    {e : TaskId × GroupKey} (hnext : r.next = some e) {d : TaskDesc} (hd : d ∈ l)
    (hleast : ∀ d' ∈ l, (orderCompareGroups roundRobinFifo (mem d.taskId)
      (mem d'.taskId) (g.ticket (groupKeyFromTask d)) (g.ticket (groupKeyFromTask d'))).isLE) :
    (d.taskId, groupKeyFromTask d) = e := by
  obtain ⟨first, rest, hgroup, hid, hring⟩ := next_entries hr hnext
  have hfirst : first ∈ l ∧ groupKeyFromTask first = e.2 := by
    rw [← mem_ofGroup, hgroup]
    exact List.mem_cons_self
  have hle := hleast first hfirst.1
  have hkey : groupKeyFromTask d = e.2 := by
    by_contra hne
    have hin : groupKeyFromTask d ∈ r.ring :=
      (ht.mem_ring _).2 (List.ne_nil_of_mem (mem_ofGroup.2 ⟨hd, rfl⟩))
    have htickets := ht.tickets
    rw [hring, List.pairwise_cons] at htickets
    rw [hring] at hin
    have hlt := htickets.1 _ ((List.mem_cons.1 hin).resolve_left hne)
    rw [hfirst.2] at hle
    have hgt : OrderKey.roundRobin.compare ⟨mem d.taskId, g.ticket (groupKeyFromTask d)⟩
        ⟨mem first.taskId, g.ticket e.2⟩ = .gt := by
      simp only [OrderKey.compare, compareAsc_nat]
      exact Nat.compare_eq_gt.2 hlt
    simp [orderCompareGroups, roundRobinFifo, orderCompareLoop, hgt] at hle
  have hsame : d = first := by
    by_contra hne
    have hin : d ∈ rest := by
      have hmem : d ∈ ofGroup e.2 l := mem_ofGroup.2 ⟨hd, hkey⟩
      rw [hgroup] at hmem
      exact (List.mem_cons.1 hmem).resolve_left hne
    obtain ⟨group, hfind⟩ := ht.find_of_entry (mem_entries.2 ⟨d, hd, rfl, hkey⟩)
    have hgrowing := (ht.ready _ group hfind).numbered.growing
    rw [hgroup, List.pairwise_cons] at hgrowing
    have hlt := hgrowing.1 d hin
    rw [hkey, hfirst.2] at hle
    have heq : OrderKey.roundRobin.compare ⟨mem d.taskId, g.ticket e.2⟩
        ⟨mem first.taskId, g.ticket e.2⟩ = .eq := by
      simp [OrderKey.compare, compareAsc]
    have hgt : OrderKey.fifo.compare ⟨mem d.taskId, g.ticket e.2⟩
        ⟨mem first.taskId, g.ticket e.2⟩ = .gt := by
      simp only [OrderKey.compare, compareAsc_nat]
      exact Nat.compare_eq_gt.2 hlt
    simp [orderCompareGroups, roundRobinFifo, orderCompareLoop, heq, hgt] at hle
  rw [hkey, hsame, hid]

/-- **The heap of the groups finds the next entry of the rotation.** -/
theorem orderedSelectGroups_next (hH : H.Lawful) (hok : r.Ok) (hr : r.waiting = entries l)
    (hq : GroupedOk roundRobinFifo false False 0 q l r.ring) (E : Env) (c : Cursor) :
    let h := orderedSelectGroups H E roundRobinFifo q c
    (h.rc = .errNotFound ∧ r.next = none ∧
        GroupedOk roundRobinFifo false False 0 h.state l r.ring) ∨
      ∃ e, r.next = some e ∧ h.rc = .ok ∧ h.taskId = e.1 ∧
        GroupedOk roundRobinFifo false False 0 h.state (withoutTask e.1 l) (r.serve e).ring := by
  have hE : False → Within 0 E 0 := False.elim
  obtain ⟨-, htracked, hgroups, -⟩ := refreshExpired_spec hH E roundRobinFifo.deadline c
    (ordered_touches hH roundRobinFifo false l r.ring) hq.tracked hq.groups
  rcases orderedSelectGroups_spec hH hE hq c with ⟨hrc, hnil, h⟩ | ⟨d, hd, hrc, hid, h, hleast⟩
  · exact Or.inl ⟨hrc, hok.next_eq_none_iff.2 (by rw [hr, hnil]; rfl), h⟩
  · have hne : r.waiting ≠ [] := by
      rw [hr]
      exact List.ne_nil_of_mem (mem_entries.2 ⟨d, hd, rfl, rfl⟩)
    obtain ⟨e, hnext⟩ := Option.ne_none_iff_exists'.1 fun hnone => hne (hok.next_eq_none_iff.1 hnone)
    obtain rfl := least_is_next hgroups.tables hr hnext hd hleast
    refine Or.inr ⟨_, hnext, hrc, hid, ?_⟩
    rw [serve_ring hr hok (Rotation.next_mem hnext).2]
    exact h

theorem rrGroupGet_splitConfig (E : Env) (s : RrState) (key : GroupKey) (c : Cursor) :
    (rrGroupGet E s key c).2.1.splitConfig = s.splitConfig := by
  unfold rrGroupGet rrGroupCreate
  split
  · rfl
  · split
    · rfl
    · split <;> rfl

theorem rrOnTaskSubmit_splitConfig (E : Env) (s : RrState) (task : TaskDesc) (c : Cursor) :
    (rrOnTaskSubmit E s task c).state.splitConfig = s.splitConfig := by
  have hget := rrGroupGet_splitConfig E s (groupKeyFromTask task) c
  unfold rrOnTaskSubmit
  dsimp only
  split
  · rfl
  · generalize rrGroupGet E s (groupKeyFromTask task) c = got at hget ⊢
    obtain ⟨group, s', c'⟩ := got
    cases group with
    | none => exact hget
    | some group =>
      dsimp only at hget ⊢
      have hback : (if group.readyCount = 0 then rrGroupFree s' (groupKeyFromTask task)
          else s').splitConfig = s.splitConfig := by
        split <;> exact hget
      split
      · exact hback
      · split
        · exact hback
        · exact hget

theorem rrSelectNext_splitConfig (s : RrState) (c : Cursor) :
    (rrSelectNext s c).state.splitConfig = s.splitConfig := by
  unfold rrSelectNext
  split
  · rfl
  · dsimp only
    split
    · rfl
    · split
      · rfl
      · split
        · rfl
        · split
          · rfl
          · split <;> rfl

theorem rrOnTaskFinished_splitConfig (s : RrState) (id : TaskId) (c : Cursor) :
    (rrOnTaskFinished s id c).state.splitConfig = s.splitConfig := by
  show (rrRemoveReadyTask s id).2.splitConfig = s.splitConfig
  unfold rrRemoveReadyTask
  split
  · rfl
  · split
    · rfl
    · split
      · rfl
      · dsimp only
        split <;> rfl

/-- A round_robin policy and the ordered policy with the same rotation. -/
def RotationAsOrdered (π π' : Sigma BuiltinState) : Prop :=
  ∃ (s : RrState) (q : DeadlineQueue OrderedGroups), π = ⟨.roundRobin, s⟩ ∧
    π' = ⟨.ordered, (⟨roundRobinFifo, s.splitConfig, .grouped q⟩ : OrderedState)⟩ ∧
    SameRotation s q

/-- The round_robin plugin has the task in its table. -/
def InRotation : Sigma BuiltinState → TaskId → Prop
  | ⟨.roundRobin, s⟩, id => (RrState.tasks s id).isSome
  | ⟨.fifo, _⟩, _ => True
  | ⟨.priority, _⟩, _ => True
  | ⟨.ordered, _⟩, _ => True

/-- Both refuse a task, which they hold already, or take it in. -/
theorem submit_sameRotation (hH : H.Lawful) (hE : ∀ n, E.alloc n = true) (hs : SameRotation s q)
    (task : TaskDesc) (c c' : Cursor) :
    let h := rrOnTaskSubmit E s task c
    let h' := orderedSubmitRoundRobin H E roundRobinFifo q task c'
    h.rc = h'.rc ∧ SameRotation h.state h'.state := by
  obtain ⟨l, r, hrr, hr, hq⟩ := hs
  have hin : False → Within 0 E 0 := False.elim
  rcases rrOnTaskSubmit_spec hrr task c with ⟨hrc, hnew, h⟩ | ⟨-, h, halloc⟩
  · rcases orderedSubmitRoundRobin_spec hH hin hq task c' with ⟨hrc', -, h'⟩ | ⟨-, -, halloc'⟩
    · exact ⟨hrc.trans hrc'.symm, l ++ [task], _, h, by rw [entries_append, ← hr]; rfl, h'⟩
    · rw [names_entries hr] at hnew
      exact absurd (halloc' hE).2 hnew
  · obtain ⟨hrc, hold⟩ := halloc hE
    rw [names_entries hr] at hold
    rcases orderedSubmitRoundRobin_spec hH hin hq task c' with ⟨-, hnew, -⟩ | ⟨-, h', halloc'⟩
    · exact absurd hold hnew
    · exact ⟨hrc.trans (halloc' hE).1.symm, l, r, h, hr, h'⟩

/-- Both take the next entry of the rotation. -/
theorem select_sameRotation (hH : H.Lawful) (hs : SameRotation s q) (E : Env) (c c' : Cursor) :
    let h := rrSelectNext s c
    let h' := orderedSelectGroups H E roundRobinFifo q c'
    h.rc = h'.rc ∧ (h.rc = .ok → h.taskId = h'.taskId) ∧ SameRotation h.state h'.state := by
  obtain ⟨l, r, hrr, hr, hq⟩ := hs
  rcases rrSelectNext_spec hrr c with ⟨hrc, hnone, h⟩ | ⟨e, hnext, hrc, hid, h⟩
  · rcases orderedSelectGroups_next hH hrr.rotation hr hq E c' with ⟨hrc', -, h'⟩ | ⟨e', hnext', -⟩
    · exact ⟨hrc.trans hrc'.symm, fun hok => by simp [hrc] at hok, l, r, h, hr, h'⟩
    · simp [hnone] at hnext'
  · rcases orderedSelectGroups_next hH hrr.rotation hr hq E c' with
      ⟨-, hnone, -⟩ | ⟨e', hnext', hrc', hid', h'⟩
    · simp [hnone] at hnext
    · obtain rfl := Option.some.inj (hnext.symm.trans hnext')
      exact ⟨hrc.trans hrc'.symm, fun _ => hid.trans hid'.symm, _, _, h,
        (entries_withoutTask hr e.1).symm ▸ rfl, h'⟩

/-- The priority of a task that waits is changed by both, and seen by none. -/
theorem priorityChanged_sameRotation (hH : H.Lawful) (hE : ∀ n, E.alloc n = true)
    (hs : SameRotation s q) (hid : (s.tasks id).isSome) (priority : Int64) (c : Cursor) :
    let h := orderedGroupsPriorityChanged H E roundRobinFifo q id priority c
    h.rc = .ok ∧ SameRotation s h.state := by
  obtain ⟨l, r, hrr, hr, hq⟩ := hs
  rw [hrr.tasks_isSome_iff, names_entries hr] at hid
  have hfind : orderedFindGroupTask q.ready id = true := hq.groups.tables.findTask_iff.2 hid
  obtain ⟨hgroups, hcase⟩ := priorityChanged_spec hH E roundRobinFifo.deadline c
    (ordered_touches hH roundRobinFifo false l r.ring) hq.tracked hq.groups orderedFindGroupTask
    hfind hid priority
  rcases hcase with ⟨hrc, htracked⟩ | ⟨-, -, halloc⟩
  · refine ⟨hrc, reprioritize id priority l, r, hrr, by rw [hr, entries_reprioritize], htracked,
      hgroups.reprioritize id priority, False.elim⟩
  · exact absurd hE halloc

/-- A task leaves both, with its group if it was the last one. -/
theorem finished_sameRotation (hH : H.Lawful) (hs : SameRotation s q) (id : TaskId) (c c' : Cursor) :
    let h := rrOnTaskFinished s id c
    let h' := orderedGroupsFinished H roundRobinFifo q id c'
    h.rc = h'.rc ∧ SameRotation h.state h'.state := by
  obtain ⟨l, r, hrr, hr, hq⟩ := hs
  obtain ⟨hrc, h⟩ := rrOnTaskFinished_spec hrr id c
  obtain ⟨hrc', ring', hring, h'⟩ := orderedGroupsFinished_spec hH hq id c'
  rw [leave_ring_eq hr h'.groups.tables.mem_ring hring] at h'
  exact ⟨hrc.trans hrc'.symm, withoutTask id l, _, h, (entries_withoutTask hr id).symm ▸ rfl, h'⟩

/-- **The two policies answer alike** as long as there is memory. -/
theorem rotation_lockstep (hH : H.Lawful) :
    Lockstep (builtinPlugins H) (fun E => ∀ n, E.alloc n = true) (fun _ _ => True)
      RotationAsOrdered InRotation where
  paces hE := ⟨trivial, fun _ => by rw [hE, hE], fun _ => trivial⟩
  submit := by
    rintro E π π' c c' task hE ⟨s, q, rfl, rfl, hs⟩ -
    obtain ⟨hrc, hs'⟩ := submit_sameRotation hH hE hs task c c'
    exact ⟨hrc, ⟨_, _, rfl, by rw [← rrOnTaskSubmit_splitConfig E s task c]; rfl, hs'⟩, trivial⟩
  select := by
    rintro E π π' c c' - ⟨s, q, rfl, rfl, hs⟩ -
    obtain ⟨hrc, hid, hs'⟩ := select_sameRotation hH hs E c c'
    exact ⟨hrc, hid, _, _, rfl, by rw [← rrSelectNext_splitConfig s c]; rfl, hs'⟩
  config := by
    rintro π π' config ⟨s, q, rfl, rfl, hs⟩
    exact ⟨rfl, rfl, s, q, rfl, rfl, hs⟩
  priorityChanged := by
    rintro E π π' c c' id priority hE ⟨s, q, rfl, rfl, hs⟩ hid -
    obtain ⟨hrc, hs'⟩ := priorityChanged_sameRotation hH hE hs hid priority c'
    exact ⟨hrc.symm, ⟨s, _, rfl, rfl, hs'⟩, trivial⟩
  started := by
    rintro E π π' c c' id - ⟨s, q, rfl, rfl, hs⟩ -
    exact ⟨rfl, ⟨s, q, rfl, rfl, hs⟩, trivial⟩
  finished := by
    rintro E π π' c c' id state - ⟨s, q, rfl, rfl, hs⟩ -
    obtain ⟨hrc, hs'⟩ := finished_sameRotation hH hs id c c'
    exact ⟨hrc, ⟨_, _, rfl, by rw [← rrOnTaskFinished_splitConfig s id c]; rfl, hs'⟩, trivial⟩

end Hooks

/-! ## Runs -/

/-- With memory both refuse the same slicing options, or start out without tasks. -/
theorem inits_sameRotation {options options' : List Kv} (h : SameSlicing options options') {E : Env}
    (hE : ∀ n, E.alloc n = true) :
    @InitsAgree Builtin BuiltinState (fun _ _ => True) RotationAsOrdered .roundRobin .ordered
      (rrInit E (some options) .start) (orderedInit E (some options') .start) := by
  unfold orderedInit
  rw [h.splitConfig, h.order]
  cases hsplit : splitConfigParseOptions splitConfigInit (some options) with
  | none =>
    refine Or.inl ⟨.errInvalidArg, ?_, ?_⟩
    · simp [rrInit, hE, groupMapInit, hsplit]
      rfl
    · simp [hE]
      rfl
  | some splitConfig =>
    have hinit : (rrInit E (some options) .start).outcome =
        .ok ⟨GroupMap.empty, fun _ => none, [], splitConfig⟩ := by
      simp [rrInit, hE, groupMapInit, hsplit]
    have hrefresh : deadlineRefreshInit E Cursor.start.alloc =
        (some Heap.empty, Cursor.start.alloc.alloc) := by
      simp [deadlineRefreshInit, hE]
    obtain ⟨c, hgroups⟩ : ∃ c, orderedGroupsInit E (orderConfigUsesCost roundRobinFifo)
        Cursor.start.alloc.alloc = (some ⟨GroupMap.empty, fun _ => none, Heap.empty, false, 1⟩, c) := by
      simp [orderedGroupsInit, groupMapInit, hE, orderConfigUsesCost, roundRobinFifo]
    refine Or.inr ⟨_, _, hinit, ?_, ⟨_, _, rfl, rfl, [], ⟨[], []⟩, rrInit_ok hinit, rfl,
      groupedOk_nil hgroups hrefresh⟩, trivial⟩
    simp only [hE, Bool.not_true, Bool.false_eq_true, if_false, hrefresh, hgroups]
    rfl

/-- The round_robin plugin has every queued task in its table. -/
theorem Agreed.inRotation {s : Sched BuiltinState} (h : Agreed (BuiltinInv False) 0 s) :
    Holding InRotation s := by
  rintro ⟨name, state⟩ hpolicy id record hrecord hqueued
  have hholds := h.holds
  rw [hpolicy] at hholds
  cases name with
  | roundRobin =>
    obtain ⟨r, hrr, hr⟩ : RrInv state (waiting s.tasks) := hholds
    refine (hrr.tasks_isSome_iff id).2 ?_
    rw [names_entries hr, h.ok.mem_taskIds_waiting]
    exact ⟨record, hrecord, hqueued⟩
  | _ => trivial

/-- **With the keys round_robin and fifo the ordered plugin is the round_robin plugin.**
Set with the same slicing options and no deadline options on any scheduler, with any tasks
in its table, they give the same code; and from then on every run of operations returns
the same codes and assignments, as long as no allocation fails. -/
theorem round_robin_is_ordered {H : HeapOps} (hH : H.Lawful) (metadata : KvArray)
    (before : List (Env × Op Builtin)) {options options' : List Kv}
    (hoptions : SameSlicing options options') {E : Env} (hE : ∀ n, E.alloc n = true)
    {is : List (Env × Op Builtin)} (his : ∀ i ∈ is, ∀ n, i.1.alloc n = true) :
    let P := builtinPlugins H
    let s := builtinRun H metadata before
    let r := step P s E (.setPolicy .roundRobin (some options))
    let r' := step P s E (.setPolicy .ordered (some options'))
    Builtin.roundRobin ∈ s.plugins.items → Builtin.ordered ∈ s.plugins.items →
      r.rc = r'.rc ∧ replies P r.sched is = replies P r'.sched is := by
  intro P s r r' hrr hordered
  have hset := setPolicy_agree (rotation_lockstep hH) hE hrr hordered (inits_sameRotation hoptions hE)
  have hP := builtin_policyInv hH False
  have hgood : ∀ E, False → Within 0 E 0 := fun _ => False.elim
  have hagreed : Agreed (BuiltinInv False) 0 r.sched :=
    step_agreed hP (hgood E) (builtinRun_agreed hH metadata before) _
  exact ⟨hset.rc, replies_twins (rotation_lockstep hH) (Agreed (BuiltinInv False) 0)
    (fun _ h => h.inRotation) (fun _ i _ h => step_agreed hP (hgood i.1) h i.2) hagreed hset.sched his⟩

/-- Both plugins are loaded, and two tasks of a job and one of another are queued. -/
def bothJobs : List (Env × Op Builtin) :=
  [(.still 0, .loadPlugin .roundRobin true), (.still 0, .loadPlugin .ordered true),
    (.still 0, .submitTask { taskId := 1, jobId := 1 } {}),
    (.still 0, .submitTask { taskId := 2, jobId := 1 } {}),
    (.still 0, .submitTask { taskId := 3, jobId := 2 } {})]

/-- A task is cancelled, so that its group leaves and comes back behind the other one. -/
def jobReturns : List (Env × Op Builtin) :=
  [(.still 0, .selectNext), (.still 0, .taskCancelled 2),
    (.still 0, .submitTask { taskId := 4, jobId := 1, priority := 9 } {}),
    (.still 0, .selectNext), (.still 0, .selectNext)]

/-- The tasks are taken in turns of the two jobs. -/
theorem round_robin_is_ordered_jobReturns :
    let P := builtinPlugins binaryHeap
    let s := builtinRun binaryHeap (some []) bothJobs
    let r := step P s (.still 0) (.setPolicy .roundRobin (some []))
    let r' := step P s (.still 0)
      (.setPolicy .ordered (some [⟨optOrderKey, .u64 5⟩, ⟨optOrderKey, .u64 4⟩]))
    r.rc = .ok ∧ ((replies P r.sched jobReturns).filterMap fun reply =>
        reply.2.map Assignment.taskId) = [1, 3, 4] ∧
      replies P r.sched jobReturns = replies P r'.sched jobReturns := by
  intro P s r r'
  have hoptions : SameSlicing [] [⟨optOrderKey, .u64 5⟩, ⟨optOrderKey, .u64 4⟩] :=
    ⟨by decide, by decide, by decide⟩
  have hstill : ∀ i ∈ jobReturns, ∀ n, i.1.alloc n = true := by
    intro i hi n
    fin_cases hi <;> rfl
  have h := round_robin_is_ordered binaryHeap_lawful (some []) bothJobs hoptions (E := .still 0)
    (fun _ => rfl) hstill (by decide +kernel) (by decide +kernel)
  exact ⟨by decide +kernel, by decide +kernel, h.2⟩

end QhwScheduler
