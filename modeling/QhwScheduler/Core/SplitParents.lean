import QhwScheduler.Core.Lifecycle

/-!
# Split parents

The state of a split parent against the states of its slices.  Which slices are
its own is not in the table, where any task may name any parent; it is kept
beside the run.

* `Traced`, `tracedNext` — a scheduler with, for each split parent, the slices
  its own split created.
* `splitOutcome` — what the slices make of their parent; it does not depend on
  their order.
* `OwnSlice` — the finished task is a slice of the waiting parent it names.
* `split_parents` — along every run of such operations a parent waits exactly as
  long as one of its own slices has not ended, and then has their outcome;
  `split_parents_foreign` — without the condition it does not.
-/

namespace QhwScheduler

variable {ν : Type} {σ : ν → Type}

/-! ## Slices -/

/-- The state of a task. -/
def stateOf (table : TaskTable) (id : TaskId) : Option TaskState :=
  (taskTableFind table id).map TaskRecord.state

/-- The task has ended. -/
def Ended (table : TaskTable) (id : TaskId) : Prop :=
  ∃ state, stateOf table id = some state ∧ taskStateIsTerminal state

/-- What slices that ended in these states make of their parent. -/
def splitOutcome (states : List (Option TaskState)) : TaskState :=
  if some .failed ∈ states then .failed
  else if some .cancelled ∈ states then .cancelled
  else .completed

theorem splitOutcome_terminal (states : List (Option TaskState)) :
    taskStateIsTerminal (splitOutcome states) := by
  unfold splitOutcome
  split
  · rfl
  · split <;> rfl

/-- How many of these tasks are in the state. -/
def countIn (table : TaskTable) (state : TaskState) (ids : List TaskId) : ℕ :=
  ids.countP fun id => stateOf table id = some state

section Count

variable {table table' : TaskTable} {ids : List TaskId} {id : TaskId}

theorem countIn_congr {state : TaskState}
    (h : ∀ x ∈ ids, stateOf table' x = some state ↔ stateOf table x = some state) :
    countIn table' state ids = countIn table state ids := by
  refine List.countP_congr fun x hx => ?_
  simp only [decide_eq_true_eq, h x hx]

/-- One task among them moved to another state. -/
theorem countIn_moved {old new state : TaskState} (hnd : ids.Nodup) (hid : id ∈ ids)
    (hold : stateOf table id = some old) (hnew : stateOf table' id = some new)
    (hothers : ∀ x ∈ ids, x ≠ id → stateOf table' x = stateOf table x) (hne : old ≠ state) :
    countIn table' state ids = countIn table state ids + if new = state then 1 else 0 := by
  induction ids with
  | nil => simp at hid
  | cons x xs ih =>
    rw [List.nodup_cons] at hnd
    simp only [countIn, List.countP_cons]
    by_cases hx : x = id
    · subst hx
      have hrest : countIn table' state xs = countIn table state xs := by
        refine countIn_congr fun y hy => ?_
        rw [hothers y (by simp [hy])]
        rintro rfl
        exact hnd.1 hy
      unfold countIn at hrest
      simp only [hrest, hold, hnew, Option.some.injEq, hne, decide_false, decide_eq_true_eq]
      simp
    · have hid' : id ∈ xs := (List.mem_cons.1 hid).resolve_left (Ne.symm hx)
      have hrest := ih hnd.2 hid' fun y hy => hothers y (by simp [hy])
      unfold countIn at hrest
      rw [hrest, hothers x (by simp) hx]
      omega

theorem countIn_add_le_length (table : TaskTable) (ids : List TaskId) :
    countIn table .completed ids + countIn table .failed ids + countIn table .cancelled ids ≤
      ids.length := by
  induction ids with
  | nil => simp [countIn]
  | cons x xs ih =>
    simp only [countIn, List.countP_cons, List.length_cons] at ih ⊢
    cases stateOf table x with
    | none => simp; omega
    | some state => cases state <;> simp <;> omega

/-- The tasks that ended, by the way they did. -/
theorem countIn_add_eq_length_iff :
    countIn table .completed ids + countIn table .failed ids + countIn table .cancelled ids =
      ids.length ↔ ∀ x ∈ ids, Ended table x := by
  induction ids with
  | nil => simp [countIn]
  | cons x xs ih =>
    have hxs := countIn_add_le_length table xs
    rw [List.forall_mem_cons]
    refine Iff.trans ?_ (and_congr Iff.rfl ih)
    simp only [countIn, List.countP_cons, List.length_cons] at hxs ⊢
    unfold Ended
    cases stateOf table x with
    | none => simp; omega
    | some state => cases state <;> simp [taskStateIsTerminal] <;> omega

theorem countIn_pos_iff {state : TaskState} :
    0 < countIn table state ids ↔ some state ∈ ids.map (stateOf table) := by
  simp [countIn, List.countP_pos_iff]

/-- The counters of the slices decide the outcome. -/
theorem splitOutcome_map :
    splitOutcome (ids.map (stateOf table)) =
      if countIn table .failed ids > 0 then .failed
      else if countIn table .cancelled ids > 0 then .cancelled
      else .completed := by
  simp only [splitOutcome, gt_iff_lt, countIn_pos_iff]

end Count

/-! ## The slices of each split -/

/-- A scheduler and the slices of each split parent, in the order in which they
were entered. -/
structure Traced (σ : ν → Type) where
  sched : Sched σ
  slices : TaskId → List TaskId

/-- A scheduler without tasks. -/
def tracedCreate (qpu : Qpu) : Traced σ := ⟨schedCreate qpu, fun _ => []⟩

/-- The slices after a step: a parent that is new and waits was entered by it,
with its slices right behind it. -/
def slicesAfter (slices : TaskId → List TaskId) (table table' : TaskTable) : TaskId → List TaskId :=
  fun p =>
    if taskTableFind table p = none ∧ stateOf table' p = some .waiting then
      table'.enqueueOrder.drop (table.enqueueOrder.length + 1)
    else slices p

/-- One operation. -/
def tracedNext [DecidableEq ν] (P : ∀ n, PluginDesc (σ n)) (t : Traced σ) (i : Env × Op ν) :
    Traced σ :=
  let s := nextState P t.sched i
  ⟨s, slicesAfter t.slices t.sched.tasks s.tasks⟩

/-- An operation that finishes a task whose named parent waits finishes one of
the slices of that parent. -/
def OwnSlice (t : Traced σ) (i : Env × Op ν) : Prop :=
  ∀ id state r p, i.2.finishes = some (id, state) →
    Event.Allowed t.sched.ledger (.finish id state) → taskTableFind t.sched.tasks id = some r →
    taskTableFind t.sched.tasks r.desc.parentTaskId = some p → p.state = .waiting →
    id ∈ t.slices r.desc.parentTaskId

/-- The state of every split parent follows from its own slices. -/
def Aggregated (t : Traced σ) : Prop :=
  ∀ p r, taskTableFind t.sched.tasks p = some r → r.childCount ≠ 0 →
    (r.state = .waiting ↔ ∃ c ∈ t.slices p, ¬ Ended t.sched.tasks c) ∧
    ((∀ c ∈ t.slices p, Ended t.sched.tasks c) →
      r.state = splitOutcome ((t.slices p).map (stateOf t.sched.tasks)))

/-! ## The invariant -/

/-- The slices of one split parent, and what its record says about them. -/
structure OwnSlices (table : TaskTable) (p : TaskId) (r : TaskRecord) (ids : List TaskId) :
    Prop where
  nodup : ids.Nodup
  length : ids.length = r.childCount
  member : ∀ c ∈ ids, ∃ rc, taskTableFind table c = some rc ∧ rc.desc.parentTaskId = p ∧
    rc.childCount = 0
  counted : r.state = .waiting → r.completedChildCount = countIn table .completed ids ∧
    r.failedChildCount = countIn table .failed ids ∧
    r.cancelledChildCount = countIn table .cancelled ids
  open_slice : r.state = .waiting → ∃ c ∈ ids, ¬ Ended table c
  ended : r.state ≠ .waiting → (∀ c ∈ ids, Ended table c) ∧
    r.state = splitOutcome (ids.map (stateOf table))

/-- Only split parents wait, and each has its slices. -/
structure SliceInv (table : TaskTable) (slices : TaskId → List TaskId) : Prop where
  waiting_split : ∀ id r, taskTableFind table id = some r → r.state = .waiting → r.childCount ≠ 0
  own : ∀ p r, taskTableFind table p = some r → r.childCount ≠ 0 → OwnSlices table p r (slices p)

/-- A task's record changed in a way its parent does not count. -/
def Uncounted (table table' : TaskTable) (c : TaskId) : Prop :=
  ∀ rc, taskTableFind table c = some rc → ∃ rc', taskTableFind table' c = some rc' ∧
    rc'.desc.parentTaskId = rc.desc.parentTaskId ∧ rc'.childCount = rc.childCount ∧
    (rc'.state = rc.state ∨
      (taskStateIsTerminal rc.state = false ∧ taskStateIsTerminal rc'.state = false))

section Frame

variable {table table' : TaskTable} {slices : TaskId → List TaskId} {ids : List TaskId}
  {p id c : TaskId} {r r' : TaskRecord}

theorem uncounted_of_find (h : taskTableFind table' c = taskTableFind table c) :
    Uncounted table table' c := fun rc hrc => ⟨rc, h.trans hrc, rfl, rfl, Or.inl rfl⟩

theorem Uncounted.stateOf_iff (h : Uncounted table table' c) {rc : TaskRecord}
    (hrc : taskTableFind table c = some rc) {state : TaskState} (hs : taskStateIsTerminal state) :
    stateOf table' c = some state ↔ stateOf table c = some state := by
  obtain ⟨rc', hrc', -, -, hstate⟩ := h rc hrc
  simp only [stateOf, hrc, hrc', Option.map_some, Option.some.injEq]
  rcases hstate with hstate | ⟨h1, h2⟩
  · rw [hstate]
  · constructor
    · rintro rfl
      simp [h2] at hs
    · rintro rfl
      simp [h1] at hs

theorem Uncounted.ended_iff (h : Uncounted table table' c) {rc : TaskRecord}
    (hrc : taskTableFind table c = some rc) : Ended table' c ↔ Ended table c := by
  constructor
  · rintro ⟨state, hstate, hterm⟩
    exact ⟨state, (h.stateOf_iff hrc hterm).1 hstate, hterm⟩
  · rintro ⟨state, hstate, hterm⟩
    exact ⟨state, (h.stateOf_iff hrc hterm).2 hstate, hterm⟩

/-- The slices of a parent whose record stays are seen in the same way. -/
theorem OwnSlices.frame (h : OwnSlices table p r ids)
    (hframe : ∀ c ∈ ids, Uncounted table table' c) : OwnSlices table' p r ids where
  nodup := h.nodup
  length := h.length
  member := by
    intro c hc
    obtain ⟨rc, hrc, hparent, hcount⟩ := h.member c hc
    obtain ⟨rc', hrc', hparent', hcount', -⟩ := hframe c hc rc hrc
    exact ⟨rc', hrc', hparent'.trans hparent, hcount'.trans hcount⟩
  counted := by
    intro hw
    have hsame : ∀ state, taskStateIsTerminal state →
        countIn table' state ids = countIn table state ids := by
      intro state hs
      refine countIn_congr fun c hc => ?_
      obtain ⟨rc, hrc, -⟩ := h.member c hc
      exact (hframe c hc).stateOf_iff hrc hs
    rw [hsame _ rfl, hsame _ rfl, hsame _ rfl]
    exact h.counted hw
  open_slice := by
    intro hw
    obtain ⟨c, hc, hopen⟩ := h.open_slice hw
    obtain ⟨rc, hrc, -⟩ := h.member c hc
    exact ⟨c, hc, fun he => hopen (((hframe c hc).ended_iff hrc).1 he)⟩
  ended := by
    intro hw
    obtain ⟨hall, hout⟩ := h.ended hw
    have hsame : ids.map (stateOf table') = ids.map (stateOf table) := by
      refine List.map_congr_left fun c hc => ?_
      obtain ⟨rc, hrc, -⟩ := h.member c hc
      obtain ⟨state, hstate, hterm⟩ := hall c hc
      rw [hstate]
      exact ((hframe c hc).stateOf_iff hrc hterm).2 hstate
    refine ⟨fun c hc => ?_, hsame ▸ hout⟩
    obtain ⟨rc, hrc, -⟩ := h.member c hc
    exact ((hframe c hc).ended_iff hrc).2 (hall c hc)

/-- A split parent waits or has ended. -/
theorem SliceInv.not_split (h : SliceInv table slices) (hr : taskTableFind table id = some r)
    (hw : r.state ≠ .waiting) (hlive : taskStateIsTerminal r.state = false) : r.childCount = 0 := by
  by_contra hsplit
  obtain ⟨-, hout⟩ := (h.own id r hr hsplit).ended hw
  have hterm : taskStateIsTerminal r.state := by
    rw [hout]
    exact splitOutcome_terminal _
  simp [hlive] at hterm

/-- A task that was not split moves between states that are not counted. -/
theorem SliceInv.update (h : SliceInv table slices) (hr : taskTableFind table id = some r)
    (hsplit : r.childCount = 0) (hlive : taskStateIsTerminal r.state = false)
    (hparent : r'.desc.parentTaskId = r.desc.parentTaskId) (hcount : r'.childCount = r.childCount)
    (hlive' : taskStateIsTerminal r'.state = false) (hw : r'.state ≠ .waiting) :
    SliceInv (table.update id r') slices := by
  have hframe : ∀ c, Uncounted table (table.update id r') c := by
    intro c rc hrc
    rw [find_update]
    split
    · next hc =>
      rw [hc, hr] at hrc
      obtain rfl := Option.some.inj hrc
      exact ⟨r', rfl, hparent, hcount, Or.inr ⟨hlive, hlive'⟩⟩
    · exact ⟨rc, hrc, rfl, rfl, Or.inl rfl⟩
  refine ⟨?_, ?_⟩
  · intro x y hy hwait
    rw [find_update] at hy
    split at hy
    · obtain rfl := Option.some.inj hy
      exact absurd hwait hw
    · exact h.waiting_split x y hy hwait
  · intro q y hy hq
    rw [find_update] at hy
    split at hy
    · obtain rfl := Option.some.inj hy
      exact absurd (hcount.trans hsplit) hq
    · exact (h.own q y hy hq).frame fun c _ => hframe c

/-- New records: plain ones, or a split parent with its slices. -/
theorem SliceInv.extend {slices' : TaskId → List TaskId} (h : SliceInv table slices)
    (hkeep : ∀ x r, taskTableFind table x = some r →
      taskTableFind table' x = some r ∧ slices' x = slices x)
    (hnew : ∀ x r, taskTableFind table' x = some r → taskTableFind table x = none →
      (r.state ≠ .waiting ∧ r.childCount = 0) ∨
        (r.childCount ≠ 0 ∧ OwnSlices table' x r (slices' x))) : SliceInv table' slices' := by
  refine ⟨?_, ?_⟩
  · intro x y hy hw
    cases hx : taskTableFind table x with
    | none =>
      rcases hnew x y hy hx with ⟨hnw, -⟩ | ⟨hsplit, -⟩
      · exact absurd hw hnw
      · exact hsplit
    | some z =>
      rw [(hkeep x z hx).1] at hy
      obtain rfl := Option.some.inj hy
      exact h.waiting_split x z hx hw
  · intro x y hy hsplit
    cases hx : taskTableFind table x with
    | none =>
      rcases hnew x y hy hx with ⟨-, h0⟩ | ⟨-, hown⟩
      · exact absurd h0 hsplit
      · exact hown
    | some z =>
      rw [(hkeep x z hx).1] at hy
      obtain rfl := Option.some.inj hy
      have hown := h.own x z hx hsplit
      rw [(hkeep x z hx).2]
      refine hown.frame fun c hc => ?_
      obtain ⟨rc, hrc, -⟩ := hown.member c hc
      exact uncounted_of_find ((hkeep c rc hrc).1.trans hrc.symm)

/-- The counters and the state of a waiting parent once one more of its slices
has ended. -/
theorem OwnSlices.count {old state : TaskState} (h : OwnSlices table p r ids)
    (hw : r.state = .waiting) (hid : id ∈ ids) (hold : stateOf table id = some old)
    (hlive : taskStateIsTerminal old = false) (hterm : taskStateIsTerminal state)
    (hnew : stateOf table' id = some state)
    (hothers : ∀ c ∈ ids, c ≠ id → taskTableFind table' c = taskTableFind table c)
    (hmember : ∀ c ∈ ids, ∃ rc, taskTableFind table' c = some rc ∧ rc.desc.parentTaskId = p ∧
      rc.childCount = 0) :
    OwnSlices table' p { r.countChild state with state := (r.countChild state).parentState } ids := by
  have hmove : ∀ st, taskStateIsTerminal st →
      countIn table' st ids = countIn table st ids + if state = st then 1 else 0 := by
    intro st hst
    refine countIn_moved h.nodup hid hold hnew ?_ ?_
    · intro c hc hne
      rw [stateOf, stateOf, hothers c hc hne]
    · rintro rfl
      simp [hlive] at hst
  obtain ⟨hcompleted, hfailed, hcancelled⟩ := h.counted hw
  have hcount : (r.countChild state).completedChildCount = countIn table' .completed ids ∧
      (r.countChild state).failedChildCount = countIn table' .failed ids ∧
      (r.countChild state).cancelledChildCount = countIn table' .cancelled ids ∧
      (r.countChild state).childCount = ids.length := by
    rw [hmove _ rfl, hmove _ rfl, hmove _ rfl, h.length, ← hcompleted, ← hfailed, ← hcancelled]
    cases state <;> simp [TaskRecord.countChild]
  generalize r.countChild state = q at hcount ⊢
  obtain ⟨hc, hf, hx, hn⟩ := hcount
  have hsum := countIn_add_le_length table' ids
  have hwaits : q.parentState = .waiting ↔ ¬ ∀ c ∈ ids, Ended table' c := by
    rw [← countIn_add_eq_length_iff, TaskRecord.parentState, hc, hf, hx, hn]
    split
    · next hlt => simpa using hlt.ne
    · next hge =>
      have heq := le_antisymm hsum (not_lt.1 hge)
      simp only [heq, not_true_eq_false, iff_false]
      split
      · simp
      · split <;> simp
  refine ⟨h.nodup, hn.symm, hmember, fun _ => ⟨hc, hf, hx⟩, ?_, ?_⟩
  · intro hstate
    simpa using hwaits.1 hstate
  · intro hstate
    have hall : ∀ c ∈ ids, Ended table' c := not_not.1 fun hnot => hstate (hwaits.2 hnot)
    refine ⟨hall, ?_⟩
    have heq := countIn_add_eq_length_iff.2 hall
    show q.parentState = _
    rw [splitOutcome_map, TaskRecord.parentState, hc, hf, hx, hn, if_neg (by omega)]

/-- A live task is listed by no other parent than a waiting one that it names. -/
theorem SliceInv.not_listed (h : SliceInv table slices) (hr : taskTableFind table id = some r)
    (hlive : taskStateIsTerminal r.state = false) {y : TaskRecord}
    (hy : taskTableFind table p = some y) (hsplit : y.childCount ≠ 0)
    (hp : p ≠ r.desc.parentTaskId ∨ y.state ≠ .waiting) : id ∉ slices p := by
  intro hin
  have hy' := h.own p y hy hsplit
  obtain ⟨rc, hrc, hparent, -⟩ := hy'.member id hin
  rw [hr] at hrc
  obtain rfl := Option.some.inj hrc
  rcases hp with hp | hp
  · exact hp hparent.symm
  · obtain ⟨st, hst, hst'⟩ := (hy'.ended hp).1 id hin
    simp only [stateOf, hr, Option.map_some, Option.some.injEq] at hst
    subst hst
    simp [hlive] at hst'

/-- No parent has to count the end of a task that none lists. -/
theorem SliceInv.finish_unlisted (h : SliceInv table slices) (hsplit : r'.childCount = 0)
    (hw : r'.state ≠ .waiting)
    (hnone : ∀ p y, taskTableFind table p = some y → y.childCount ≠ 0 → id ∉ slices p) :
    SliceInv (table.update id r') slices := by
  refine ⟨?_, ?_⟩
  · intro x y hy hwait
    rw [find_update] at hy
    split at hy
    · obtain rfl := Option.some.inj hy
      exact absurd hwait hw
    · exact h.waiting_split x y hy hwait
  · intro q y hy hq
    rw [find_update] at hy
    split at hy
    · obtain rfl := Option.some.inj hy
      exact absurd hsplit hq
    · refine (h.own q y hy hq).frame fun c hc => uncounted_of_find ?_
      rw [find_update, if_neg]
      rintro rfl
      exact hnone q y hy hq hc

/-- The parent's record changed beside that of the task; no other slice did. -/
theorem find_update_update {parent parent' rc : TaskRecord}
    (hparent : taskTableFind table p = some parent) (hsplit : parent.childCount ≠ 0) (hc : c ≠ id)
    (hrc : taskTableFind table c = some rc) (hrc0 : rc.childCount = 0) :
    taskTableFind ((table.update id r').update p parent') c = taskTableFind table c := by
  rw [find_update, if_neg, find_update, if_neg hc]
  rintro rfl
  rw [hparent] at hrc
  exact hsplit (Option.some.inj hrc ▸ hrc0)

/-- The waiting parent counts the end of a slice of its own. -/
theorem SliceInv.finish_counted {state : TaskState} {parent : TaskRecord}
    (h : SliceInv table slices) (hr : taskTableFind table id = some r) (hsplit : r.childCount = 0)
    (hlive : taskStateIsTerminal r.state = false) (hterm : taskStateIsTerminal state)
    (hparent : taskTableFind table r.desc.parentTaskId = some parent)
    (hpw : parent.state = .waiting) (hin : id ∈ slices r.desc.parentTaskId)
    (hne : r.desc.parentTaskId ≠ id) (hw : state ≠ .waiting) :
    SliceInv ((table.update id { r with state := state }).update r.desc.parentTaskId
      { parent.countChild state with state := (parent.countChild state).parentState }) slices := by
  have hpc := h.waiting_split _ parent hparent hpw
  have hchild : (parent.countChild state).childCount = parent.childCount := by
    cases state <;> rfl
  have hslices := h.own _ parent hparent hpc
  refine ⟨?_, ?_⟩
  · intro x y hy hwait
    rw [find_update, find_update] at hy
    split at hy
    · obtain rfl := Option.some.inj hy
      exact hchild ▸ hpc
    · split at hy
      · obtain rfl := Option.some.inj hy
        exact absurd hwait hw
      · exact h.waiting_split x y hy hwait
  · intro x y hy hyc
    rw [find_update, find_update] at hy
    split at hy
    · next hx =>
      obtain rfl := Option.some.inj hy
      subst hx
      refine hslices.count hpw hin
        (show stateOf table id = some r.state by simp [stateOf, hr]) hlive hterm ?_ ?_ ?_
      · rw [stateOf, find_update, if_neg (Ne.symm hne), find_update, if_pos rfl]
        rfl
      · intro c hc hcid
        obtain ⟨rc, hrc, -, hrc0⟩ := hslices.member c hc
        exact find_update_update hparent hpc hcid hrc hrc0
      · intro c hc
        obtain ⟨rc, hrc, hrcp, hrc0⟩ := hslices.member c hc
        by_cases hcid : c = id
        · subst hcid
          refine ⟨{ r with state := state }, ?_, rfl, hsplit⟩
          rw [find_update, if_neg (Ne.symm hne), find_update, if_pos rfl]
        · exact ⟨rc, (find_update_update hparent hpc hcid hrc hrc0).trans hrc, hrcp, hrc0⟩
    · next hx =>
      split at hy
      · obtain rfl := Option.some.inj hy
        exact absurd hsplit hyc
      · have hy' := h.own x y hy hyc
        refine hy'.frame fun c hc => uncounted_of_find ?_
        obtain ⟨rc, hrc, -, hrc0⟩ := hy'.member c hc
        refine find_update_update hparent hpc ?_ hrc hrc0
        rintro rfl
        exact h.not_listed hr hlive hy hyc (Or.inl hx) hc

/-- A finished task is counted by the waiting parent it names, which is its own. -/
theorem SliceInv.finish {state : TaskState} (h : SliceInv table slices)
    (hr : taskTableFind table id = some r) (hw : r.state ≠ .waiting)
    (hlive : taskStateIsTerminal r.state = false) (hterm : taskStateIsTerminal state)
    (hown : ∀ p, taskTableFind table r.desc.parentTaskId = some p → p.state = .waiting →
      id ∈ slices r.desc.parentTaskId) (hvalid : taskTableFind table invalidTaskId = none) :
    SliceInv (updateParentAfterChildLocked (table.update id { r with state := state }) r state)
      slices := by
  have hsplit := h.not_split hr hw hlive
  have hnw : state ≠ .waiting := by
    rintro rfl
    simp [taskStateIsTerminal] at hterm
  have hunlisted : (∀ y, taskTableFind table r.desc.parentTaskId = some y → y.state ≠ .waiting) →
      SliceInv (table.update id { r with state := state }) slices := by
    intro hparent
    refine h.finish_unlisted hsplit hnw fun p y hy hyc => h.not_listed hr hlive hy hyc ?_
    by_cases hp : p = r.desc.parentTaskId
    · exact Or.inr (hparent y (hp ▸ hy))
    · exact Or.inl hp
  unfold updateParentAfterChildLocked
  split
  · next hzero =>
    refine hunlisted fun y hy => ?_
    rw [hzero, hvalid] at hy
    simp at hy
  · split
    · next hnone =>
      refine hunlisted fun y hy => ?_
      rw [find_update] at hnone
      split at hnone
      · simp at hnone
      · simp [hy] at hnone
    · next parent hparent =>
      rw [find_update] at hparent
      split
      · next hpw =>
        refine hunlisted fun y hy => ?_
        split at hparent
        · next hself =>
          rw [hself, hr] at hy
          rw [← Option.some.inj hy]
          exact hw
        · rw [hy] at hparent
          rw [Option.some.inj hparent]
          exact hpw
      · next hpw =>
        have hpw' : parent.state = .waiting := not_not.1 hpw
        split at hparent
        · obtain rfl := Option.some.inj hparent
          exact absurd hpw' hnw
        · next hne =>
          exact h.finish_counted hr hsplit hlive hterm hparent hpw' (hown parent hparent hpw') hne
            hnw

end Frame

/-! ## Runs -/

/-- Steps that enter no split parent leave the slices as they were. -/
theorem slicesAfter_same {slices : TaskId → List TaskId} {table table' : TaskTable}
    (h : ∀ p, taskTableFind table p = none → stateOf table' p ≠ some .waiting) :
    slicesAfter slices table table' = slices := by
  funext p
  rw [slicesAfter, if_neg]
  rintro ⟨hnone, hw⟩
  exact h p hnone hw

theorem slicesAfter_update {slices : TaskId → List TaskId} {table : TaskTable} {id : TaskId}
    {r r' : TaskRecord} (hr : taskTableFind table id = some r) :
    slicesAfter slices table (table.update id r') = slices := by
  refine slicesAfter_same fun p hp hw => ?_
  rw [stateOf, find_update] at hw
  split at hw
  · next hpid => simp [hpid, hr] at hp
  · simp [hp] at hw

/-- A split enters its parent with the slices right behind it. -/
theorem SliceInv.acceptSplit {L : Ledger} {slices : TaskId → List TaskId} {parent : TaskDesc}
    {children : List TaskDesc} {seq : ℕ} (h : SliceInv L.tasks slices)
    (hallowed : Event.Allowed L (.acceptSplit parent children seq)) :
    SliceInv (Event.apply L (.acceptSplit parent children seq)).tasks
      (slicesAfter slices L.tasks (Event.apply L (.acceptSplit parent children seq)).tasks) := by
  obtain ⟨hnew, -, hfresh, hne⟩ := hallowed
  have hnot : parent.taskId ∉ children.map TaskDesc.taskId := by
    rw [List.mem_map]
    rintro ⟨d, hd, hid⟩
    exact hfresh.not_parent d hd hid
  have hparent : taskTableFind (Event.apply L (.acceptSplit parent children seq)).tasks
      parent.taskId = some (parentRecord parent seq children.length) := by
    rw [Event.apply, acceptAll_find_of_not_mem hnot, find_insert]
    exact if_pos rfl
  have hchild : ∀ d ∈ children, ∃ n,
      taskTableFind (Event.apply L (.acceptSplit parent children seq)).tasks d.taskId =
        some { desc := d, state := .queued, enqueueSeq := n } :=
    fun d hd => acceptAll_find_of_mem _ hfresh.nodup hd
  have hold : ∀ x, x ≠ parent.taskId → x ∉ children.map TaskDesc.taskId →
      taskTableFind (Event.apply L (.acceptSplit parent children seq)).tasks x =
        taskTableFind L.tasks x := by
    intro x hx hmem
    rw [Event.apply, acceptAll_find_of_not_mem hmem, find_insert, if_neg (by exact hx)]
  have horder : (Event.apply L (.acceptSplit parent children seq)).tasks.enqueueOrder =
      L.tasks.enqueueOrder ++ parent.taskId :: children.map TaskDesc.taskId := by
    rw [Event.apply, acceptAll_order, order_insert]
    simp [parentRecord]
  have hkept : ∀ x r, taskTableFind L.tasks x = some r →
      x ≠ parent.taskId ∧ x ∉ children.map TaskDesc.taskId := by
    intro x r hx
    refine ⟨?_, ?_⟩
    · rintro rfl
      rw [hnew] at hx
      simp at hx
    · intro hmem
      obtain ⟨d, hd, rfl⟩ := List.mem_map.1 hmem
      rw [hfresh.fresh d hd] at hx
      simp at hx
  refine h.extend (fun x r hx => ⟨?_, ?_⟩) fun x r hx hnone => ?_
  · exact (hold x (hkept x r hx).1 (hkept x r hx).2).trans hx
  · rw [slicesAfter, if_neg]
    rintro ⟨hnone, -⟩
    rw [hx] at hnone
    simp at hnone
  · by_cases hxp : x = parent.taskId
    · subst hxp
      rw [hparent] at hx
      obtain rfl := Option.some.inj hx
      have hslices : slicesAfter slices L.tasks
          (Event.apply L (.acceptSplit parent children seq)).tasks parent.taskId =
            children.map TaskDesc.taskId := by
        rw [slicesAfter, if_pos ⟨hnew, by rw [stateOf, hparent]; rfl⟩, horder]
        simp
      have hopen : ∀ c ∈ children.map TaskDesc.taskId,
          stateOf (Event.apply L (.acceptSplit parent children seq)).tasks c = some .queued := by
        intro c hc
        obtain ⟨d, hd, rfl⟩ := List.mem_map.1 hc
        obtain ⟨n, hn⟩ := hchild d hd
        rw [stateOf, hn]
        rfl
      have hzero : ∀ st, st ≠ .queued → countIn
          (Event.apply L (.acceptSplit parent children seq)).tasks st
            (children.map TaskDesc.taskId) = 0 := by
        intro st hst
        refine List.countP_eq_zero.2 fun c hc => ?_
        rw [hopen c hc]
        simp [hst.symm]
      rw [hslices]
      refine Or.inr ⟨by simpa [parentRecord] using hne, hfresh.nodup, by simp [parentRecord], ?_,
        fun _ => ?_, fun _ => ?_, fun hw => absurd rfl hw⟩
      · intro c hc
        obtain ⟨d, hd, rfl⟩ := List.mem_map.1 hc
        obtain ⟨n, hn⟩ := hchild d hd
        exact ⟨_, hn, hfresh.names_parent d hd, rfl⟩
      · rw [hzero _ (by simp), hzero _ (by simp), hzero _ (by simp)]
        exact ⟨rfl, rfl, rfl⟩
      · obtain ⟨d, hd⟩ := List.exists_mem_of_ne_nil children hne
        refine ⟨d.taskId, List.mem_map_of_mem hd, ?_⟩
        rintro ⟨st, hst, hterm⟩
        rw [hopen _ (List.mem_map_of_mem hd)] at hst
        rw [← Option.some.inj hst] at hterm
        simp [taskStateIsTerminal] at hterm
    · by_cases hmem : x ∈ children.map TaskDesc.taskId
      · obtain ⟨d, hd, rfl⟩ := List.mem_map.1 hmem
        obtain ⟨n, hn⟩ := hchild d hd
        rw [hn] at hx
        rw [← Option.some.inj hx]
        exact Or.inl ⟨by simp, rfl⟩
      · rw [hold x hxp hmem, hnone] at hx
        simp at hx

theorem find_updateParent_none {table : TaskTable} {child : TaskRecord} {state : TaskState}
    {p : TaskId} (h : taskTableFind table p = none) :
    taskTableFind (updateParentAfterChildLocked table child state) p = none := by
  unfold updateParentAfterChildLocked
  split
  · exact h
  · split
    · exact h
    · next q hq =>
      split
      · exact h
      · rw [find_update, if_neg]
        · exact h
        · rintro rfl
          rw [h] at hq
          simp at hq

/-- **Events keep the slices**, as long as a waiting parent counts its own. -/
theorem SliceInv.apply {L : Ledger} {e : Event} {slices : TaskId → List TaskId} (hok : L.tasks.Ok)
    (h : SliceInv L.tasks slices) (hallowed : e.Allowed L)
    (hown : ∀ id state r p, e = .finish id state → taskTableFind L.tasks id = some r →
      taskTableFind L.tasks r.desc.parentTaskId = some p → p.state = .waiting →
      id ∈ slices r.desc.parentTaskId) :
    SliceInv (e.apply L).tasks (slicesAfter slices L.tasks (e.apply L).tasks) := by
  have hvalid : taskTableFind L.tasks invalidTaskId = none := by
    by_contra hne
    obtain ⟨r, hr⟩ := Option.ne_none_iff_exists'.1 hne
    exact hok.valid _ r hr rfl
  cases e with
  | idle =>
    rw [slicesAfter_same fun p hp hw => by simp [Event.apply, stateOf, hp] at hw]
    exact h
  | accept task seq =>
    rw [slicesAfter_same fun p hp hw => by
      simp only [Event.apply, Ledger.accept, stateOf, find_insert] at hw
      split at hw <;> simp [hp] at hw]
    refine h.extend (fun x r hx => ⟨?_, rfl⟩) fun x r hx hnone => Or.inl ?_
    · rw [Event.apply, Ledger.accept, find_insert, if_neg]
      · exact hx
      · rintro rfl
        rw [hallowed.1] at hx
        simp at hx
    · rw [Event.apply, Ledger.accept, find_insert] at hx
      split at hx
      · rw [← Option.some.inj hx]
        exact ⟨by simp, rfl⟩
      · rw [hnone] at hx
        simp at hx
  | acceptSplit parent children seq => exact h.acceptSplit hallowed
  | assign id =>
    obtain ⟨r, hr, hq⟩ := hallowed
    rw [Event.apply, on_of_find hr, slicesAfter_update hr]
    exact h.update hr (h.not_split hr (by simp [hq]) (by simp [hq, taskStateIsTerminal]))
      (by simp [hq, taskStateIsTerminal]) rfl rfl rfl (by simp)
  | reprioritize id priority =>
    obtain ⟨r, hr, hq⟩ := hallowed
    rw [Event.apply, on_of_find hr, slicesAfter_update hr]
    exact h.update hr (h.not_split hr (by simp [hq]) (by simp [hq, taskStateIsTerminal]))
      (by simp [hq, taskStateIsTerminal]) rfl rfl (by simp [hq, taskStateIsTerminal]) (by simp [hq])
  | start id =>
    obtain ⟨-, r, hr, hstate⟩ := hallowed
    have hlive : taskStateIsTerminal r.state = false ∧ r.state ≠ .waiting := by
      rcases hstate with hs | hs <;> simp [hs, taskStateIsTerminal]
    rw [Event.apply, on_of_find hr, slicesAfter_update hr]
    exact h.update hr (h.not_split hr hlive.2 hlive.1) hlive.1 rfl rfl rfl (by simp)
  | finish id state =>
    obtain ⟨hterm, r, hr, hlive, hw, -⟩ := hallowed
    have hinv := h.finish hr hw hlive hterm (fun p hp hpw => hown id state r p rfl hr hp hpw) hvalid
    rw [Event.apply, on_of_find hr]
    rw [slicesAfter_same]
    · exact hinv
    · intro p hp hpw
      have hp' : taskTableFind (L.tasks.update id { r with state := state }) p = none := by
        rw [find_update, if_neg]
        · exact hp
        · rintro rfl
          rw [hp] at hr
          simp at hr
      rw [stateOf, find_updateParent_none hp'] at hpw
      simp at hpw

/-- **The state of a split parent follows from its own slices**, in every state of
every run whose steps meet `OwnSlice`, with any plugins. -/
theorem split_parents [DecidableEq ν] (P : ∀ n, PluginDesc (σ n)) (metadata : KvArray)
    (is : List (Env × Op ν))
    (hown : Foundations.Along (tracedNext P) OwnSlice (tracedCreate (qpuCreate metadata)) is) :
    Aggregated (Foundations.run (tracedNext P) (tracedCreate (qpuCreate metadata)) is) := by
  have hinv := Foundations.run_invariant_along
    (motive := fun t => t.sched.tasks.Ok ∧ SliceInv t.sched.tasks t.slices) ?_ ?_ hown
  · intro p r hr hsplit
    have h := hinv.2.own p r hr hsplit
    refine ⟨⟨h.open_slice, ?_⟩, ?_⟩
    · rintro ⟨c, hc, hopen⟩
      by_contra hw
      exact hopen ((h.ended hw).1 c hc)
    · intro hall
      refine (h.ended fun hw => ?_).2
      obtain ⟨c, hc, hopen⟩ := h.open_slice hw
      exact hopen (hall c hc)
  · rintro t ⟨E, op⟩ ⟨hok, hinv⟩ hstep
    obtain ⟨e, hby, hallowed, hled⟩ := step_event P E op hok
    have htasks : (nextState P t.sched (E, op)).tasks = (e.apply t.sched.ledger).tasks :=
      congrArg Ledger.tasks hled
    have hnext := hinv.apply (L := t.sched.ledger) hok hallowed (by
      rintro id state r p rfl hr hp hpw
      exact hstep id state r p hby hallowed hr hp hpw)
    refine ⟨ok_of_ledger hled (Event.ok_apply (L := t.sched.ledger) hok hallowed), ?_⟩
    show SliceInv (nextState P t.sched (E, op)).tasks (slicesAfter t.slices t.sched.tasks
      (nextState P t.sched (E, op)).tasks)
    rw [htasks]
    exact hnext
  · refine ⟨TaskTable.ok_empty, ?_, ?_⟩
    · intro id r hr
      simp [tracedCreate, schedCreate, TaskTable.empty, taskTableFind] at hr
    · intro id r hr
      simp [tracedCreate, schedCreate, TaskTable.empty, taskTableFind] at hr

/-! ## A stray task that names the parent -/

/-- Ten shots a slice. -/
def tenShots : KvArray := some [⟨metaMaxShots, .u64 10⟩]

/-- The slices 2 and 3 of task 1, ten shots each. -/
def twoSlices : CallbackAnswers where
  slice i d := { d with
    taskId := UInt64.ofNat i + 2
    metadata := some [⟨metaSliceIndex, .u64 (UInt64.ofNat i)⟩, ⟨metaSliceCount, .u64 2⟩,
      ⟨metaShots, .u64 10⟩] }

/-- Task 1 asks for twenty shots and is split. -/
def splitRun : List (Env × Op Empty) :=
  [(.still 0, .setCallbacks { splitTask := true }),
    (.still 0, .submitTask { taskId := 1, metadata := some [⟨metaShots, .u64 20⟩] } twoSlices)]

/-- Cancelling a slice is the parent's own business. -/
theorem split_parents_splitRun :
    Aggregated (Foundations.run (tracedNext noPlugins) (tracedCreate (qpuCreate tenShots))
      (splitRun ++ [(.still 0, .taskCancelled 2)])) := by
  refine split_parents noPlugins tenShots (splitRun ++ [(.still 0, .taskCancelled 2)]) ?_
  refine Foundations.along_append.2 ⟨?_, ?_, trivial⟩
  · simp [splitRun, Foundations.Along, OwnSlice, Op.finishes]
  · intro id state r p hfin _ hr _ _
    obtain ⟨rfl, rfl⟩ : 2 = id ∧ TaskState.cancelled = state := by simpa [Op.finishes] using hfin
    have hparent : (taskTableFind (Foundations.run (tracedNext noPlugins)
        (tracedCreate (qpuCreate tenShots)) splitRun).sched.tasks 2).map
          (fun r => r.desc.parentTaskId) = some 1 := by decide +kernel
    rw [hr] at hparent
    have hp : r.desc.parentTaskId = 1 := Option.some.inj hparent
    rw [hp]
    decide +kernel

/-- Task 9 names task 1 as its parent and is no slice of it: once it and slice 2
are cancelled the parent has ended, and slice 3 is still queued. -/
theorem split_parents_foreign :
    ¬ Aggregated (Foundations.run (tracedNext noPlugins) (tracedCreate (qpuCreate tenShots))
      (splitRun ++ [(.still 0, .submitTask { taskId := 9, parentTaskId := 1 } {}),
        (.still 0, .taskCancelled 9), (.still 0, .taskCancelled 2)])) := by
  intro h
  generalize ht : Foundations.run (tracedNext noPlugins) (tracedCreate (qpuCreate tenShots))
    (splitRun ++ [(.still 0, .submitTask { taskId := 9, parentTaskId := 1 } {}),
      (.still 0, .taskCancelled 9), (.still 0, .taskCancelled 2)]) = t at h
  have hparent : (taskTableFind t.sched.tasks 1).map (fun r => (r.state, r.childCount)) =
      some (.cancelled, 2) := by
    rw [← ht]
    decide +kernel
  have hslice : 3 ∈ t.slices 1 := by
    rw [← ht]
    decide +kernel
  have hopen : stateOf t.sched.tasks 3 = some .queued := by
    rw [← ht]
    decide +kernel
  obtain ⟨r, hr, hr'⟩ := Option.map_eq_some_iff.1 hparent
  obtain ⟨hstate, hcount⟩ := Prod.mk.inj hr'
  have hw := (h 1 r hr (by rw [hcount]; decide)).1.2 ⟨3, hslice, ?_⟩
  · rw [hstate] at hw
    simp at hw
  · rintro ⟨state, hs, hterm⟩
    rw [hopen] at hs
    rw [← Option.some.inj hs] at hterm
    simp [taskStateIsTerminal] at hterm

end QhwScheduler
