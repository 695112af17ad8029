import QhwScheduler.Plugins.RoundRobin

/-!
# Fairness of the round_robin plugin

Runs of the plugin are runs of a rotation, so what a rotation guarantees holds of
the tasks the plugin hands out.

* `handedOut`, `submitted` — the tasks a run hands out, and those it accepts.
* `rrTurn`, `rr_simulates` — every hook is a turn of the rotation.
* `round_robin_fairness` — between two selections from one group every other group
  has its turn, and a group gives its tasks in the order of submission.
-/

namespace QhwScheduler

open Foundations

/-! ## What a run hands out -/

section Trace

variable {σ : Type} (P : PluginDesc σ)

/-- The task a call hands out. -/
def handsOut (s : History σ) (i : Env × Hook) : Option TaskDesc :=
  match i.2 with
  | .select =>
    let r := P.selectNext i.1 s.state .start
    if r.rc = .ok then s.waiting.find? (·.taskId = r.taskId) else none
  | _ => none

/-- The tasks a run hands out, in order. -/
def handedOut : History σ → List (Env × Hook) → List TaskDesc
  | _, [] => []
  | s, i :: is => (handsOut P s i).toList ++ handedOut (hookStep P s i) is

/-- The task a call accepts. -/
def accepts (s : History σ) (i : Env × Hook) : Option TaskDesc :=
  match i.2 with
  | .submit task => if (P.onTaskSubmit i.1 s.state task .start).rc = .ok then some task else none
  | _ => none

/-- The tasks a run accepts, in order. -/
def submitted : History σ → List (Env × Hook) → List TaskDesc
  | _, [] => []
  | s, i :: is => (accepts P s i).toList ++ submitted (hookStep P s i) is

/-- Some task of the group waits. -/
def GroupWaits (G : GroupKey) (s : History σ) : Prop := ∃ d ∈ s.waiting, groupKeyFromTask d = G

instance (G : GroupKey) (s : History σ) : Decidable (GroupWaits G s) :=
  inferInstanceAs (Decidable (∃ d ∈ s.waiting, groupKeyFromTask d = G))

end Trace

/-! ## Hooks as turns -/

/-- The turn of the rotation a call amounts to. -/
def rrTurn (s : History RrState) (i : Env × Hook) : Turn TaskId GroupKey :=
  match i.2 with
  | .submit task =>
    match accepts rrPlugin s i with
    | some _ => .arrive task.taskId (groupKeyFromTask task)
    | none => .idle
  | .select => .take
  | .finished id _ => .leave id
  | .priorityChanged _ _ => .idle
  | .started _ => .idle

/-- The turns of a run. -/
def rrTurns : History RrState → List (Env × Hook) → List (Turn TaskId GroupKey)
  | _, [] => []
  | s, i :: is => rrTurn s i :: rrTurns (hookStep rrPlugin s i) is

/-- The policy state stands for the rotation, and the rotation holds the waiting tasks. -/
structure RrSim (s : History RrState) (r : Rotation TaskId GroupKey) : Prop where
  ok : RrOk s.state r
  waiting : r.waiting = entries s.waiting

section

variable {s : History RrState} {r : Rotation TaskId GroupKey} {i : Env × Hook}
  {is : List (Env × Hook)} {G : GroupKey}

/-- The entry of a task as a pair. -/
def entry (d : TaskDesc) : TaskId × GroupKey := (d.taskId, groupKeyFromTask d)

theorem RrSim.nodup (h : RrSim s r) : (taskIds s.waiting).Nodup :=
  names_entries h.waiting ▸ h.ok.rotation.names

/-- **Every hook is a turn of the rotation**, and hands out what the turn takes. -/
theorem rr_simulates (h : RrSim s r) (i : Env × Hook) :
    r.Allowed (rrTurn s i) ∧ RrSim (hookStep rrPlugin s i) (r.turn (rrTurn s i)) ∧
      (handsOut rrPlugin s i).map entry = r.taken (rrTurn s i) := by
  obtain ⟨hok, hw⟩ := h
  obtain ⟨E, hook⟩ := i
  cases hook with
  | submit task =>
    rcases rrOnTaskSubmit_spec (E := E) hok task .start with ⟨hrc, hnew, h⟩ | ⟨hrc, h, -⟩
    · have hacc : accepts rrPlugin s (E, .submit task) = some task := by
        simp [accepts, rrPlugin, hrc]
      simp only [rrTurn, hacc]
      refine ⟨hnew, ⟨h, ?_⟩, rfl⟩
      simp only [hookStep, rrPlugin, hrc, if_true, entries_append]
      rw [← hw]
      rfl
    · have hacc : accepts rrPlugin s (E, .submit task) = none := by
        simp [accepts, rrPlugin, hrc]
      simp only [rrTurn, hacc]
      refine ⟨trivial, ⟨h, ?_⟩, rfl⟩
      simp only [hookStep, rrPlugin, hrc, if_false]
      exact hw
  | select =>
    rcases rrSelectNext_spec hok .start with ⟨hrc, hnext, h⟩ | ⟨e, hnext, hrc, hid, h⟩
    · have hturn : r.turn (rrTurn s (E, .select)) = r := by
        simp [rrTurn, Rotation.turn, Rotation.take, hnext]
      rw [hturn]
      refine ⟨trivial, ⟨h, ?_⟩, ?_⟩
      · simp only [hookStep, rrPlugin, hrc, reduceCtorEq, if_false]
        exact hw
      · simp [handsOut, rrPlugin, hrc, rrTurn, Rotation.taken, hnext]
    · have hturn : r.turn (rrTurn s (E, .select)) = r.serve e := by
        simp [rrTurn, Rotation.turn, Rotation.take, hnext]
      rw [hturn]
      refine ⟨trivial, ⟨h, ?_⟩, ?_⟩
      · simp only [hookStep, rrPlugin, hrc, if_true, hid]
        exact entries_withoutTask hw e.1
      · have hmem := (Rotation.next_mem hnext).1
        rw [hw] at hmem
        obtain ⟨d, hd, hde⟩ := List.mem_map.1 hmem
        have hnd : (taskIds s.waiting).Nodup := names_entries hw ▸ hok.rotation.names
        have hfind : s.waiting.find? (·.taskId = e.1) = some d := by
          rw [← hde]
          exact find_taskId hnd hd
        simp only [handsOut, rrPlugin, hrc, if_true, hid, hfind, rrTurn, Rotation.taken, hnext,
          Option.map_some, entry]
        rw [← hde]
  | priorityChanged id priority =>
    refine ⟨trivial, ⟨hok, ?_⟩, rfl⟩
    simp only [hookStep, rrPlugin, if_true, entries_reprioritize]
    exact hw
  | started id => exact ⟨trivial, ⟨hok, hw⟩, rfl⟩
  | finished id state =>
    exact ⟨trivial, ⟨(rrOnTaskFinished_spec hok id .start).2, entries_withoutTask hw id⟩, rfl⟩

theorem rr_run (h : RrSim s r) (is : List (Env × Hook)) :
    Along Rotation.turn Rotation.Allowed r (rrTurns s is) ∧
      RrSim (run (hookStep rrPlugin) s is) (run Rotation.turn r (rrTurns s is)) ∧
      (handedOut rrPlugin s is).map groupKeyFromTask = Rotation.visits r (rrTurns s is) := by
  induction is generalizing s r with
  | nil => exact ⟨trivial, h, rfl⟩
  | cons i is ih =>
    obtain ⟨hallowed, hsim, htaken⟩ := rr_simulates h i
    obtain ⟨hal, hrun, hvisits⟩ := ih hsim
    refine ⟨⟨hallowed, hal⟩, hrun, ?_⟩
    rw [handedOut, rrTurns, Rotation.visits, List.map_append, hvisits, ← htaken]
    cases handsOut rrPlugin s i <;> rfl

theorem groupWaits_iff (h : RrSim s r) : GroupWaits G s ↔ G ∈ r.groups := by
  rw [Rotation.groups, h.waiting, entries, List.map_map, List.mem_map]
  rfl

theorem throughout_iff (h : RrSim s r) :
    Throughout (hookStep rrPlugin) (GroupWaits G) s is ↔
      Throughout Rotation.turn (fun r => G ∈ r.groups) r (rrTurns s is) := by
  induction is generalizing s r with
  | nil => exact groupWaits_iff h
  | cons i is ih =>
    rw [rrTurns, Throughout, Throughout, groupWaits_iff h, ih (rr_simulates h i).2.1]

/-- What a run takes from a group and what arrives in it, in the words of the plugin. -/
theorem rr_takenOf (h : RrSim s r) (G : GroupKey) (is : List (Env × Hook)) :
    taskIds (ofGroup G (handedOut rrPlugin s is)) = Rotation.takenOf G r (rrTurns s is) ∧
      taskIds (ofGroup G (submitted rrPlugin s is)) = Rotation.arrivalsOf G (rrTurns s is) := by
  induction is generalizing s r with
  | nil => exact ⟨rfl, rfl⟩
  | cons i is ih =>
    obtain ⟨-, hsim, htaken⟩ := rr_simulates h i
    obtain ⟨htk, harr⟩ := ih hsim
    have happ : ∀ l l' : List TaskDesc, taskIds (ofGroup G (l ++ l')) =
        taskIds (ofGroup G l) ++ taskIds (ofGroup G l') := by
      intro l l'
      rw [ofGroup_append, taskIds_append]
    constructor
    · rw [handedOut, happ, htk, rrTurns, Rotation.takenOf, Rotation.takenFrom, ← htaken]
      congr 1
      cases handsOut rrPlugin s i with
      | none => rfl
      | some d =>
        by_cases hd : groupKeyFromTask d = G
        · simp [ofGroup, entry, hd]
        · simp [ofGroup, entry, hd]
    · rw [submitted, happ, harr, rrTurns]
      show _ = Rotation.arrivalIn G (rrTurn s i) ++ _
      congr 1
      obtain ⟨E, hook⟩ := i
      cases hook with
      | submit task =>
        simp only [rrTurn]
        cases hacc : accepts rrPlugin s (E, .submit task) with
        | none => rfl
        | some d =>
          have hd : d = task := by
            unfold accepts at hacc
            dsimp only at hacc
            split at hacc
            · exact (Option.some.inj hacc).symm
            · simp at hacc
          by_cases hG : groupKeyFromTask task = G
          · simp [hd, ofGroup, Rotation.arrivalIn, hG]
          · simp [hd, ofGroup, Rotation.arrivalIn, hG]
      | select => rfl
      | priorityChanged id priority => rfl
      | started id => rfl
      | finished id state => rfl

end

/-! ## The guarantee -/

/-- How often a run hands out tasks of a group. -/
def timesServed {σ : Type} (P : PluginDesc σ) (K : GroupKey) (s : History σ)
    (is : List (Env × Hook)) : ℕ := (ofGroup K (handedOut P s is)).length

theorem timesServed_eq_count {σ : Type} (P : PluginDesc σ) (K : GroupKey) (s : History σ)
    (is : List (Env × Hook)) :
    timesServed P K s is = ((handedOut P s is).map groupKeyFromTask).count K := by
  rw [timesServed, ofGroup, List.count, List.countP_map, List.countP_eq_length_filter]
  rfl

/-- **Round robin is fair.**  In every run of the plugin: between two consecutive
selections from a group that is not empty in between, every other group is
selected at most once, and exactly once if it is not empty in between either;
and the tasks of a group are selected in the order in which they were submitted. -/
theorem round_robin_fairness {E₀ : Env} {options : KvArray} {c : Cursor} {π : RrState}
    (hinit : (rrPlugin.init E₀ options c).outcome = .ok π) (first between : List (Env × Hook))
    (E₁ E₂ : Env) :
    let s := run (hookStep rrPlugin) ⟨π, []⟩ first
    let s' := hookStep rrPlugin s (E₁, .select)
    (∀ d₁ d₂ G, handsOut rrPlugin s (E₁, .select) = some d₁ → groupKeyFromTask d₁ = G →
      timesServed rrPlugin G s' between = 0 →
      handsOut rrPlugin (run (hookStep rrPlugin) s' between) (E₂, .select) = some d₂ →
      groupKeyFromTask d₂ = G → Throughout (hookStep rrPlugin) (GroupWaits G) s' between →
      ∀ K, K ≠ G → timesServed rrPlugin K s' between ≤ 1 ∧
        (Throughout (hookStep rrPlugin) (GroupWaits K) s' between →
          timesServed rrPlugin K s' between = 1)) ∧
    ∀ G, (taskIds (ofGroup G (handedOut rrPlugin ⟨π, []⟩ first))).Sublist
      (taskIds (ofGroup G (submitted rrPlugin ⟨π, []⟩ first))) := by
  have h₀ : RrSim ⟨π, []⟩ ⟨[], []⟩ := ⟨rrInit_ok hinit, rfl⟩
  obtain ⟨hallowed, hs, -⟩ := rr_run h₀ first
  dsimp only
  generalize hr : run Rotation.turn ⟨[], []⟩ (rrTurns ⟨π, []⟩ first) = r at hs
  refine ⟨?_, fun G => ?_⟩
  · intro d₁ d₂ G hfirst hG₁ hnone hsecond hG₂ hwaits K hK
    obtain ⟨-, hs', htaken⟩ := rr_simulates hs (E₁, .select)
    obtain ⟨hal, hend, hvisits⟩ := rr_run hs' between
    obtain ⟨-, -, htaken₂⟩ := rr_simulates hend (E₂, .select)
    rw [hfirst] at htaken
    rw [hsecond] at htaken₂
    have hnext : r.next = some (entry d₁) := htaken.symm
    have hturn : r.turn (rrTurn (run (hookStep rrPlugin) ⟨π, []⟩ first) (E₁, .select)) =
        r.serve (entry d₁) := by simp [rrTurn, Rotation.turn, Rotation.take, hnext]
    rw [hturn] at hs' hal hend hvisits htaken₂
    rw [timesServed_eq_count, hvisits] at hnone ⊢
    have hkey : (entry d₁).2 = G := hG₁
    rw [← hkey] at hnone hwaits hK
    have hfair := Rotation.between_visits (h := K) hs.ok.rotation hnext hal
      (List.count_eq_zero.1 hnone) ((throughout_iff hs').1 hwaits) htaken₂.symm
      (hG₂.trans hkey.symm) hK
    exact ⟨hfair.1, fun h => hfair.2 ((throughout_iff hs').1 h)⟩
  · obtain ⟨htk, harr⟩ := rr_takenOf h₀ G first
    rw [htk, harr]
    have hsub := Rotation.taken_sublist Rotation.ok_empty hallowed G
    have hnil : Rotation.members (⟨[], []⟩ : Rotation TaskId GroupKey) G = [] := rfl
    rw [hnil, List.nil_append] at hsub
    exact (List.sublist_append_left _ _).trans hsub

/-- A task of a job. -/
def jobTask (id job : UInt64) : TaskDesc := { taskId := id, jobId := job }

/-- Two tasks of one job and two of another are submitted. -/
def twoJobs : List (Env × Hook) :=
  [(.still 0, .submit (jobTask 1 1)), (.still 0, .submit (jobTask 2 1)),
    (.still 0, .submit (jobTask 3 2)), (.still 0, .submit (jobTask 4 2))]

/-- The plugin after its initialisation without options. -/
def rrStart : RrState := ⟨GroupMap.empty, fun _ => none, [], splitConfigInit⟩

/-- Between the two selections from the first job the second job is served once. -/
theorem round_robin_fairness_twoJobs :
    timesServed rrPlugin ⟨.job, 2⟩
      (hookStep rrPlugin (run (hookStep rrPlugin) ⟨rrStart, []⟩ twoJobs) (.still 0, .select))
      [(.still 0, .select)] = 1 := by
  have hinit : (rrPlugin.init (.still 0) (some []) .start).outcome = .ok rrStart := rfl
  have hfair := (round_robin_fairness hinit twoJobs [(.still 0, .select)] (.still 0) (.still 0)).1
    (jobTask 1 1) (jobTask 2 1) ⟨.job, 1⟩ (by decide +kernel) (by decide +kernel)
    (by decide +kernel) (by decide +kernel) (by decide +kernel)
    (by show GroupWaits _ _ ∧ GroupWaits _ _; decide +kernel) ⟨.job, 2⟩ (by decide)
  exact hfair.2 (by show GroupWaits _ _ ∧ GroupWaits _ _; decide +kernel)

end QhwScheduler
