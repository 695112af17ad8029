import QhwScheduler.Policy.DeadlineQueue

/-!
# Refresh passes

The loop of `priority_refresh_expired` and `ordered_refresh_expired` as it stands in the
source, with no bound on its turns.

* `RefreshRun` — the runs of the loop, with the tasks they refresh.
* `RefreshRun.functional` — there is at most one from each state.
* `refreshLoop_run`, `refreshExpired_ends` — there is one: the loop ends, and it
  refreshes no task twice.
-/

namespace QhwScheduler

open Foundations

namespace DeadlineQueue

variable {ρ : Type}

/-- The runs of `while (pop_expired(now_ns, &task)) { refresh_task(task); }`: from this
state these tasks are refreshed, one after the other, and the loop ends with this result. -/
inductive RefreshRun (H : HeapOps) (E : Env) (settings : DeadlineSettings) (touch : Touch ρ)
    (nowNs : UInt64) :
    DeadlineQueue ρ → Cursor → List TaskId → HookResult (DeadlineQueue ρ) → Prop where
  /-- Nothing has expired. -/
  | done {q c} (hpop : deadlineRefreshPopExpired H q.mem q.refresh nowNs = none) :
      RefreshRun H E settings touch nowNs q c [] ⟨.ok, q, c⟩
  /-- A refresh that fails ends the loop. -/
  | failed {q c id mem refresh}
      (hpop : deadlineRefreshPopExpired H q.mem q.refresh nowNs = some (id, mem, refresh))
      (hrc : (refreshTask H E settings touch ⟨mem, refresh, q.ready⟩ id c).rc ≠ .ok) :
      RefreshRun H E settings touch nowNs q c [id]
        (refreshTask H E settings touch ⟨mem, refresh, q.ready⟩ id c)
  /-- Otherwise the loop goes on where the refresh ended. -/
  | turn {q c id mem refresh ids r}
      (hpop : deadlineRefreshPopExpired H q.mem q.refresh nowNs = some (id, mem, refresh))
      (hrc : (refreshTask H E settings touch ⟨mem, refresh, q.ready⟩ id c).rc = .ok)
      (rest : RefreshRun H E settings touch nowNs
        (refreshTask H E settings touch ⟨mem, refresh, q.ready⟩ id c).state
        (refreshTask H E settings touch ⟨mem, refresh, q.ready⟩ id c).cursor ids r) :
      RefreshRun H E settings touch nowNs q c (id :: ids) r

section Runs

variable {H : HeapOps} {E : Env} {settings : DeadlineSettings} {touch : Touch ρ}
  {estimateCost : Bool} {l : List TaskDesc} {q : DeadlineQueue ρ} {c : Cursor}
  {I : Memory → ρ → Prop} {nowNs : UInt64} {ids ids' : List TaskId}
  {r r' : HookResult (DeadlineQueue ρ)}

/-- The loop runs in one way only. -/
theorem RefreshRun.functional (h : RefreshRun H E settings touch nowNs q c ids r)
    (h' : RefreshRun H E settings touch nowNs q c ids' r') : ids = ids' ∧ r = r' := by
  induction h generalizing ids' r' with
  | done hpop =>
    cases h' with
    | done => exact ⟨rfl, rfl⟩
    | failed hpop' => simp [hpop] at hpop'
    | turn hpop' => simp [hpop] at hpop'
  | failed hpop hrc =>
    cases h' with
    | done hpop' => simp [hpop] at hpop'
    | failed hpop' =>
      obtain ⟨rfl, rfl, rfl⟩ := by simpa [hpop] using hpop'
      exact ⟨rfl, rfl⟩
    | turn hpop' hrc' =>
      obtain ⟨rfl, rfl, rfl⟩ := by simpa [hpop] using hpop'
      exact absurd hrc' hrc
  | turn hpop hrc _ ih =>
    cases h' with
    | done hpop' => simp [hpop] at hpop'
    | failed hpop' hrc' =>
      obtain ⟨rfl, rfl, rfl⟩ := by simpa [hpop] using hpop'
      exact absurd hrc hrc'
    | turn hpop' _ rest' =>
      obtain ⟨rfl, rfl, rfl⟩ := by simpa [hpop] using hpop'
      obtain ⟨rfl, rfl⟩ := ih rest'
      exact ⟨rfl, rfl⟩

/-- **The loop ends**: a bound of as many turns as there are due tasks does not cut it
off, and every task that it refreshes was due, once. -/
theorem refreshLoop_run (hH : H.Lawful) (E : Env) (settings : DeadlineSettings)
    (hto : Touches touch I l) {fuel : ℕ} (ht : Tracked estimateCost q.mem q.refresh l)
    (hI : I q.mem q.ready) (hnow : nowNs ≤ (deadlineNow settings E c).1)
    (hfuel : (q.due nowNs).card ≤ fuel) :
    ∃ ids, RefreshRun H E settings touch nowNs q c ids
        (refreshLoop H E settings touch nowNs fuel q c) ∧
      ids.Nodup ∧ ∀ x ∈ ids, x ∈ q.due nowNs := by
  induction fuel generalizing q c with
  | zero =>
    cases hpop : deadlineRefreshPopExpired H q.mem q.refresh nowNs with
    | none => exact ⟨[], .done hpop, List.nodup_nil, by simp⟩
    | some next =>
      obtain ⟨id, mem, refresh⟩ := next
      have hin := (turn_due hH E settings ht hto hI hnow hpop).1
      rw [Finset.card_eq_zero.1 (Nat.le_zero.1 hfuel)] at hin
      simp at hin
  | succ fuel ih =>
    rw [refreshLoop]
    cases hpop : deadlineRefreshPopExpired H q.mem q.refresh nowNs with
    | none => exact ⟨[], .done hpop, List.nodup_nil, by simp⟩
    | some next =>
      obtain ⟨id, mem, refresh⟩ := next
      obtain ⟨-, -, hrc, -, -, htr, hIr, -⟩ := turn_spec hH E settings c ht hto hI hpop
      obtain ⟨hin, hsub⟩ := turn_due hH E settings ht hto hI hnow hpop
      have hlater : nowNs ≤ (deadlineNow settings E
          (refreshTask H E settings touch ⟨mem, refresh, q.ready⟩ id c).cursor).1 :=
        UInt64.le_trans hnow
          (deadlineNow_mono (le_trans deadlineNow_reads (refreshTask_reads _ _ _ _ _ _ _)))
      obtain ⟨ids, hrun, hnodup, hdue⟩ := ih htr hIr hlater (by
        have hlt := Finset.card_erase_lt_of_mem hin
        have hle := Finset.card_le_card hsub
        omega)
      dsimp only
      rw [if_neg (by rw [hrc]; simp)]
      refine ⟨id :: ids, .turn hpop hrc hrun, List.nodup_cons.2 ⟨fun h => ?_, hnodup⟩, ?_⟩
      · exact (Finset.mem_erase.1 (hsub (hdue id h))).1 rfl
      · intro x hx
        rcases List.mem_cons.1 hx with rfl | hx
        · exact hin
        · exact Finset.mem_of_mem_erase (hsub (hdue x hx))

/-- What a pass that reads the expiry time at the cursor `c` has to do to these ready
tasks: it ends, with the result of `refreshExpired`, and however it ran, no task was
refreshed twice and what still waits for a refresh does so for a later time. -/
structure PassEnds (H : HeapOps) (E : Env) (settings : DeadlineSettings) (touch : Touch ρ)
    (q : DeadlineQueue ρ) (c : Cursor) (ready : List TaskId) : Prop where
  ends : ∃ ids, RefreshRun H E settings touch (deadlineNow settings E c).1 q
    (deadlineNow settings E c).2 ids (refreshExpired H E settings touch q c)
  once : ∀ ids r, RefreshRun H E settings touch (deadlineNow settings E c).1 q
    (deadlineNow settings E c).2 ids r →
      r.rc = .ok ∧ ids.Nodup ∧ (∀ x ∈ ids, x ∈ ready) ∧
        ∀ x ∈ r.state.refresh.items, (deadlineNow settings E c).1 < (r.state.mem x).nextRefreshNs

theorem PassEnds.mono {ready ready' : List TaskId} (h : PassEnds H E settings touch q c ready)
    (hready : ∀ x ∈ ready, x ∈ ready') : PassEnds H E settings touch q c ready' := by
  refine ⟨h.ends, fun ids r hrun => ?_⟩
  obtain ⟨hrc, hnodup, hids, hlater⟩ := h.once ids r hrun
  exact ⟨hrc, hnodup, fun x hx => hready x (hids x hx), hlater⟩

/-- **The refresh pass ends.** -/
theorem refreshExpired_ends (hH : H.Lawful) (E : Env) (settings : DeadlineSettings) (c : Cursor)
    (hto : Touches touch I l) (ht : Tracked estimateCost q.mem q.refresh l)
    (hI : I q.mem q.ready) : PassEnds H E settings touch q c (taskIds l) := by
  obtain ⟨ids, hrun, hnodup, hdue⟩ := refreshLoop_run hH E settings hto ht hI
    deadlineNow_le_next (due_card_le q _)
  obtain ⟨hrc, -, -, -, hlater⟩ := refreshLoop_spec hH E settings hto (fun _ _ => True)
    (fun _ _ _ _ _ _ _ _ _ => trivial) trivial ht hI deadlineNow_le_next (due_card_le q _)
  refine ⟨⟨ids, hrun⟩, fun ids' r hrun' => ?_⟩
  obtain ⟨rfl, rfl⟩ := hrun.functional hrun'
  refine ⟨hrc, hnodup, fun x hx => ?_, hlater⟩
  have hin := hdue x hx
  rw [due, Finset.mem_filter, List.mem_toFinset] at hin
  exact ht.items.2 x hin.1

end Runs

end DeadlineQueue

end QhwScheduler
