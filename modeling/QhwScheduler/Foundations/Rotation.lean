import Mathlib.Data.List.Nodup
import QhwScheduler.Foundations.Run

/-!
# Rotations

Named entries in groups, and a ring of the groups that are not empty.  An entry
is taken from the group at the front of the ring, and that group goes to the
back; a group enters at the back with its first entry and drops out with its last.

* `Rotation`, `Turn`, `turn` — the machine; `Rotation.Ok` — its invariant.
* `between_visits` — between two visits of one group every other group that stays
  in the ring is visited exactly once, any other at most once.
* `taken_sublist` — the entries of a group are taken in the order of arrival.
-/

namespace Foundations

variable {ν κ : Type} [DecidableEq ν] [DecidableEq κ]

/-- The entries with their groups, in the order of arrival, and the ring. -/
structure Rotation (ν κ : Type) where
  waiting : List (ν × κ)
  ring : List κ

/-- One step. -/
inductive Turn (ν κ : Type) where
  | idle
  | arrive (x : ν) (g : κ)
  | take
  | leave (x : ν)

namespace Rotation

/-- The names of the entries. -/
def names (s : Rotation ν κ) : List ν := s.waiting.map Prod.fst

/-- The groups of the entries. -/
def groups (s : Rotation ν κ) : List κ := s.waiting.map Prod.snd

/-- The names of the entries of a group. -/
def members (s : Rotation ν κ) (g : κ) : List ν :=
  (s.waiting.filter (·.2 = g)).map Prod.fst

/-- The entry to be taken: the first one of the group at the front of the ring. -/
def next (s : Rotation ν κ) : Option (ν × κ) :=
  match s.ring with
  | [] => none
  | g :: _ => s.waiting.find? (·.2 = g)

/-- The entries without a name. -/
def without (s : Rotation ν κ) (x : ν) : List (ν × κ) := s.waiting.filter (·.1 ≠ x)

/-- A new entry. -/
def arrive (s : Rotation ν κ) (x : ν) (g : κ) : Rotation ν κ :=
  ⟨s.waiting ++ [(x, g)], if g ∈ s.ring then s.ring else s.ring ++ [g]⟩

/-- An entry drops out, wherever it stands. -/
def leave (s : Rotation ν κ) (x : ν) : Rotation ν κ :=
  ⟨s.without x, s.ring.filter (· ∈ (s.without x).map Prod.snd)⟩

/-- This entry is taken; its group goes to the back of the ring if it has others. -/
def serve (s : Rotation ν κ) (e : ν × κ) : Rotation ν κ :=
  ⟨s.without e.1, s.ring.tail ++ if e.2 ∈ (s.without e.1).map Prod.snd then [e.2] else []⟩

/-- The next entry is taken. -/
def take (s : Rotation ν κ) : Rotation ν κ :=
  match s.next with
  | none => s
  | some e => s.serve e

/-- One step of the machine. -/
def turn (s : Rotation ν κ) : Turn ν κ → Rotation ν κ
  | .idle => s
  | .arrive x g => s.arrive x g
  | .take => s.take
  | .leave x => s.leave x

/-- The entry a step takes. -/
def taken (s : Rotation ν κ) : Turn ν κ → Option (ν × κ)
  | .take => s.next
  | _ => none

/-- An arriving entry has a new name. -/
def Allowed (s : Rotation ν κ) : Turn ν κ → Prop
  | .arrive x _ => x ∉ s.names
  | _ => True

/-- Distinct names, and a ring of exactly the groups that are not empty. -/
structure Ok (s : Rotation ν κ) : Prop where
  names : s.names.Nodup
  nodup : s.ring.Nodup
  mem_ring : ∀ g, g ∈ s.ring ↔ g ∈ s.groups

section

variable {s : Rotation ν κ} {x : ν} {g h : κ} {e : ν × κ} {i : Turn ν κ}

omit [DecidableEq ν] [DecidableEq κ] in
theorem ok_empty : Ok (⟨[], []⟩ : Rotation ν κ) :=
  ⟨List.nodup_nil, List.nodup_nil, by simp [Rotation.groups]⟩

omit [DecidableEq ν] in
theorem next_mem (h : s.next = some e) : e ∈ s.waiting ∧ s.ring = e.2 :: s.ring.tail := by
  unfold next at h
  split at h
  · simp at h
  · next g rest hring =>
    have hg : e.2 = g := by simpa using List.find?_some h
    exact ⟨List.mem_of_find?_eq_some h, by rw [hring, hg]; rfl⟩

omit [DecidableEq ν] in
/-- The front of the ring always has an entry to take. -/
theorem Ok.next_isSome (hs : Ok s) (hring : s.ring ≠ []) : s.next.isSome := by
  unfold next
  split
  · next hnil => exact absurd hnil hring
  · next g rest hring =>
    have hg : g ∈ s.groups := (hs.mem_ring g).1 (by simp [hring])
    obtain ⟨e, he, rfl⟩ := List.mem_map.1 hg
    rw [List.find?_isSome]
    exact ⟨e, he, by simp⟩

omit [DecidableEq ν] in
theorem Ok.next_eq_none_iff (hs : Ok s) : s.next = none ↔ s.waiting = [] := by
  constructor
  · intro hnone
    by_contra hne
    obtain ⟨e, rest, hw⟩ := List.exists_cons_of_ne_nil hne
    have hring : s.ring ≠ [] := by
      intro hnil
      have := (hs.mem_ring e.2).2 (by simp [groups, hw])
      simp [hnil] at this
    have := hs.next_isSome hring
    simp [hnone] at this
  · intro hnil
    unfold next
    split
    · rfl
    · simp [hnil]

omit [DecidableEq κ] in
theorem names_without_sublist : ((s.without x).map Prod.fst).Sublist s.names :=
  List.filter_sublist.map _

omit [DecidableEq κ] in
theorem groups_without {g : κ} (hg : g ∈ (s.without x).map Prod.snd) : g ∈ s.groups :=
  (List.filter_sublist.map _).subset hg

omit [DecidableEq κ] in
/-- Removing one entry empties no group but its own. -/
theorem mem_groups_without (hs : Ok s) (he : e ∈ s.waiting) (hne : g ≠ e.2) :
    g ∈ (s.without e.1).map Prod.snd ↔ g ∈ s.groups := by
  refine ⟨groups_without, fun hg => ?_⟩
  obtain ⟨f, hf, rfl⟩ := List.mem_map.1 hg
  refine List.mem_map_of_mem (List.mem_filter.2 ⟨hf, ?_⟩)
  simp only [ne_eq, decide_not, Bool.not_eq_true', decide_eq_false_iff_not]
  intro hfe
  exact hne (by rw [List.inj_on_of_nodup_map hs.names hf he hfe])

omit [DecidableEq ν] in
theorem Ok.arrive (hs : Ok s) (hx : x ∉ s.names) (g : κ) : Ok (s.arrive x g) := by
  have hg : ∀ k, k ∈ (s.arrive x g).groups ↔ k ∈ s.groups ∨ k = g := by
    intro k
    simp [Rotation.arrive, groups]
  refine ⟨?_, ?_, fun k => ?_⟩
  · show ((s.waiting ++ [(x, g)]).map Prod.fst).Nodup
    rw [List.map_append, List.nodup_append]
    refine ⟨hs.names, by simp, ?_⟩
    intro a ha b hb hab
    have hax : a = x := by rw [hab, List.mem_singleton.1 hb]
    exact hx (hax ▸ ha)
  · show (if g ∈ s.ring then s.ring else s.ring ++ [g]).Nodup
    split
    · exact hs.nodup
    · next hg =>
      rw [List.nodup_append]
      refine ⟨hs.nodup, by simp, ?_⟩
      intro a ha b hb hab
      rw [List.mem_singleton.1 hb] at hab
      exact hg (hab ▸ ha)
  · rw [hg, ← hs.mem_ring]
    show k ∈ (if g ∈ s.ring then s.ring else s.ring ++ [g]) ↔ _
    split
    · next hin =>
      constructor
      · exact Or.inl
      · rintro (hk | rfl)
        · exact hk
        · exact hin
    · simp

theorem Ok.leave (hs : Ok s) (x : ν) : Ok (s.leave x) := by
  refine ⟨hs.names.sublist names_without_sublist, hs.nodup.filter _, fun k => ?_⟩
  show k ∈ s.ring.filter _ ↔ k ∈ (s.without x).map Prod.snd
  rw [List.mem_filter, decide_eq_true_iff, hs.mem_ring]
  exact ⟨And.right, fun hk => ⟨groups_without hk, hk⟩⟩

theorem Ok.serve (hs : Ok s) (he : s.next = some e) : Ok (s.serve e) := by
  obtain ⟨hmem, hring⟩ := next_mem he
  have hnd := hs.nodup
  rw [hring, List.nodup_cons] at hnd
  refine ⟨hs.names.sublist names_without_sublist, ?_, fun k => ?_⟩
  · show (s.ring.tail ++ if e.2 ∈ (s.without e.1).map Prod.snd then [e.2] else []).Nodup
    split
    · rw [List.nodup_append]
      refine ⟨hnd.2, by simp, ?_⟩
      intro a ha b hb hab
      rw [List.mem_singleton.1 hb] at hab
      exact hnd.1 (hab ▸ ha)
    · rw [List.append_nil]
      exact hnd.2
  · have hk := hs.mem_ring k
    rw [hring, List.mem_cons] at hk
    show k ∈ s.ring.tail ++ (if e.2 ∈ (s.without e.1).map Prod.snd then [e.2] else []) ↔
      k ∈ (s.without e.1).map Prod.snd
    rw [List.mem_append]
    by_cases hke : k = e.2
    · rw [hke] at hk ⊢
      split
      · next hin => simp only [List.mem_singleton, or_true, true_iff]; exact hin
      · next hout =>
        simp only [List.not_mem_nil, or_false]
        exact ⟨fun h => absurd h hnd.1, fun h => absurd h hout⟩
    · rw [mem_groups_without hs hmem hke, ← hk]
      split <;> simp [hke]

theorem ok_turn (hs : Ok s) (hi : s.Allowed i) : Ok (s.turn i) := by
  cases i with
  | idle => exact hs
  | arrive x g => exact hs.arrive hi g
  | leave x => exact hs.leave x
  | take =>
    show Ok s.take
    unfold Rotation.take
    split
    · exact hs
    · next e he => exact hs.serve he

end

/-! ## Groups and their members -/

section

variable {s : Rotation ν κ} {x : ν} {g k : κ}

omit [DecidableEq ν] in
theorem mem_members : x ∈ s.members g ↔ (x, g) ∈ s.waiting := by
  simp [members]

omit [DecidableEq ν] [DecidableEq κ] in
theorem mem_groups : g ∈ s.groups ↔ ∃ x, (x, g) ∈ s.waiting := by
  simp [groups]

omit [DecidableEq ν] [DecidableEq κ] in
theorem mem_names : x ∈ s.names ↔ ∃ g, (x, g) ∈ s.waiting := by
  simp [names]

omit [DecidableEq ν] in
theorem members_eq_nil : s.members g = [] ↔ g ∉ s.groups := by
  rw [mem_groups, List.eq_nil_iff_forall_not_mem, not_exists]
  exact forall_congr' fun x => not_congr mem_members

omit [DecidableEq ν] in
theorem Ok.members_nodup (hs : Ok s) (g : κ) : (s.members g).Nodup :=
  hs.names.sublist (List.filter_sublist.map _)

omit [DecidableEq ν] [DecidableEq κ] in
/-- A name has one group. -/
theorem Ok.group_eq (hs : Ok s) (hg : (x, g) ∈ s.waiting) (hk : (x, k) ∈ s.waiting) : g = k :=
  congrArg Prod.snd (List.inj_on_of_nodup_map hs.names hg hk rfl)

theorem members_without (x : ν) :
    ((s.without x).filter (·.2 = g)).map Prod.fst = (s.members g).filter (· ≠ x) := by
  rw [members, without, List.filter_map, List.filter_filter, List.filter_filter]
  congr 1
  exact List.filter_congr fun a _ => Bool.and_comm _ _

omit [DecidableEq ν] in
theorem members_arrive : (s.arrive x k).members g = s.members g ++ if k = g then [x] else [] := by
  show ((s.waiting ++ [(x, k)]).filter _).map _ = _
  rw [List.filter_append, List.map_append]
  by_cases hk : k = g
  · simp [hk, members]
  · simp [hk, members]

theorem members_leave : (s.leave x).members g = (s.members g).filter (· ≠ x) := members_without x

/-- A name that is not there is not missed. -/
theorem leave_of_not_mem (hs : Ok s) (hx : x ∉ s.names) : s.leave x = s := by
  have hw : s.without x = s.waiting := by
    rw [without, List.filter_eq_self]
    rintro ⟨y, k⟩ he
    have hne : y ≠ x := fun h => hx (h ▸ mem_names.2 ⟨k, he⟩)
    simpa using hne
  have hr : s.ring.filter (· ∈ (s.without x).map Prod.snd) = s.ring := by
    rw [hw, List.filter_eq_self]
    exact fun k hk => decide_eq_true ((hs.mem_ring k).1 hk)
  rw [leave, hr, hw]

/-- The ring loses the group of an entry that leaves if that was its last one. -/
theorem leave_ring (hs : Ok s) (hx : (x, g) ∈ s.waiting) :
    (s.leave x).ring = if g ∈ (s.leave x).groups then s.ring else s.ring.erase g := by
  show s.ring.filter _ = _
  split
  · next hin =>
    rw [List.filter_eq_self]
    intro k hk
    refine decide_eq_true ?_
    by_cases hkg : k = g
    · rw [hkg]
      exact hin
    · exact (mem_groups_without hs hx hkg).2 ((hs.mem_ring k).1 hk)
  · next hout =>
    rw [hs.nodup.erase_eq_filter]
    refine List.filter_congr fun k hk => ?_
    by_cases hkg : k = g
    · rw [hkg, decide_eq_false (by exact hout)]
      simp
    · rw [decide_eq_true ((mem_groups_without hs hx hkg).2 ((hs.mem_ring k).1 hk))]
      simp [hkg]

end

/-! ## Visits -/

/-- The groups a run visits, in order. -/
def visits : Rotation ν κ → List (Turn ν κ) → List κ
  | _, [] => []
  | s, i :: is => ((s.taken i).map Prod.snd).toList ++ visits (s.turn i) is

/-- How a run that started after a visit of `g` stands towards another group `h`
that was visited `n` times since: `g` divides the ring into the groups that are
still due and those that are not. -/
structure Between (g h : κ) (s : Rotation ν κ) (n : ℕ) : Prop where
  split : ∃ due done, s.ring = due ++ g :: done ∧ (h ∈ due → n = 0)
  at_most : n ≤ 1

/-- The same for a group that never was empty since. -/
def Steadily (g h : κ) (s : Rotation ν κ) (n : ℕ) : Prop :=
  ∃ due done, s.ring = due ++ g :: done ∧ ((h ∈ due ∧ n = 0) ∨ (h ∈ done ∧ n = 1))

section

variable {s : Rotation ν κ} {g h : κ} {n : ℕ} {i : Turn ν κ}

omit [DecidableEq κ] in
/-- Filtering a ring keeps the division at a group that stays. -/
theorem filter_divided {due done : List κ} {p : κ → Bool} (hg : p g = true) :
    (due ++ g :: done).filter p = due.filter p ++ g :: done.filter p := by
  rw [List.filter_append, List.filter_cons_of_pos hg]

/-- What a step that does not visit `g` and leaves it occupied does to the ring
divided at `g`: it filters both parts, appends to the second one, or moves the
front of the first one to the end of the second. -/
theorem turn_divided {due done : List κ}
    (hring : s.ring = due ++ g :: done) (hnot : ∀ e, s.taken i = some e → e.2 ≠ g)
    (hg : g ∈ (s.turn i).groups) :
    (s.taken i = none ∧ ∃ p : κ → Bool, (∀ k ∈ (s.turn i).groups, p k = true) ∧
      ∃ more, (∀ k ∈ more, k ∉ s.ring) ∧
        (s.turn i).ring = due.filter p ++ g :: (done.filter p ++ more)) ∨
    ∃ e rest, s.taken i = some e ∧ due = e.2 :: rest ∧
      (s.turn i).ring = rest ++ g :: (done ++ if e.2 ∈ (s.turn i).groups then [e.2] else []) := by
  cases i with
  | idle => exact Or.inl ⟨rfl, fun _ => true, by simp, [], by simp, by simpa [turn] using hring⟩
  | arrive x k =>
    refine Or.inl ⟨rfl, fun _ => true, by simp, if k ∈ s.ring then [] else [k], ?_, ?_⟩
    · split
      · simp
      · next hk => simpa using hk
    · show (if k ∈ s.ring then s.ring else s.ring ++ [k]) = _
      split <;> simp [hring]
  | leave x =>
    refine Or.inl ⟨rfl, fun k => decide (k ∈ (s.without x).map Prod.snd), ?_, [], by simp, ?_⟩
    · intro k hk
      exact decide_eq_true hk
    · show s.ring.filter _ = _
      rw [hring, List.append_nil]
      exact filter_divided (decide_eq_true hg)
  | take =>
    cases hnext : s.next with
    | none =>
      refine Or.inl ⟨hnext, fun _ => true, by simp, [], by simp, ?_⟩
      simpa [turn, take, hnext] using hring
    | some e =>
      have hne : e.2 ≠ g := hnot e hnext
      obtain ⟨-, hfront⟩ := next_mem hnext
      cases due with
      | nil =>
        rw [hring, List.nil_append] at hfront
        exact absurd (List.cons.inj hfront).1.symm hne
      | cons a rest =>
        have ha : a = e.2 := by
          rw [hring, List.cons_append] at hfront
          exact (List.cons.inj hfront).1
        refine Or.inr ⟨e, rest, hnext, by rw [ha], ?_⟩
        have hturn : s.turn .take = s.serve e := by simp [turn, take, hnext]
        rw [hturn]
        show s.ring.tail ++ _ = _
        rw [hring]
        by_cases hin : e.2 ∈ (s.without e.1).map Prod.snd <;> simp [serve, groups, hin]

theorem Between.turn (hs : Ok s) (hb : Between g h s n)
    (hnot : ∀ e, s.taken i = some e → e.2 ≠ g) (hg : g ∈ (s.turn i).groups) :
    Between g h (s.turn i) (n + ((s.taken i).map Prod.snd).toList.count h) := by
  obtain ⟨⟨due, done, hring, hdue⟩, hn⟩ := hb
  have hnd := hs.nodup
  rw [hring] at hnd
  rcases turn_divided hring hnot hg
    with ⟨hnone, p, -, more, -, hring'⟩ | ⟨e, rest, hsome, rfl, hring'⟩
  · rw [hnone]
    refine ⟨⟨_, _, hring', fun hin => ?_⟩, by simpa using hn⟩
    simpa using hdue (List.mem_of_mem_filter hin)
  · rw [hsome]
    by_cases he : e.2 = h
    · have h0 : n = 0 := hdue (by simp [he])
      have hout : h ∉ rest := by
        rw [List.cons_append, List.nodup_cons, he] at hnd
        exact fun hin => hnd.1 (List.mem_append_left _ hin)
      refine ⟨⟨_, _, hring', fun hin => absurd hin hout⟩, ?_⟩
      simp [h0, he]
    · refine ⟨⟨_, _, hring', fun hin => ?_⟩, ?_⟩
      · simpa [List.count_cons, he] using hdue (List.mem_cons_of_mem _ hin)
      · simpa [List.count_cons, he] using hn

theorem Steadily.turn (hs : Ok s) (hb : Steadily g h s n)
    (hnot : ∀ e, s.taken i = some e → e.2 ≠ g) (hg : g ∈ (s.turn i).groups)
    (hh : h ∈ (s.turn i).groups) :
    Steadily g h (s.turn i) (n + ((s.taken i).map Prod.snd).toList.count h) := by
  obtain ⟨due, done, hring, hcase⟩ := hb
  have hnd := hs.nodup
  rw [hring] at hnd
  rcases turn_divided hring hnot hg
    with ⟨hnone, p, hp, more, -, hring'⟩ | ⟨e, rest, hsome, rfl, hring'⟩
  · rw [hnone]
    refine ⟨_, _, hring', ?_⟩
    rcases hcase with ⟨hin, h0⟩ | ⟨hin, h1⟩
    · exact Or.inl ⟨List.mem_filter.2 ⟨hin, hp h hh⟩, by simpa using h0⟩
    · exact Or.inr ⟨List.mem_append_left _ (List.mem_filter.2 ⟨hin, hp h hh⟩), by simpa using h1⟩
  · rw [hsome]
    refine ⟨_, _, hring', ?_⟩
    by_cases he : e.2 = h
    · right
      have hfront : h ∈ e.2 :: rest := by simp [he]
      rcases hcase with ⟨-, h0⟩ | ⟨hin, -⟩
      · rw [he, if_pos hh]
        exact ⟨by simp, by simp [h0, he]⟩
      · rw [List.nodup_append] at hnd
        exact absurd rfl (hnd.2.2 h hfront h (List.mem_cons_of_mem _ hin))
    · rcases hcase with ⟨hin, h0⟩ | ⟨hin, h1⟩
      · exact Or.inl ⟨(List.mem_cons.1 hin).resolve_left (Ne.symm he),
          by simpa [List.count_cons, he] using h0⟩
      · exact Or.inr ⟨List.mem_append_left _ hin, by simpa [List.count_cons, he] using h1⟩

/-- The visits of `h` over a run that never visits `g` and never empties it. -/
theorem between_run {is : List (Turn ν κ)} (hs : Ok s) (hallowed : Along turn Allowed s is)
    (hnot : g ∉ visits s is) (hg : Throughout turn (fun s => g ∈ s.groups) s is)
    (hb : Between g h s n) :
    Between g h (run turn s is) (n + (visits s is).count h) ∧
      (Throughout turn (fun s => h ∈ s.groups) s is → Steadily g h s n →
        Steadily g h (run turn s is) (n + (visits s is).count h)) := by
  induction is generalizing s n with
  | nil => exact ⟨hb, fun _ hst => hst⟩
  | cons i is ih =>
    rw [visits, List.mem_append, not_or] at hnot
    have htake : ∀ e, s.taken i = some e → e.2 ≠ g := by
      intro e he heg
      exact hnot.1 (by simp [he, heg])
    have hgs := hg.2.head
    rw [visits, List.count_append, ← Nat.add_assoc, run_cons]
    obtain ⟨h₁, h₂⟩ := ih (ok_turn hs hallowed.1) hallowed.2 hnot.2 hg.2
      (hb.turn hs htake hgs)
    refine ⟨h₁, fun hh hst => h₂ hh.2 ?_⟩
    exact hst.turn hs htake hgs hh.2.head

/-- **Fairness.**  Between two visits of a group that is not empty in between,
every other group is visited at most once, and exactly once if it is not empty
in between either. -/
theorem between_visits {is : List (Turn ν κ)} {e f : ν × κ} (hs : Ok s)
    (hfirst : s.next = some e) (hallowed : Along turn Allowed (s.serve e) is)
    (hnot : e.2 ∉ visits (s.serve e) is)
    (hg : Throughout turn (fun s => e.2 ∈ s.groups) (s.serve e) is)
    (hsecond : (run turn (s.serve e) is).next = some f) (hfe : f.2 = e.2) (hh : h ≠ e.2) :
    (visits (s.serve e) is).count h ≤ 1 ∧
      (Throughout turn (fun s => h ∈ s.groups) (s.serve e) is →
        (visits (s.serve e) is).count h = 1) := by
  have hok := hs.serve hfirst
  have hring : (s.serve e).ring = s.ring.tail ++ [e.2] := by
    have hin : e.2 ∈ (s.without e.1).map Prod.snd := hg.head
    simp [serve, hin]
  have hb : Between e.2 h (s.serve e) 0 := ⟨⟨_, [], hring, fun _ => rfl⟩, Nat.zero_le _⟩
  obtain ⟨h₁, h₂⟩ := between_run hok hallowed hnot hg hb
  rw [Nat.zero_add] at h₁ h₂
  refine ⟨h₁.at_most, fun hthrough => ?_⟩
  have hst : Steadily e.2 h (s.serve e) 0 := by
    refine ⟨_, [], hring, Or.inl ⟨?_, rfl⟩⟩
    have hin := (hok.mem_ring h).2 hthrough.head
    rw [hring, List.mem_append, List.mem_singleton] at hin
    exact hin.resolve_right hh
  obtain ⟨due, done, hring', hcase⟩ := h₂ hthrough hst
  -- the group that is visited next stands at the front
  obtain ⟨-, hfront⟩ := next_mem hsecond
  have hokr : Ok (run turn (s.serve e) is) := by
    exact run_invariant_along (motive := Ok) (fun s i hs hi => ok_turn hs hi) hok hallowed
  have hnd := hokr.nodup
  rcases hcase with ⟨hin, -⟩ | ⟨-, h1⟩
  · exfalso
    cases due with
    | nil => simp at hin
    | cons a rest =>
      rw [hring', List.cons_append] at hfront hnd
      have ha : a = e.2 := (List.cons.inj hfront).1.trans hfe
      rw [List.nodup_cons, ha] at hnd
      exact hnd.1 (by simp)
  · exact h1

end

/-! ## Order within a group -/

/-- The name a step takes from a group. -/
def takenFrom (g : κ) (s : Rotation ν κ) (i : Turn ν κ) : List ν :=
  match s.taken i with
  | some e => if e.2 = g then [e.1] else []
  | none => []

/-- The names of the entries of a group that a run takes, in order. -/
def takenOf (g : κ) : Rotation ν κ → List (Turn ν κ) → List ν
  | _, [] => []
  | s, i :: is => takenFrom g s i ++ takenOf g (s.turn i) is

/-- The name that arrives in a group with a step. -/
def arrivalIn (g : κ) : Turn ν κ → List ν
  | .arrive x k => if k = g then [x] else []
  | _ => []

/-- The names of the entries of a group that arrive during a run, in order. -/
def arrivalsOf (g : κ) (is : List (Turn ν κ)) : List ν := is.flatMap (arrivalIn g)

section

variable {s : Rotation ν κ} {g : κ} {e : ν × κ}

/-- The entry taken is the first one of its group. -/
theorem members_next (hs : Ok s) (he : s.next = some e) :
    s.members e.2 = e.1 :: (s.serve e).members e.2 := by
  have hfind : s.waiting.find? (·.2 = e.2) = some e := by
    obtain ⟨-, hring⟩ := next_mem he
    unfold next at he
    rw [hring] at he
    exact he
  have hhead : (s.waiting.filter (·.2 = e.2)).head? = some e := by
    rw [List.head?_filter]
    exact hfind
  obtain ⟨rest, hrest⟩ := List.head?_eq_some_iff.1 hhead
  have hmem : s.members e.2 = e.1 :: rest.map Prod.fst := by rw [members, hrest, List.map_cons]
  have hnd := hs.members_nodup e.2
  show s.members e.2 = e.1 :: ((s.without e.1).filter _).map _
  rw [members_without, hmem]
  rw [hmem, List.nodup_cons] at hnd
  congr 1
  rw [List.filter_cons_of_neg (by simp), List.filter_eq_self.2]
  intro a ha
  have hne : a ≠ e.1 := fun h => hnd.1 (h ▸ ha)
  simpa using hne

/-- **The entries of a group are taken in the order of arrival**: with those that
are still there they are a sublist of the arrivals. -/
theorem taken_sublist {is : List (Turn ν κ)} (hs : Ok s) (hallowed : Along turn Allowed s is)
    (g : κ) :
    (takenOf g s is ++ (run turn s is).members g).Sublist (s.members g ++ arrivalsOf g is) := by
  induction is generalizing s with
  | nil => simp [takenOf, arrivalsOf]
  | cons i is ih =>
    have hrec := ih (ok_turn hs hallowed.1) hallowed.2
    have hsplit : arrivalsOf g (i :: is) = arrivalIn g i ++ arrivalsOf g is := List.flatMap_cons
    rw [run_cons, takenOf, hsplit, List.append_assoc]
    cases i with
    | idle => exact hrec
    | arrive x k =>
      have hm : (s.turn (.arrive x k)).members g = s.members g ++ if k = g then [x] else [] :=
        members_arrive
      rw [hm] at hrec
      simpa [takenFrom, taken, arrivalIn] using hrec
    | leave x =>
      have hm : ((s.turn (.leave x)).members g).Sublist (s.members g) := by
        show (((s.without x).filter _).map _).Sublist _
        rw [members_without]
        exact List.filter_sublist
      simpa [takenFrom, taken, arrivalIn] using hrec.trans (hm.append_right _)
    | take =>
      cases hnext : s.next with
      | none =>
        have hturn : s.turn .take = s := by simp [turn, take, hnext]
        rw [hturn] at hrec ⊢
        simpa [takenFrom, taken, arrivalIn, hnext] using hrec
      | some e =>
        have hturn : s.turn .take = s.serve e := by simp [turn, take, hnext]
        rw [hturn] at hrec ⊢
        by_cases he : e.2 = g
        · subst he
          rw [members_next hs hnext]
          simpa [takenFrom, taken, arrivalIn, hnext] using hrec
        · have hm : ((s.serve e).members g).Sublist (s.members g) := by
            show (((s.without e.1).filter _).map _).Sublist _
            rw [members_without]
            exact List.filter_sublist
          simpa [takenFrom, taken, arrivalIn, hnext, he] using hrec.trans (hm.append_right _)

end

end Rotation

end Foundations
