import Mathlib.Tactic

/-!
# Traces with silent steps

A machine whose steps carry a label that an observer sees, or none.

* `Reaches` — the machine gets from one state to another, and the observer sees
  these labels.
* `Reaches.append` — one piece after the other; `Reaches.silently`,
  `Reaches.seen` — pieces of one step.
* `Reaches.keeps` — what every step keeps holds at the end.
* `Reaches.simulate` — **forward simulation**: a machine whose every step another
  machine can follow, with any silent steps of its own, shows no trace that the
  other one cannot show.
-/

namespace Foundations

variable {S S' L : Type*} {step : S → Option L → S → Prop} {step' : S' → Option L → S' → Prop}

/-- The labels seen from one state to another. -/
inductive Reaches (step : S → Option L → S → Prop) : S → List L → S → Prop where
  | refl {s} : Reaches step s [] s
  | silent {s s' ls s''} (head : step s none s') (tail : Reaches step s' ls s'') :
      Reaches step s ls s''
  | visible {s l s' ls s''} (head : step s (some l) s') (tail : Reaches step s' ls s'') :
      Reaches step s (l :: ls) s''

theorem Reaches.silently {s s' : S} (h : step s none s') : Reaches step s [] s' :=
  .silent h .refl

theorem Reaches.seen {s s' : S} {l : L} (h : step s (some l) s') : Reaches step s [l] s' :=
  .visible h .refl

theorem Reaches.append {s s' s'' : S} {ls ms : List L} (h : Reaches step s ls s')
    (h' : Reaches step s' ms s'') : Reaches step s (ls ++ ms) s'' := by
  induction h with
  | refl => exact h'
  | silent head _ ih => exact .silent head (ih h')
  | visible head _ ih => exact .visible head (ih h')

/-- An invariant of every step holds at the end of every run. -/
theorem Reaches.keeps {motive : S → Prop}
    (hstep : ∀ s l s', motive s → step s l s' → motive s') {s s' : S} {ls : List L}
    (h : Reaches step s ls s') (hs : motive s) : motive s' := by
  induction h with
  | refl => exact hs
  | silent head _ ih => exact ih (hstep _ _ _ hs head)
  | visible head _ ih => exact ih (hstep _ _ _ hs head)

/-- **Forward simulation.** -/
theorem Reaches.simulate {R : S → S' → Prop}
    (hstep : ∀ s t l s', R s t → step s l s' → ∃ t', Reaches step' t l.toList t' ∧ R s' t')
    {s s' : S} {t : S'} {ls : List L} (h : Reaches step s ls s') (hR : R s t) :
    ∃ t', Reaches step' t ls t' ∧ R s' t' := by
  induction h generalizing t with
  | refl => exact ⟨t, .refl, hR⟩
  | silent head _ ih =>
    obtain ⟨mid, hmid, hRmid⟩ := hstep _ _ _ _ hR head
    obtain ⟨last, hlast, hRlast⟩ := ih hRmid
    exact ⟨last, hmid.append hlast, hRlast⟩
  | visible head _ ih =>
    obtain ⟨mid, hmid, hRmid⟩ := hstep _ _ _ _ hR head
    obtain ⟨last, hlast, hRlast⟩ := ih hRmid
    exact ⟨last, hmid.append hlast, hRlast⟩

end Foundations
