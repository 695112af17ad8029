import Mathlib.Tactic

/-!
# Runs of a transition function

A run is the list of the inputs it consumes, one for each step.

* `run` — the state a run ends in.
* `Along` — every step of the run meets a condition on the state before it and
  its input.
* `Throughout` — every state of the run has a property.
* `run_invariant` — what one step keeps, a run keeps; `run_invariant_along` for a
  step that keeps it under a condition; `along_of_invariant` — what an invariant
  implies of each step.
* `outputs`, `outputs_eq` — what a run says, and two functions whose steps keep a
  relation and say the same.
* `Runs`, `run_refines` — runs of a machine that may choose its steps, and a function
  whose steps are all among them.
-/

namespace Foundations

variable {S S' I O : Type*} {step : S → I → S} {step' : S' → I → S'}

/-- The state after the inputs. -/
def run (step : S → I → S) (s : S) (is : List I) : S := is.foldl step s

@[simp] theorem run_nil (s : S) : run step s [] = s := rfl

@[simp] theorem run_cons (s : S) (i : I) (is : List I) :
    run step s (i :: is) = run step (step s i) is := rfl

theorem run_append (s : S) (is js : List I) :
    run step s (is ++ js) = run step (run step s is) js := List.foldl_append

/-- Every step meets the condition. -/
def Along (step : S → I → S) (ok : S → I → Prop) : S → List I → Prop
  | _, [] => True
  | s, i :: is => ok s i ∧ Along step ok (step s i) is

theorem along_append {ok : S → I → Prop} {s : S} {is js : List I} :
    Along step ok s (is ++ js) ↔ Along step ok s is ∧ Along step ok (run step s is) js := by
  induction is generalizing s with
  | nil => simp [Along]
  | cons i is ih => simp only [List.cons_append, Along, run_cons, ih, and_assoc]

/-- Every state from the first to the last has the property. -/
def Throughout (step : S → I → S) (p : S → Prop) : S → List I → Prop
  | s, [] => p s
  | s, i :: is => p s ∧ Throughout step p (step s i) is

theorem Throughout.head {p : S → Prop} {s : S} {is : List I} (h : Throughout step p s is) : p s := by
  cases is with
  | nil => exact h
  | cons i is => exact h.1

theorem Throughout.last {p : S → Prop} {s : S} {is : List I} (h : Throughout step p s is) :
    p (run step s is) := by
  induction is generalizing s with
  | nil => exact h
  | cons i is ih => exact ih h.2

/-- An invariant of the steps that meet the condition holds at the end of every
run whose steps all meet it. -/
theorem run_invariant_along {ok : S → I → Prop} {motive : S → Prop}
    (hstep : ∀ s i, motive s → ok s i → motive (step s i)) {s : S} {is : List I} (hs : motive s)
    (hok : Along step ok s is) : motive (run step s is) := by
  induction is generalizing s with
  | nil => exact hs
  | cons i is ih => exact ih (hstep s i hs hok.1) hok.2

/-- An invariant of every step holds at the end of every run. -/
theorem run_invariant {motive : S → Prop} (hstep : ∀ s i, motive s → motive (step s i)) {s : S}
    (hs : motive s) (is : List I) : motive (run step s is) := by
  induction is generalizing s with
  | nil => exact hs
  | cons i is ih => exact ih (hstep s i hs)

/-- What an invariant implies of every step holds along every run. -/
theorem along_of_invariant {ok : S → I → Prop} {motive : S → Prop}
    (hok : ∀ s i, motive s → ok s i) (hstep : ∀ s i, motive s → motive (step s i)) {s : S}
    (hs : motive s) (is : List I) : Along step ok s is := by
  induction is generalizing s with
  | nil => trivial
  | cons i is ih => exact ⟨hok s i hs, ih (hstep s i hs)⟩

/-- What an invariant makes equivalent of every step is equivalent along every run. -/
theorem along_iff_of_invariant {ok ok' : S → I → Prop} {motive : S → Prop}
    (hok : ∀ s i, motive s → (ok s i ↔ ok' s i)) (hstep : ∀ s i, motive s → motive (step s i)) {s : S}
    (hs : motive s) (is : List I) : Along step ok s is ↔ Along step ok' s is := by
  induction is generalizing s with
  | nil => exact Iff.rfl
  | cons i is ih => exact and_congr (hok s i hs) (ih (hstep s i hs))

/-- What the steps say, one after the other. -/
def outputs (step : S → I → S) (out : S → I → O) : S → List I → List O
  | _, [] => []
  | s, i :: is => out s i :: outputs step out (step s i) is

/-- Two runs say the same when every step says the same and keeps the states related. -/
theorem outputs_eq {out : S → I → O} {out' : S' → I → O} {ok : I → Prop} {R : S → S' → Prop}
    (hstep : ∀ s s' i, R s s' → ok i → out s i = out' s' i ∧ R (step s i) (step' s' i))
    {s : S} {s' : S'} (hs : R s s') {is : List I} (his : ∀ i ∈ is, ok i) :
    outputs step out s is = outputs step' out' s' is := by
  induction is generalizing s s' with
  | nil => rfl
  | cons i is ih =>
    obtain ⟨hout, hnext⟩ := hstep s s' i hs (his i List.mem_cons_self)
    have hrest := ih hnext fun j hj => his j (List.mem_cons_of_mem i hj)
    show out s i :: _ = out' s' i :: _
    rw [hout, hrest]

/-- The runs of a machine that may choose: what goes in, what comes out, and the states at
both ends. -/
inductive Runs (spec : S → I → O → S → Prop) : S → List I → List O → S → Prop where
  | nil {s} : Runs spec s [] [] s
  | cons {s i o s' is os s''} (head : spec s i o s') (tail : Runs spec s' is os s'') :
      Runs spec s (i :: is) (o :: os) s''

/-- **Refinement.**  When every step answers as a step of the other machine may, and keeps
the states related, every run is a run of the other machine. -/
theorem run_refines {out : S → I → O} {spec : S' → I → O → S' → Prop} {R : S → S' → Prop}
    (hstep : ∀ s s' i, R s s' → ∃ s'', spec s' i (out s i) s'' ∧ R (step s i) s'')
    {s : S} {s' : S'} (hs : R s s') (is : List I) :
    ∃ s'', Runs spec s' is (outputs step out s is) s'' ∧ R (run step s is) s'' := by
  induction is generalizing s s' with
  | nil => exact ⟨s', .nil, hs⟩
  | cons i is ih =>
    obtain ⟨mid, hspec, hmid⟩ := hstep s s' i hs
    obtain ⟨last, hruns, hlast⟩ := ih hmid
    exact ⟨last, .cons hspec hruns, hlast⟩

end Foundations
