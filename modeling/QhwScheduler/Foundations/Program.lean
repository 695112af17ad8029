import Mathlib.Tactic

/-!
# Programs on a shared device

A program works on its own state between its visits to a device that it shares
with others; a visit is one indivisible section, which answers.

* `Program` — what is left to do: a result, or a section and what follows its
  answer.
* `Program.run` — the program without anyone else at the device.
* `Program.bind`, `Program.run_bind` — one program after the other.
-/

namespace Foundations

/-- A program with sections `X`, answers `A` and result `α`. -/
inductive Program (X A α : Type) where
  | done (result : α)
  | enter (x : X) (next : A → Program X A α)

namespace Program

variable {X A D α β : Type}

/-- The run in which nobody else visits the device. -/
def run (exec : X → D → A × D) : Program X A α → D → α × D
  | .done result, d => (result, d)
  | .enter x next, d => run exec (next (exec x d).1) (exec x d).2

/-- One program after the other. -/
def bind : Program X A α → (α → Program X A β) → Program X A β
  | .done result, f => f result
  | .enter x next, f => .enter x fun a => (next a).bind f

variable {exec : X → D → A × D}

@[simp] theorem run_done (a : α) (d : D) : (done a : Program X A α).run exec d = (a, d) := rfl

@[simp] theorem run_enter (x : X) (next : A → Program X A α) (d : D) :
    (enter x next).run exec d = (next (exec x d).1).run exec (exec x d).2 := rfl

@[simp] theorem run_bind (p : Program X A α) (f : α → Program X A β) (d : D) :
    (p.bind f).run exec d = (f (p.run exec d).1).run exec (p.run exec d).2 := by
  induction p generalizing d with
  | done a => rfl
  | enter x next ih => exact ih _ _

end Program

end Foundations
