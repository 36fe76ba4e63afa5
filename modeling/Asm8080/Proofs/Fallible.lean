import Mathlib.Tactic.Common

/-!
# Computations that may fail

Reading and assembling are computations that give a result or a failure. The facts here take such a
computation apart into its steps.

## Main results

* `Asm8080.bind_eq_ok_iff` — a computation in two steps gives a result when both steps do.
* `Asm8080.forM_eq_ok_iff` — a computation for each element of a list succeeds when each does.
* `Asm8080.toOption_bind` — the same when it does not matter why a step failed.
-/

set_option autoImplicit false

namespace Asm8080

variable {ε α β : Type}

/-- A computation in two steps gives a result exactly when both steps do. -/
lemma bind_eq_ok_iff {x : Except ε α} {f : α → Except ε β} {b : β} :
    x >>= f = .ok b ↔ ∃ a, x = .ok a ∧ f a = .ok b := by
  cases x with
  | error e => simp [bind, Except.bind]
  | ok a => simp [bind, Except.bind]

/-- The image of a result is a result of the image. -/
lemma map_eq_ok_iff {x : Except ε α} {f : α → β} {b : β} :
    f <$> x = .ok b ↔ ∃ a, x = .ok a ∧ f a = b := by
  cases x with
  | error e => simp [Functor.map, Except.map]
  | ok a => simp [Functor.map, Except.map]

/-- A computation with an option that may be missing gives the default, or a result for the value
that is there. -/
lemma elim_eq_ok_iff {x : Option α} {f : α → Except ε β} {b c : β} :
    x.elim (.ok b) f = .ok c ↔ (x = none ∧ b = c) ∨ ∃ a ∈ x, f a = .ok c := by
  cases x <;> simp

/-- A computation for each element of a list, made for its failures, gives none exactly when no
element fails. -/
lemma forM_eq_ok_iff {f : α → Except ε Unit} {xs : List α} :
    xs.forM f = .ok () ↔ ∀ x ∈ xs, f x = .ok () := by
  induction xs with
  | nil => exact iff_of_true rfl (by simp)
  | cons x xs ih =>
    rw [List.forall_mem_cons, ← ih]
    refine bind_eq_ok_iff.trans ⟨?_, ?_⟩
    · rintro ⟨_, hx, hxs⟩
      exact ⟨hx, hxs⟩
    · rintro ⟨hx, hxs⟩
      exact ⟨(), hx, hxs⟩

/-- A computation in two steps, forgetting why one of them failed. -/
lemma toOption_bind (x : Except ε α) (f : α → Except ε β) :
    (x >>= f).toOption = x.toOption.bind fun a => (f a).toOption := by
  cases x <;> rfl

/-- A computation gives a result exactly when forgetting the failure leaves it. -/
lemma eq_ok_iff_toOption {x : Except ε α} {a : α} : x = .ok a ↔ x.toOption = some a := by
  cases x with
  | error e => simp [Except.toOption]
  | ok b => simp [Except.toOption]

end Asm8080
