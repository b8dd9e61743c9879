import Mathlib.Data.UInt

/-!
# What the compiled program can do instead of returning

The model translates each C function into a Lean function.  Where the C function
always returns, so does the translation.  Where it may not, the translation
returns in `Except Fault`, and a `Fault` names the way the process leaves the
language: a failed `assert`, a call of `error`, a loop that never ends, a pointer
that does not point at anything, or a division by zero.  There is no fault that
stands for "the model gave up".

Whether `assert` is compiled in is decided by the build and not by the code: the
Makefile of the repository leaves it in, and `-DNDEBUG` takes it out.  A function
that asserts therefore takes the build as a parameter.
-/

namespace NetCosm

universe u

/-- The ways a call may end other than by returning. -/
inductive Fault where
  /-- `assert` failed and the process aborted. -/
  | assertion
  /-- `error` was called. -/
  | fatal
  /-- A loop whose condition can never become false. -/
  | endlessLoop
  /-- A null pointer was dereferenced. -/
  | nullPointer
  /-- An index past the end of an array. -/
  | outOfBounds
  /-- Memory that has been given back to `free` was read or written. -/
  | useAfterFree
  /-- A remainder modulo `0`. -/
  | divisionByZero
  deriving DecidableEq, Repr

/-- The process followed a pointer that does not point at what it should. -/
def Fault.isBadPointer : Fault → Bool
  | .nullPointer => true
  | .outOfBounds => true
  | .useAfterFree => true
  | _ => false

/-- The number of values of an `unsigned`, the type of the bucket counters in
`hash.c`. -/
def unsignedRange : ℕ := 2 ^ 32

/-- A mapped result came from a result. -/
theorem map_eq_ok {α β : Type*} {g : α → β} {x : Except Fault α} {b : β}
    (h : x.map g = .ok b) : ∃ a, x = .ok a ∧ g a = b := by
  cases x with
  | error e => exact absurd h (by simp [Except.map])
  | ok a => exact ⟨a, rfl, Except.ok.inj h⟩

/-- A result that has been tested is there. -/
theorem exists_of_any_toOption {α : Type*} {x : Except Fault α} {p : α → Bool}
    (h : x.toOption.any p = true) : ∃ a, x = .ok a ∧ p a = true := by
  cases x with
  | error e => exact absurd h (by simp [Except.toOption])
  | ok a => exact ⟨a, rfl, h⟩

/-- What is read off a result is read off a value. -/
theorem exists_of_toOption_bind {α β : Type*} {x : Except Fault α} {g : α → Option β} {b : β}
    (h : x.toOption.bind g = some b) : ∃ a, x = .ok a ∧ g a = some b := by
  cases x with
  | error e => exact absurd h (by simp [Except.toOption])
  | ok a => exact ⟨a, rfl, h⟩

/-- A mapped result failed because the result did. -/
theorem map_eq_error {α β : Type*} {g : α → β} {x : Except Fault α} {e : Fault}
    (h : x.map g = .error e) : x = .error e := by
  cases x with
  | error e' => exact congrArg Except.error (Except.error.inj h)
  | ok a => exact absurd h (by simp [Except.map])

/-- A call followed by another returned because both did. -/
theorem bind_eq_ok {α β : Type u} {x : Except Fault α} {g : α → Except Fault β} {b : β}
    (h : x >>= g = .ok b) : ∃ a, x = .ok a ∧ g a = .ok b := by
  cases x with
  | error e => exact absurd h (by simp [bind, Except.bind])
  | ok a => exact ⟨a, rfl, h⟩

/-- A call that returned, followed by another. -/
theorem ok_bind {α β : Type u} (a : α) (g : α → Except Fault β) : (Except.ok a >>= g) = g a := rfl

end NetCosm
