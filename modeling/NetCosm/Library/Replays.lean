import NetCosm.Library.Readers

/-!
# Reading what was written

A reader that reads what a writer has written does what it would do if it were handed the items one by
one.  `Replays r bs p` says so: with `bs` in front and anything behind, the reader `r` returns if and only
if the computation `p`, which reads nothing, has a result; then it returns that result, and has taken
exactly `bs`.

`Reads` speaks of readers that return, and `Replays` of all: a step that may fail between two reads, on
account of what was read before, is part of `p`.  Which error it is is not kept.

## The rules

* `Replays.bind` --- one reader after another.
* `Replays.andThen` --- a field whose value is known.
* `replays_turns` --- a loop that reads one item a turn.
-/

namespace NetCosm

universe u

open Reader

variable {β σ ε α γ : Type u}

/-- **With `bs` in front, `r` does what `p` does.** -/
def Replays (r : Reader β σ ε α) (bs : List β) (p : StateT σ Option α) : Prop :=
  ∀ rest h, (on r (bs ++ rest) h).toOption = (p h).map fun x => ((x.1, rest), x.2)

/-- A computation without a result. -/
def noResult : StateT σ Option α := fun _ => none

/-- A computation of two steps. -/
theorem stateT_bind_eq_some_iff {p : StateT σ Option α} {q : α → StateT σ Option γ} {h : σ} {x : γ × σ} :
    (p >>= q) h = some x ↔ ∃ a h', p h = some (a, h') ∧ q a h' = some x := by
  show (p h).bind (fun y => q y.1 y.2) = some x ↔ _
  rw [Option.bind_eq_some_iff, Prod.exists]

variable {r : Reader β σ ε α} {f : α → Reader β σ ε γ} {bs cs : List β} {p : StateT σ Option α}
  {q : α → StateT σ Option γ}

/-- The result of a replay. -/
theorem Replays.eq_ok (hr : Replays r bs p) {h h' : σ} {a : α} (hp : p h = some (a, h'))
    (rest : List β) : on r (bs ++ rest) h = .ok ((a, rest), h') := by
  have heq := hr rest h
  rw [hp] at heq
  cases hon : on r (bs ++ rest) h with
  | error e =>
    rw [hon] at heq
    exact absurd heq (by simp [Except.toOption])
  | ok x =>
    rw [hon] at heq
    exact congrArg Except.ok (Option.some.inj heq)

/-- A replay that returns has a result. -/
theorem Replays.of_ok (hr : Replays r bs p) {h : σ} {rest : List β} {x : (α × List β) × σ}
    (hok : on r (bs ++ rest) h = .ok x) : ∃ a h', p h = some (a, h') ∧ x = ((a, rest), h') := by
  have heq := hr rest h
  rw [hok] at heq
  obtain ⟨⟨a, h'⟩, hp, hx⟩ := Option.map_eq_some_iff.mp heq.symm
  exact ⟨a, h', hp, hx.symm⟩

theorem replays_pure (a : α) : Replays (pure a : Reader β σ ε α) [] (pure a) := fun _ _ => rfl

/-- A step that does not read. -/
theorem replays_lift (p : StateT σ (Except ε) α) :
    Replays (lift p : Reader β σ ε α) [] fun h => (p h).toOption := by
  intro rest h
  show ((p h).map _).toOption = (p h).toOption.map _
  cases p h <;> rfl

/-- A reader that never returns. -/
theorem replays_noResult (h : ∀ s st, (on r s st).toOption = none) (bs : List β) :
    Replays r bs noResult := fun rest st => h (bs ++ rest) st

/-- **One reader after another**, if the second reads what is computed so far. -/
theorem Replays.bind_of (hr : Replays r bs p)
    (hf : ∀ h a h', p h = some (a, h') → Replays (f a) cs (q a)) : Replays (r >>= f) (bs ++ cs) (p >>= q) := by
  intro rest h
  have heq := hr (cs ++ rest) h
  rw [List.append_assoc, on_bind]
  show _ = ((p h).bind fun x => q x.1 x.2).map _
  cases hp : p h with
  | none =>
    rw [hp] at heq
    cases hon : on r (bs ++ (cs ++ rest)) h with
    | error e => rfl
    | ok x =>
      rw [hon] at heq
      exact absurd heq (by simp [Except.toOption])
  | some x =>
    rw [hr.eq_ok hp]
    exact hf h x.1 x.2 hp rest x.2

/-- **One reader after another.** -/
theorem Replays.bind (hr : Replays r bs p) (hf : ∀ a, Replays (f a) cs (q a)) :
    Replays (r >>= f) (bs ++ cs) (p >>= q) := hr.bind_of fun _ a _ _ => hf a

/-- **A field whose value is known.** -/
theorem Replays.andThen {v : α} {q : StateT σ Option γ} (hr : Replays r bs (pure v))
    (hf : Replays (f v) cs q) : Replays (r >>= f) (bs ++ cs) q := by
  intro rest h
  have hok : on r (bs ++ (cs ++ rest)) h = .ok ((v, cs ++ rest), h) := hr.eq_ok rfl _
  rw [List.append_assoc, on_bind_of_ok hok]
  exact hf rest h

/-- A step that does not read, behind a reader. -/
theorem Replays.finish (hr : Replays r bs p) (hf : ∀ a, Replays (f a) [] (q a)) :
    Replays (r >>= f) bs (p >>= q) := by
  have h := hr.bind hf
  rwa [List.append_nil] at h

/-- A step that does not read, before a reader. -/
theorem Replays.start (hr : Replays r [] p) (hf : ∀ a, Replays (f a) cs (q a)) :
    Replays (r >>= f) cs (p >>= q) := hr.bind hf

/-- What is returned is computed from what was read. -/
theorem Replays.map (hr : Replays r bs p) (g : α → γ) :
    Replays (r >>= fun a => pure (g a)) bs (p >>= fun a => pure (g a)) :=
  hr.finish fun a => replays_pure (g a)

/-- **A loop that reads one item a turn.** -/
theorem replays_turns {ι : Type u} {body : ℕ → α → Reader β σ ε α} {b : ι → List β}
    {step : α → ι → StateT σ Option α} {items : List ι} {j : ℕ}
    (hbody : ∀ done i later, items = done ++ i :: later → ∀ a,
      Replays (body (j + done.length) a) (b i) (step a i)) (a : α) :
    Replays (turns body items.length j a) (items.flatMap b) (items.foldlM step a) := by
  induction items generalizing j a with
  | nil => exact replays_pure a
  | cons i items ih =>
    rw [List.flatMap_cons, List.foldlM_cons]
    refine (hbody [] i items rfl a).bind fun a' => ih (fun done i' later h a => ?_) a'
    have hnext := hbody (i :: done) i' later (by rw [h, List.cons_append]) a
    rwa [List.length_cons, Nat.add_comm done.length, ← Nat.add_assoc] at hnext

end NetCosm
