import NetCosm.Library.Runs

/-!
# Outcomes of computations that may fail

`Sat T x P` says of a computation `x : Except E α` that if it returns, what it
returns satisfies `P`, and if it fails, it fails with an error that `T` tolerates.
With `T` false everywhere this is total correctness, with `T` true everywhere it is
partial correctness, and what lies between is correctness up to the failures one
is willing to blame on something else.

The rules follow the shape of a program: `sat_bind` for one call after another,
`sat_foldlM` and `sat_foldlM_mem` for a loop over a list, `Sat.mono` for weakening
what is known afterwards.  The loop rule's invariant sees the part of the list
that is still to be done, so that a loop can be charged item by item.
`Runs.sat_always` is the invariant rule for runs whose steps meet such a statement:
the invariant holds in every state reached, and a run that stops, stops with a
tolerated error.  `Runs.sat_outputs` is the rule for an invariant that keeps an
account of what the steps put out.
-/

namespace NetCosm

universe u v w

variable {E : Type w} {α β : Type u}

/-- If `x` returns, then with `P`; if it fails, then with a tolerated error. -/
def Sat (T : E → Prop) (x : Except E α) (P : α → Prop) : Prop :=
  match x with
  | .ok a => P a
  | .error e => T e

variable {T : E → Prop}

theorem sat_ok {a : α} {P : α → Prop} (h : P a) : Sat T (.ok a : Except E α) P := h

theorem sat_pure {a : α} {P : α → Prop} (h : P a) : Sat T (pure a : Except E α) P := h

theorem Sat.of_eq {x : Except E α} {P : α → Prop} {a : α} (h : Sat T x P) (hx : x = .ok a) :
    P a := by
  rw [hx] at h
  exact h

theorem Sat.error_of_eq {x : Except E α} {P : α → Prop} {e : E} (h : Sat T x P)
    (hx : x = .error e) : T e := by
  rw [hx] at h
  exact h

theorem Sat.mono {x : Except E α} {P Q : α → Prop} (h : Sat T x P) (hPQ : ∀ a, P a → Q a) :
    Sat T x Q := by
  cases x with
  | ok a => exact hPQ a h
  | error e => exact h

/-- Tolerating more. -/
theorem Sat.tolerate {T' : E → Prop} {x : Except E α} {P : α → Prop} (h : Sat T x P)
    (hT : ∀ e, T e → T' e) : Sat T' x P := by
  cases x with
  | ok a => exact h
  | error e => exact hT e h

/-- **One call after another.** -/
theorem sat_bind {x : Except E α} {g : α → Except E β} {P : α → Prop} {Q : β → Prop}
    (hx : Sat T x P) (hg : ∀ a, P a → Sat T (g a) Q) : Sat T (x >>= g) Q := by
  cases x with
  | ok a => exact hg a hx
  | error e => exact hx

theorem sat_map {x : Except E α} {g : α → β} {P : β → Prop} (h : Sat T x fun a => P (g a)) :
    Sat T (x.map g) P := by
  cases x with
  | ok a => exact h
  | error e => exact h

/-- **The loop rule.**  `I l s` is what holds in state `s` while the items of `l` are
still to be done. -/
theorem sat_foldlM {A : Type v} {g : α → A → Except E α} {I : List A → α → Prop}
    (hstep : ∀ a l s, I (a :: l) s → Sat T (g s a) (I l)) {l : List A} {s : α} (hs : I l s) :
    Sat T (l.foldlM g s) (I []) := by
  induction l generalizing s with
  | nil => exact hs
  | cons a l ih =>
    rw [List.foldlM_cons]
    exact sat_bind (hstep a l s hs) fun s' hs' => ih hs'

/-- The loop rule for an invariant that does not count, where an item is known to be
one of the list. -/
theorem sat_foldlM_mem {A : Type v} {g : α → A → Except E α} {I : α → Prop} {l : List A}
    (hstep : ∀ a ∈ l, ∀ s, I s → Sat T (g s a) I) {s : α} (hs : I s) :
    Sat T (l.foldlM g s) I := by
  induction l generalizing s with
  | nil => exact hs
  | cons a l ih =>
    rw [List.foldlM_cons]
    refine sat_bind (hstep a (List.mem_cons_self ..) s hs) fun s' hs' => ?_
    exact ih (fun b hb => hstep b (List.mem_cons_of_mem a hb)) hs'

/-- **The invariant rule for runs whose steps may fail.** -/
theorem Runs.sat_always {S : Type u} {A : Type v} {step : S → A → Except E S} {I : S → Prop}
    {G : S → A → Prop} (hstep : ∀ s a, I s → G s a → Sat T (step s a) I) {s : S} {as : List A}
    (hs : I s) (hG : EachStep step G s as) :
    Always step I s as ∧ ∀ e, run step s as = .error e → T e := by
  induction as generalizing s with
  | nil => exact ⟨hs, fun e h => absurd h (by simp)⟩
  | cons a as ih =>
    have hsat := hstep s a hs hG.1
    refine ⟨⟨hs, fun s' h => (ih (hsat.of_eq h) (hG.2 s' h)).1⟩, fun e h => ?_⟩
    cases hsa : step s a with
    | ok s' =>
      rw [run_cons_ok hsa] at h
      exact (ih (hsat.of_eq hsa) (hG.2 s' hsa)).2 e h
    | error e' =>
      rw [run_cons_error hsa] at h
      exact Except.error.inj h ▸ hsat.error_of_eq hsa

/-- The same for an invariant that sees what the run has put out so far. -/
theorem Runs.sat_outputs {S : Type u} {A : Type v} {B : Type*} {step : S → A → Except E S}
    {out : S → A → List B} {I : List B → S → Prop} {G : S → A → Prop}
    (hstep : ∀ bs s a, I bs s → G s a → Sat T (step s a) (I (bs ++ out s a))) {bs : List B} {s : S}
    {as : List A} (hs : I bs s) (hG : EachStep step G s as) :
    Sat T (run step s as) (I (bs ++ outputs step out s as)) := by
  induction as generalizing bs s with
  | nil =>
    rw [outputs, List.append_nil]
    exact hs
  | cons a as ih =>
    have hsat := hstep bs s a hs hG.1
    cases hsa : step s a with
    | ok s' =>
      rw [run_cons_ok hsa, outputs_cons_ok hsa, ← List.append_assoc]
      exact ih (hsat.of_eq hsa) (hG.2 s' hsa)
    | error e =>
      rw [run_cons_error hsa]
      exact hsat.error_of_eq hsa

end NetCosm
