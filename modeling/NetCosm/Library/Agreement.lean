import NetCosm.Library.Outcome

/-!
# Two versions of one computation

A program is often easier to reason about in a version that cannot go wrong in some way:
with numbers in place of machine words, say.  `Agree R x y` says of two computations that
either both return, and what they return is related by `R`, or both fail, with the same
error.

The rules follow the shape of a program, as those of `Sat` do: `Agree.bind` for one call
after another, `agree_foldlM` for a loop over a list.  `Runs.agree_run` takes the step of
one machine to the step of another, as long as the steps of the first meet a condition
under which they agree; `Runs.agree_eachStep` and `Runs.agree_always` take conditions of
the runs there, and what has been proved of them back.
-/

namespace NetCosm

universe u v w x

variable {E : Type w} {α α' : Type u} {β β' : Type v}

/-- Both return, with related results, or both fail, with the same error. -/
def Agree (R : α → β → Prop) (x : Except E α) (y : Except E β) : Prop :=
  match x, y with
  | .ok a, .ok b => R a b
  | .error e, .error e' => e = e'
  | _, _ => False

section

variable {R : α → β → Prop} {Q : α' → β' → Prop} {x : Except E α} {y : Except E β}

theorem agree_ok {a : α} {b : β} (h : R a b) : Agree R (.ok a : Except E α) (.ok b) := h

theorem agree_pure {a : α} {b : β} (h : R a b) :
    Agree R (pure a : Except E α) (pure b : Except E β) := h

theorem agree_error (e : E) : Agree R (.error e : Except E α) (.error e : Except E β) := rfl

/-- A computation agrees with itself. -/
theorem agree_refl {S : α → α → Prop} (h : ∀ a, x = .ok a → S a a) : Agree S x x := by
  cases x with
  | ok a => exact h a rfl
  | error e => exact rfl

theorem Agree.mono {S : α → β → Prop} (h : Agree R x y) (hRS : ∀ a b, R a b → S a b) :
    Agree S x y := by
  match x, y with
  | .ok a, .ok b => exact hRS a b h
  | .error _, .error _ => exact h

/-- **One call after another.** -/
theorem Agree.bind {f : α → Except E α'} {g : β → Except E β'} (h : Agree R x y)
    (hfg : ∀ a b, R a b → Agree Q (f a) (g b)) : Agree Q (x >>= f) (y >>= g) := by
  match x, y with
  | .ok a, .ok b => exact hfg a b h
  | .error _, .error _ => exact h

theorem Agree.map {f : α → α'} {g : β → β'} (h : Agree (fun a b => Q (f a) (g b)) x y) :
    Agree Q (x.map f) (y.map g) := by
  match x, y with
  | .ok _, .ok _ => exact h
  | .error _, .error _ => exact h

theorem Agree.of_ok {a : α} (h : Agree R x y) (hx : x = .ok a) : ∃ b, y = .ok b ∧ R a b := by
  subst hx
  match y with
  | .ok b => exact ⟨b, rfl, h⟩

theorem Agree.of_ok_right {b : β} (h : Agree R x y) (hy : y = .ok b) : ∃ a, x = .ok a ∧ R a b := by
  subst hy
  match x with
  | .ok a => exact ⟨a, rfl, h⟩

theorem Agree.error_of_eq {e : E} (h : Agree R x y) (hx : x = .error e) : y = .error e := by
  subst hx
  match y with
  | .error _ => exact congrArg _ (Eq.symm h)

/-- **The loop rule.**  `I l` relates the states while the items of `l` are still to be done. -/
theorem agree_foldlM {A : Type x} {f : α → A → Except E α} {g : β → A → Except E β}
    {I : List A → α → β → Prop}
    (hstep : ∀ a l s t, I (a :: l) s t → Agree (I l) (f s a) (g t a)) {l : List A} {s : α} {t : β}
    (h : I l s t) : Agree (I []) (l.foldlM f s) (l.foldlM g t) := by
  induction l generalizing s t with
  | nil => exact h
  | cons a l ih =>
    rw [List.foldlM_cons, List.foldlM_cons]
    exact (hstep a l s t h).bind fun s' t' hI => ih hI

end

/-! ## Runs -/

namespace Runs

variable {S : Type u} {T : Type v} {A : Type x} {step : S → A → Except E S} {step' : T → A → Except E T}
  {R : S → T → Prop} {G : S → A → Prop} {s : S} {t : T} {as : List A}

/-- **Two machines run alike** as long as the steps of the first meet the condition under which they
agree. -/
theorem agree_run (hstep : ∀ s t a, R s t → G s a → Agree R (step s a) (step' t a)) (h : R s t)
    (hG : EachStep step G s as) : Agree R (run step s as) (run step' t as) := by
  induction as generalizing s t with
  | nil => exact h
  | cons a as ih =>
    have hagree := hstep s t a h hG.1
    cases hs : step s a with
    | ok s' =>
      obtain ⟨t', ht, hR⟩ := hagree.of_ok hs
      rw [run_cons_ok hs, run_cons_ok ht]
      exact ih hR (hG.2 s' hs)
    | error e =>
      rw [run_cons_error hs, run_cons_error (hagree.error_of_eq hs)]
      exact agree_error e

/-- **What each step of the first machine meets**, each step of the second does. -/
theorem agree_eachStep {H : T → A → Prop}
    (hstep : ∀ s t a, R s t → G s a → Agree R (step s a) (step' t a))
    (hH : ∀ s t a, R s t → G s a → H t a) (h : R s t) (hG : EachStep step G s as) :
    EachStep step' H t as := by
  induction as generalizing s t with
  | nil => trivial
  | cons a as ih =>
    refine ⟨hH s t a h hG.1, fun t' ht => ?_⟩
    obtain ⟨s', hs, hR⟩ := (hstep s t a h hG.1).of_ok_right ht
    exact ih hR (hG.2 s' hs)

/-- **What each step of the second machine meets** says something of each step of the first. -/
theorem eachStep_of_agree {H : T → A → Prop} {K : S → A → Prop}
    (hstep : ∀ s t a, R s t → G s a → Agree R (step s a) (step' t a))
    (hK : ∀ s t a, R s t → G s a → H t a → K s a) (h : R s t) (hG : EachStep step G s as)
    (hH : EachStep step' H t as) : EachStep step K s as := by
  induction as generalizing s t with
  | nil => trivial
  | cons a as ih =>
    refine ⟨hK s t a h hG.1 hH.1, fun s' hs => ?_⟩
    obtain ⟨t', ht, hR⟩ := (hstep s t a h hG.1).of_ok hs
    exact ih hR (hG.2 s' hs) (hH.2 t' ht)

/-- **What holds in every state of the second machine** says something of every state of the first. -/
theorem always_of_agree {P : T → Prop} {Q : S → Prop}
    (hstep : ∀ s t a, R s t → G s a → Agree R (step s a) (step' t a)) (hQ : ∀ s t, R s t → P t → Q s)
    (h : R s t) (hG : EachStep step G s as) (hP : Always step' P t as) : Always step Q s as := by
  induction as generalizing s t with
  | nil => exact hQ s t h hP
  | cons a as ih =>
    refine ⟨hQ s t h hP.1, fun s' hs => ?_⟩
    obtain ⟨t', ht, hR⟩ := (hstep s t a h hG.1).of_ok hs
    exact ih hR (hG.2 s' hs) (hP.2 t' ht)

/-- What the machines put out. -/
theorem outputs_of_agree {B : Type*} {out : S → A → List B} {out' : T → A → List B}
    (hstep : ∀ s t a, R s t → G s a → Agree R (step s a) (step' t a))
    (hout : ∀ s t a, R s t → out s a = out' t a) (h : R s t) (hG : EachStep step G s as) :
    outputs step out s as = outputs step' out' t as := by
  induction as generalizing s t with
  | nil => rfl
  | cons a as ih =>
    have hagree := hstep s t a h hG.1
    rw [outputs, outputs, hout s t a h]
    cases hs : step s a with
    | ok s' =>
      obtain ⟨t', ht, hR⟩ := hagree.of_ok hs
      rw [ht]
      dsimp only
      rw [ih hR (hG.2 s' hs)]
    | error e => rw [hagree.error_of_eq hs]

end Runs

end NetCosm
