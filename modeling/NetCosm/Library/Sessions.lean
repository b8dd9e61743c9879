import Mathlib.Init

/-!
# Computations that may stop, and what holds along them

A session reads, sends and changes a state, and at some point it stops: the line it waits
for never comes, or the process exits.  What it has done up to there counts.  A `Script`
therefore answers with a value or without one, and with a state in both cases.

## Triples

`Triple P x Q E` says that from a state in which `P` holds, `x` ends with a value and a state
of `Q`, or stops in a state of `E`.  There is one rule for each way a script is put together.

`Steady I E x` is the case of one invariant: `I` holds before and after, and `E` where the
script stops.  It composes without naming intermediate assertions, so a long script that only
makes steady steps needs no assertion but `I`.
-/

namespace NetCosm
namespace Sessions

universe u v w

/-- A computation on a state that may stop. -/
def Script (S : Type u) (α : Type v) : Type (max u v) := S → Option α × S

variable {S : Type u} {α : Type v} {β : Type v}

/-- The state in which a script ends or stops. -/
def Script.final (x : Script S α) (s : S) : S := (x s).2

instance : Monad (Script S) where
  pure a s := (some a, s)
  bind x f s :=
    match x s with
    | (some a, s') => f a s'
    | (none, s') => (none, s')

/-- The script stops. -/
def stop : Script S α := fun s => (none, s)

/-- The state is replaced. -/
def update (f : S → S) : Script S PUnit.{v + 1} := fun s => (some ⟨⟩, f s)

/-- Something is read from the state. -/
def ask (f : S → α) : Script S α := fun s => (some (f s), s)

/-! ## Scripts that end -/

theorem eq_of_fst {r : Option α × S} {a : α} (h : r.1 = some a) : r = (some a, r.2) :=
  Prod.ext h rfl

theorem bind_of_some {x : Script S α} {f : α → Script S β} {s s' : S} {a : α}
    (h : x s = (some a, s')) : (x >>= f) s = f a s' := by
  simp only [bind, h]

theorem bind_of_none {x : Script S α} {f : α → Script S β} {s s' : S}
    (h : x s = (none, s')) : (x >>= f) s = (none, s') := by
  simp only [bind, h]

/-- A script that ends has come to the end of its first part. -/
theorem bind_ends {x : Script S α} {f : α → Script S β} {s s'' : S} {b : β}
    (h : (x >>= f) s = (some b, s'')) : ∃ a s', x s = (some a, s') ∧ f a s' = (some b, s'') := by
  cases hx : x s with
  | mk r s' =>
    cases r with
    | none => exact absurd ((bind_of_none hx).symm.trans h) (by simp)
    | some a => exact ⟨a, s', rfl, (bind_of_some hx).symm.trans h⟩

/-! ## Triples -/

/-- From this state, the script ends in `Q` or stops in `E`. -/
structure TripleAt (s : S) (x : Script S α) (Q : α → S → Prop) (E : S → Prop) : Prop where
  ends : ∀ a, (x s).1 = some a → Q a (x s).2
  stops : (x s).1 = none → E (x s).2

/-- From `P`, the script ends in `Q` or stops in `E`. -/
def Triple (P : S → Prop) (x : Script S α) (Q : α → S → Prop) (E : S → Prop) : Prop :=
  ∀ s, P s → TripleAt s x Q E

variable {P P' : S → Prop} {Q Q' : α → S → Prop} {E E' I : S → Prop} {x : Script S α}

theorem triple_pure {a : α} (h : ∀ s, P s → Q a s) : Triple P (pure a : Script S α) Q E :=
  fun s hs => ⟨fun _ ha => Option.some.inj ha ▸ h s hs, fun h => absurd h (by simp [pure])⟩

theorem triple_stop (h : ∀ s, P s → E s) : Triple P (stop : Script S α) Q E :=
  fun s hs => ⟨fun _ ha => absurd ha (by simp [stop]), fun _ => h s hs⟩

theorem triple_update {f : S → S} {Q : PUnit → S → Prop} (h : ∀ s, P s → Q ⟨⟩ (f s)) :
    Triple P (update f) Q E :=
  fun s hs => ⟨fun _ _ => h s hs, fun h => absurd h (by simp [update])⟩

theorem triple_ask {f : S → α} (h : ∀ s, P s → Q (f s) s) : Triple P (ask f) Q E :=
  fun s hs => ⟨fun _ ha => Option.some.inj ha ▸ h s hs, fun h => absurd h (by simp [ask])⟩

theorem triple_bind {f : α → Script S β} {R : β → S → Prop} (hx : Triple P x Q E)
    (hf : ∀ a, Triple (Q a) (f a) R E) : Triple P (x >>= f) R E := by
  intro s hs
  obtain ⟨hends, hstops⟩ := hx s hs
  cases hr : x s with
  | mk r s' =>
    cases r with
    | none =>
      have hrun : (x >>= f) s = (none, s') := by
        simp only [bind, hr]
      refine ⟨fun b hb => absurd (hrun ▸ hb) (by simp), fun _ => ?_⟩
      rw [hrun]
      simpa [hr] using hstops
    | some a =>
      have hrun : (x >>= f) s = f a s' := by
        simp only [bind, hr]
      have ha : Q a s' := by simpa [hr] using hends a
      obtain ⟨hends', hstops'⟩ := hf a s' ha
      refine ⟨?_, ?_⟩ <;> rw [hrun]
      · exact hends'
      · exact hstops'

theorem Triple.mono (h : Triple P x Q E) (hP : ∀ s, P' s → P s) (hQ : ∀ a s, Q a s → Q' a s)
    (hE : ∀ s, E s → E' s) : Triple P' x Q' E' :=
  fun s hs => ⟨fun a ha => hQ a _ ((h s (hP s hs)).ends a ha),
    fun hn => hE _ ((h s (hP s hs)).stops hn)⟩

/-- A triple is about the states in which its assertion holds, one by one. -/
theorem triple_of_forall (h : ∀ s, P s → Triple (s = ·) x Q E) : Triple P x Q E :=
  fun s hs => h s hs s rfl

/-- A script that ends or stops in a state of `E` has its last state in `E`. -/
theorem Triple.final {s : S} (h : Triple P x (fun _ => E) E) (hs : P s) : E (x.final s) := by
  cases hr : (x s).1 with
  | none => exact (h s hs).stops hr
  | some a => exact (h s hs).ends a hr

/-! ## Steady scripts -/

/-- The script keeps `I`, and stops in `E`. -/
def Steady (I E : S → Prop) (x : Script S α) : Prop := Triple I x (fun _ => I) E

theorem steady_pure (a : α) : Steady I E (pure a : Script S α) := triple_pure fun _ hs => hs

theorem steady_stop (h : ∀ s, I s → E s) : Steady I E (stop : Script S α) := triple_stop h

theorem steady_ask (f : S → α) : Steady I E (ask f) := triple_ask fun _ hs => hs

theorem steady_bind {f : α → Script S β} (hx : Steady I E x) (hf : ∀ a, Steady I E (f a)) :
    Steady I E (x >>= f) :=
  triple_bind hx hf

end Sessions
end NetCosm
