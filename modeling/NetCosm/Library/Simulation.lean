import Mathlib.Data.List.Forall2
import NetCosm.Library.Runs

/-!
# Machines that answer, and what specifies them

A machine that answers is a function `call : S → A → Except E (O × S)`: a call in a
state is answered and changes the state, or it stops the machine.  A specification
is a machine that never stops, `spec : T → A → O × T`.

`Simulates call spec R G` says that in related states a call in the guard `G` is
answered as the specification answers it and leads to related states again, and
that a call outside the guard stops the machine.  The guard is then exact:
`Simulates.answers_eq_iff` says that a sequence of calls is answered throughout as
specified if and only if every call of it is in the guard.

## Fleets

A program seldom has one table.  `fleetCall` is the machine whose state is a list of
machines: a call goes to one of them by its index, and any of them may be copied, the
copy joining the list.  `Simulates.fleet` lifts a simulation of one machine to a
simulation of a fleet.  Because the specification of a fleet copies values, whose later
changes cannot show anywhere else, this is also what says that a copy is independent
of its original.
-/

namespace NetCosm

universe u v w x y z

open Runs

variable {S : Type u} {T : Type v} {A : Type w} {C : Type z} {O : Type x} {E : Type y}

/-- One call with its answer dropped. -/
def advance (call : S → A → Except E (O × S)) (s : S) (a : A) : Except E S :=
  (call s a).map Prod.snd

/-- The answers to a sequence of calls, or the error that ended it. -/
def answers (call : S → A → Except E (O × S)) : S → List A → Except E (List O)
  | _, [] => .ok []
  | s, a :: as =>
      match call s a with
      | .ok r => (answers call r.2 as).map (r.1 :: ·)
      | .error e => .error e

/-- The answers a specification asks for. -/
def specAnswers (spec : T → A → O × T) : T → List A → List O
  | _, [] => []
  | t, a :: as => (spec t a).1 :: specAnswers spec (spec t a).2 as

/-- In related states, calls in the guard are answered as specified and lead to related
states, and calls outside it stop. -/
structure Simulates (call : S → A → Except E (O × S)) (spec : T → A → O × T)
    (R : S → T → Prop) (G : S → A → Prop) : Prop where
  answered : ∀ {s t a}, R s t → G s a →
    ∃ s', call s a = .ok ((spec t a).1, s') ∧ R s' (spec t a).2
  stopped : ∀ {s t a}, R s t → ¬ G s a → ∃ e, call s a = .error e

section Simulates

variable {call : S → A → Except E (O × S)} {spec : T → A → O × T} {R : S → T → Prop}
  {G : S → A → Prop}

theorem advance_eq_ok {s s' : S} {a : A} (h : advance call s a = .ok s') :
    ∃ o, call s a = .ok (o, s') := by
  unfold advance at h
  cases hc : call s a with
  | error e =>
    rw [hc] at h
    exact absurd h (by simp [Except.map])
  | ok r =>
    rw [hc] at h
    exact ⟨r.1, by rw [← Except.ok.inj h]⟩

theorem advance_of_ok {s s' : S} {a : A} {o : O} (h : call s a = .ok (o, s')) :
    advance call s a = .ok s' := by
  rw [advance, h]
  rfl

/-- A call that returns was in the guard, and was answered as specified. -/
theorem Simulates.of_ok (h : Simulates call spec R G) {s s' : S} {t : T} {a : A} {o : O}
    (hst : R s t) (hc : call s a = .ok (o, s')) :
    G s a ∧ o = (spec t a).1 ∧ R s' (spec t a).2 := by
  have hG : G s a := by
    by_contra hG
    obtain ⟨e, he⟩ := h.stopped hst hG
    exact absurd (hc.symm.trans he) (by simp)
  obtain ⟨s'', hc', hR⟩ := h.answered hst hG
  obtain ⟨rfl, rfl⟩ := Prod.mk.inj (Except.ok.inj (hc.symm.trans hc'))
  exact ⟨hG, rfl, hR⟩

/-- **Calls are answered as specified exactly when they are in the guard.** -/
theorem Simulates.answers_eq_iff (h : Simulates call spec R G) {s : S} {t : T} (hst : R s t)
    (as : List A) :
    answers call s as = .ok (specAnswers spec t as) ↔ EachStep (advance call) G s as := by
  induction as generalizing s t with
  | nil => exact ⟨fun _ => trivial, fun _ => rfl⟩
  | cons a as ih =>
    by_cases hG : G s a
    · obtain ⟨s', hc, hR⟩ := h.answered hst hG
      have hadv : ∀ s'', advance call s a = .ok s'' ↔ s' = s'' := by
        rw [advance_of_ok hc]
        simp
      rw [answers, hc, specAnswers, EachStep, and_iff_right hG]
      simp only [hadv, forall_eq', ← ih hR]
      cases answers call s' as with
      | error e => simp [Except.map]
      | ok os => simp [Except.map]
    · obtain ⟨e, he⟩ := h.stopped hst hG
      refine iff_of_false ?_ fun hs => hG hs.1
      rw [answers, he]
      simp

/-- What related states have in common holds in every state reached. -/
theorem Simulates.always (h : Simulates call spec R G) {P : S → Prop}
    (hP : ∀ s t, R s t → P s) {s : S} {t : T} (hst : R s t) (as : List A) :
    Always (advance call) P s as := by
  induction as generalizing s t with
  | nil => exact hP s t hst
  | cons a as ih =>
    refine ⟨hP s t hst, fun s' hs' => ?_⟩
    obtain ⟨o, hc⟩ := advance_eq_ok hs'
    exact ih (h.of_ok hst hc).2.2

end Simulates

/-! ## Fleets -/

/-- A call to a fleet: a call to the machine with index `i`, or a copy of it. -/
inductive FleetCall (A : Type w) (C : Type z) where
  | on (i : ℕ) (a : A)
  | copy (i : ℕ) (c : C)

/-- A call to a fleet.  Nobody answers for an index that is out of range. -/
def fleetCall (call : S → A → Except E (O × S)) (dup : S → C → Except E S) (ss : List S) :
    FleetCall A C → Except E (Option O × List S)
  | .on i a =>
      match ss[i]? with
      | some s => (call s a).map fun r => (some r.1, ss.set i r.2)
      | none => .ok (none, ss)
  | .copy i c =>
      match ss[i]? with
      | some s => (dup s c).map fun s' => (none, ss ++ [s'])
      | none => .ok (none, ss)

/-- A fleet of specifications. -/
def fleetSpec (spec : T → A → O × T) (specDup : T → C → T) (ts : List T) :
    FleetCall A C → Option O × List T
  | .on i a =>
      match ts[i]? with
      | some t => (some (spec t a).1, ts.set i (spec t a).2)
      | none => (none, ts)
  | .copy i c =>
      match ts[i]? with
      | some t => (none, ts ++ [specDup t c])
      | none => (none, ts)

/-- A call to a fleet is in the guard if the machine it goes to would say so. -/
def fleetGuard (G : S → A → Prop) (H : S → C → Prop) (ss : List S) : FleetCall A C → Prop
  | .on i a => ∀ s ∈ ss[i]?, G s a
  | .copy i c => ∀ s ∈ ss[i]?, H s c

instance {G : S → A → Prop} {H : S → C → Prop} [∀ s a, Decidable (G s a)]
    [∀ s c, Decidable (H s c)] (ss : List S) (a : FleetCall A C) :
    Decidable (fleetGuard G H ss a) :=
  match a with
  | .on i a => inferInstanceAs (Decidable (∀ s ∈ ss[i]?, G s a))
  | .copy i c => inferInstanceAs (Decidable (∀ s ∈ ss[i]?, H s c))

/-- In related states, copies in the guard are related to the specified copy, and others
stop. -/
structure CopySimulates (dup : S → C → Except E S) (specDup : T → C → T) (R : S → T → Prop)
    (H : S → C → Prop) : Prop where
  copied : ∀ {s t c}, R s t → H s c → ∃ s', dup s c = .ok s' ∧ R s' (specDup t c)
  stopped : ∀ {s t c}, R s t → ¬ H s c → ∃ e, dup s c = .error e

/-- In related fleets the machines of one index are related, or there are none. -/
theorem forall₂_getElem? {R : S → T → Prop} {ss : List S} {ts : List T}
    (h : List.Forall₂ R ss ts) (i : ℕ) :
    (∃ s t, ss[i]? = some s ∧ ts[i]? = some t ∧ R s t) ∨ ss[i]? = none ∧ ts[i]? = none := by
  induction h generalizing i with
  | nil => exact Or.inr ⟨rfl, rfl⟩
  | cons hR _ ih =>
    cases i with
    | zero => exact Or.inl ⟨_, _, rfl, rfl, hR⟩
    | succ i => simpa using ih i

theorem forall₂_set {R : S → T → Prop} {ss : List S} {ts : List T} (h : List.Forall₂ R ss ts)
    (i : ℕ) {s : S} {t : T} (hst : R s t) : List.Forall₂ R (ss.set i s) (ts.set i t) := by
  induction h generalizing i with
  | nil => exact List.Forall₂.nil
  | cons hR htail ih =>
    cases i with
    | zero => exact List.Forall₂.cons hst htail
    | succ i => exact List.Forall₂.cons hR (ih i)

/-- **A fleet of simulated machines is simulated by the fleet of their
specifications.** -/
theorem Simulates.fleet {call : S → A → Except E (O × S)} {spec : T → A → O × T}
    {dup : S → C → Except E S} {specDup : T → C → T} {R : S → T → Prop} {G : S → A → Prop}
    {H : S → C → Prop} (h : Simulates call spec R G) (hdup : CopySimulates dup specDup R H) :
    Simulates (fleetCall call dup) (fleetSpec spec specDup) (List.Forall₂ R)
      (fleetGuard G H) where
  answered {ss ts a} hst hG := by
    cases a with
    | on i a =>
      rcases forall₂_getElem? hst i with ⟨s, t, hs, ht, hR⟩ | ⟨hs, ht⟩
      · obtain ⟨s', hc, hR'⟩ := h.answered hR (hG s hs)
        refine ⟨ss.set i s', ?_, ?_⟩
        · simp only [fleetCall, hs, hc, fleetSpec, ht]
          rfl
        · simp only [fleetSpec, ht]
          exact forall₂_set hst i hR'
      · exact ⟨ss, by simp only [fleetCall, hs, fleetSpec, ht], by simpa only [fleetSpec, ht]⟩
    | copy i c =>
      rcases forall₂_getElem? hst i with ⟨s, t, hs, ht, hR⟩ | ⟨hs, ht⟩
      · obtain ⟨s', hc, hR'⟩ := hdup.copied hR (hG s hs)
        refine ⟨ss ++ [s'], ?_, ?_⟩
        · simp only [fleetCall, hs, hc, fleetSpec, ht]
          rfl
        · simp only [fleetSpec, ht]
          exact List.rel_append hst (List.Forall₂.cons hR' List.Forall₂.nil)
      · exact ⟨ss, by simp only [fleetCall, hs, fleetSpec, ht], by simpa only [fleetSpec, ht]⟩
  stopped {ss ts a} hst hG := by
    cases a with
    | on i a =>
      simp only [fleetGuard, not_forall] at hG
      obtain ⟨s, hs, hG⟩ := hG
      rcases forall₂_getElem? hst i with ⟨s', t, hs', ht, hR⟩ | ⟨hs', -⟩
      · obtain rfl : s' = s := Option.some.inj (hs'.symm.trans hs)
        obtain ⟨e, he⟩ := h.stopped hR hG
        exact ⟨e, by simp only [fleetCall, hs', he]; rfl⟩
      · exact absurd (hs'.symm.trans hs) (by simp)
    | copy i c =>
      simp only [fleetGuard, not_forall] at hG
      obtain ⟨s, hs, hG⟩ := hG
      rcases forall₂_getElem? hst i with ⟨s', t, hs', ht, hR⟩ | ⟨hs', -⟩
      · obtain rfl : s' = s := Option.some.inj (hs'.symm.trans hs)
        obtain ⟨e, he⟩ := hdup.stopped hR hG
        exact ⟨e, by simp only [fleetCall, hs', he]; rfl⟩
      · exact absurd (hs'.symm.trans hs) (by simp)

end NetCosm
