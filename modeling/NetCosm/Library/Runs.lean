import Mathlib.Data.List.Basic

/-!
# Runs of a machine whose steps may stop

A machine is a step function `step : S → A → Except E S`: from a state and an
action it either goes to the next state or stops with an error.  A run is a list
of actions taken one after the other, and it ends early at the first error.

Two things are said about a run, and they are kept apart because a verification
moves between them.

* `Always P s as` --- every state the run reaches satisfies `P`, the first one
  included.
* `EachStep G s as` --- every step the run takes, taken from the state it really
  starts in, satisfies `G`.

`Always` is what a claim about reachable states says; `EachStep` is what a
condition on the steps says.  The two rules of this file connect them: an
invariant that guarded steps preserve holds always (`always_of_eachStep`), and if
an unguarded step is seen in the next state, holding always and being guarded at
each step are the same thing (`always_iff_eachStep`).

Both are defined by recursion on the list of actions, so an induction on a run is
an induction on that list, and a state reached after an error never has to be
mentioned: it does not exist.
-/

namespace NetCosm
namespace Runs

universe u v w

variable {S : Type u} {A : Type v} {E : Type w} (step : S → A → Except E S)

/-- The state after the actions `as`, or the error that ended the run. -/
def run : S → List A → Except E S
  | s, [] => .ok s
  | s, a :: as =>
      match step s a with
      | .ok s' => run s' as
      | .error e => .error e

/-- Every state the run reaches satisfies `P`. -/
def Always (P : S → Prop) : S → List A → Prop
  | s, [] => P s
  | s, a :: as => P s ∧ ∀ s', step s a = .ok s' → Always P s' as

/-- Every step the run takes satisfies `G`. -/
def EachStep (G : S → A → Prop) : S → List A → Prop
  | _, [] => True
  | s, a :: as => G s a ∧ ∀ s', step s a = .ok s' → EachStep G s' as

/-- Every step the run completes satisfies `G`; a step that stops the run is not
asked. -/
def EachDone (G : S → A → Prop) (s : S) (as : List A) : Prop :=
  EachStep step (fun s a => ∀ s', step s a = .ok s' → G s a) s as

variable {step}

/-- A run can be checked step by step, if a step can. -/
instance instDecidableEachStep {G : S → A → Prop} [∀ s a, Decidable (G s a)] (s : S)
    (as : List A) : Decidable (EachStep step G s as) :=
  match as with
  | [] => .isTrue trivial
  | a :: as =>
      match h : step s a with
      | .ok s' =>
          have := instDecidableEachStep (G := G) s' as
          decidable_of_iff (G s a ∧ EachStep step G s' as)
            (and_congr_right fun _ => ⟨fun h' _ hs => Except.ok.inj (h.symm.trans hs) ▸ h',
              fun h' => h' s' h⟩)
      | .error e =>
          decidable_of_iff (G s a)
            ⟨fun hG => ⟨hG, fun _ hs => absurd (h.symm.trans hs) (by simp)⟩, And.left⟩

@[simp] theorem run_nil (s : S) : run step s [] = .ok s := rfl

theorem run_cons_ok {s s' : S} {a : A} (h : step s a = .ok s') (as : List A) :
    run step s (a :: as) = run step s' as := by
  simp only [run, h]

theorem run_cons_error {s : S} {a : A} {e : E} (h : step s a = .error e) (as : List A) :
    run step s (a :: as) = .error e := by
  simp only [run, h]

/-- A run is a fold. -/
theorem run_eq_foldlM (s : S) (as : List A) : run step s as = as.foldlM step s := by
  induction as generalizing s with
  | nil => rfl
  | cons a as ih =>
    rw [List.foldlM_cons]
    cases hsa : step s a with
    | error e => exact run_cons_error hsa as
    | ok s' => exact (run_cons_ok hsa as).trans (ih s')

/-- A run is its first part and then its second. -/
theorem run_append_ok {s t : S} {as : List A} (h : run step s as = .ok t) (bs : List A) :
    run step s (as ++ bs) = run step t bs := by
  induction as generalizing s with
  | nil =>
    rw [run_nil] at h
    rw [List.nil_append, Except.ok.inj h]
  | cons a as ih =>
    cases hsa : step s a with
    | error e =>
      rw [run_cons_error hsa] at h
      exact absurd h (by simp)
    | ok s' =>
      rw [run_cons_ok hsa] at h
      rw [List.cons_append, run_cons_ok hsa, ih h]

/-- A run that stops in its first part has stopped. -/
theorem run_append_error {s : S} {as : List A} {e : E} (h : run step s as = .error e)
    (bs : List A) : run step s (as ++ bs) = .error e := by
  induction as generalizing s with
  | nil =>
    rw [run_nil] at h
    exact absurd h (by simp)
  | cons a as ih =>
    cases hsa : step s a with
    | error e' =>
      rw [run_cons_error hsa] at h
      rw [List.cons_append, run_cons_error hsa, h]
    | ok s' =>
      rw [run_cons_ok hsa] at h
      rw [List.cons_append, run_cons_ok hsa, ih h]

/-- A run that does not stop takes its first step. -/
theorem run_cons_eq_ok {s t : S} {a : A} {as : List A} (h : run step s (a :: as) = .ok t) :
    ∃ s', step s a = .ok s' ∧ run step s' as = .ok t := by
  cases hsa : step s a with
  | error e =>
    rw [run_cons_error hsa] at h
    exact absurd h (by simp)
  | ok s' =>
    rw [run_cons_ok hsa] at h
    exact ⟨s', rfl, h⟩

/-- A run that does not stop has come to the end of its first part. -/
theorem run_append_eq_ok {s t : S} {as bs : List A} (h : run step s (as ++ bs) = .ok t) :
    ∃ s', run step s as = .ok s' ∧ run step s' bs = .ok t := by
  cases has : run step s as with
  | error e =>
    rw [run_append_error has] at h
    exact absurd h (by simp)
  | ok s' =>
    rw [run_append_ok has] at h
    exact ⟨s', rfl, h⟩

theorem Always.head {P : S → Prop} {s : S} {as : List A} (h : Always step P s as) : P s := by
  cases as with
  | nil => exact h
  | cons a as => exact h.1

/-- **The invariant rule.**  An invariant of the first state that every guarded
step preserves holds in every state a guarded run reaches. -/
theorem always_of_eachStep {I : S → Prop} {G : S → A → Prop}
    (hstep : ∀ s a s', I s → G s a → step s a = .ok s' → I s') {s : S} {as : List A}
    (hs : I s) (hG : EachStep step G s as) : Always step I s as := by
  induction as generalizing s with
  | nil => exact hs
  | cons a as ih =>
    refine ⟨hs, fun s' h => ?_⟩
    exact ih (hstep s a s' hs hG.1 h) (hG.2 s' h)

/-- **The invariant rule, both ways.**  Let `J` be a background invariant, one that
every step preserves.  If guarded steps preserve `P`, and an unguarded step always
goes on, and to a state that violates `P`, then `P` holds in every state of a run
exactly when every step of the run is guarded. -/
theorem always_iff_eachStep {J P : S → Prop} {G : S → A → Prop}
    (hJ : ∀ s a s', J s → step s a = .ok s' → J s')
    (hstep : ∀ s a s', J s → P s → G s a → step s a = .ok s' → P s')
    (hbad : ∀ s a, J s → P s → ¬ G s a → ∃ s', step s a = .ok s' ∧ ¬ P s')
    {s : S} {as : List A} (hs : J s) (hP : P s) :
    Always step P s as ↔ EachStep step G s as := by
  induction as generalizing s with
  | nil => exact ⟨fun _ => trivial, fun _ => hP⟩
  | cons a as ih =>
    constructor
    · intro h
      have hG : G s a := by
        by_contra hG
        obtain ⟨s', hs', hP'⟩ := hbad s a hs hP hG
        exact hP' (h.2 s' hs').head
      exact ⟨hG, fun s' h' =>
        (ih (hJ s a s' hs h') (hstep s a s' hs hP hG h')).mp (h.2 s' h')⟩
    · intro h
      exact ⟨hP, fun s' h' =>
        (ih (hJ s a s' hs h') (hstep s a s' hs hP h.1 h')).mpr (h.2 s' h')⟩

/-- **The invariant rule, both ways, for a step that may stop**, in runs all of whose steps keep to some
background condition `B`.  Let `I` be an invariant that implies `P` and that guarded steps preserve.  If an
unguarded step, when it completes at all, leads to a state that violates `P`, then `P` holds in every state
of a run exactly when every step the run completes is guarded. -/
theorem always_iff_eachDone_given {I P : S → Prop} {B G : S → A → Prop} (hIP : ∀ s, I s → P s)
    (hstep : ∀ s a s', I s → B s a → G s a → step s a = .ok s' → I s')
    (hbad : ∀ s a s', I s → B s a → ¬ G s a → step s a = .ok s' → ¬ P s')
    {s : S} {as : List A} (hs : I s) (hB : EachStep step B s as) :
    Always step P s as ↔ EachDone step G s as := by
  induction as generalizing s with
  | nil => exact ⟨fun _ => trivial, fun _ => hIP s hs⟩
  | cons a as ih =>
    constructor
    · intro h
      have hG : ∀ s', step s a = .ok s' → G s a := by
        intro s' hs'
        by_contra hG
        exact hbad s a s' hs hB.1 hG hs' (h.2 s' hs').head
      exact ⟨hG, fun s' hs' =>
        (ih (hstep s a s' hs hB.1 (hG s' hs') hs') (hB.2 s' hs')).mp (h.2 s' hs')⟩
    · intro h
      refine ⟨hIP s hs, fun s' hs' => ?_⟩
      exact (ih (hstep s a s' hs hB.1 (h.1 s' hs') hs') (hB.2 s' hs')).mpr (h.2 s' hs')

/-- Any run keeps to no condition. -/
theorem eachStep_trivial (s : S) (as : List A) : EachStep step (fun _ _ => True) s as := by
  induction as generalizing s with
  | nil => trivial
  | cons a as ih => exact ⟨trivial, fun s' _ => ih s'⟩

/-- The same without a background condition. -/
theorem always_iff_eachDone {I P : S → Prop} {G : S → A → Prop} (hIP : ∀ s, I s → P s)
    (hstep : ∀ s a s', I s → G s a → step s a = .ok s' → I s')
    (hbad : ∀ s a s', I s → ¬ G s a → step s a = .ok s' → ¬ P s')
    {s : S} {as : List A} (hs : I s) : Always step P s as ↔ EachDone step G s as :=
  always_iff_eachDone_given hIP (fun s a s' hI _ => hstep s a s' hI)
    (fun s a s' hI _ => hbad s a s' hI) hs (eachStep_trivial s as)

/-- Two guards are one. -/
theorem eachStep_and {G G' : S → A → Prop} {s : S} {as : List A} (h : EachStep step G s as)
    (h' : EachStep step G' s as) : EachStep step (fun s a => G s a ∧ G' s a) s as := by
  induction as generalizing s with
  | nil => trivial
  | cons a as ih => exact ⟨⟨h.1, h'.1⟩, fun s' hs' => ih (h.2 s' hs') (h'.2 s' hs')⟩

/-- What holds always may be weakened. -/
theorem Always.mono {P Q : S → Prop} (h : ∀ s, P s → Q s) {s : S} {as : List A}
    (hP : Always step P s as) : Always step Q s as := by
  induction as generalizing s with
  | nil => exact h s hP
  | cons a as ih => exact ⟨h s hP.1, fun s' hs' => ih (hP.2 s' hs')⟩

/-- A guard may be weakened at the states an invariant allows. -/
theorem EachStep.mono {I : S → Prop} {G G' : S → A → Prop}
    (hstep : ∀ s a s', I s → G s a → step s a = .ok s' → I s')
    (h : ∀ s a, I s → G s a → G' s a) {s : S} {as : List A} (hs : I s)
    (hG : EachStep step G s as) : EachStep step G' s as := by
  induction as generalizing s with
  | nil => trivial
  | cons a as ih =>
    exact ⟨h s a hs hG.1, fun s' hs' => ih (hstep s a s' hs hG.1 hs') (hG.2 s' hs')⟩

/-- The same without an invariant. -/
theorem EachStep.imp {G G' : S → A → Prop} (h : ∀ s a, G s a → G' s a) {s : S} {as : List A}
    (hG : EachStep step G s as) : EachStep step G' s as :=
  hG.mono (I := fun _ => True) (fun _ _ _ _ _ _ => trivial) (fun s a _ => h s a) trivial

/-- A guard that every step satisfies is one of every step that is completed. -/
theorem EachStep.done {G : S → A → Prop} {s : S} {as : List A} (h : EachStep step G s as) :
    EachDone step G s as :=
  h.imp fun _ _ hG _ _ => hG

/-- What holds always holds in the state a run ends in. -/
theorem Always.last {P : S → Prop} {s t : S} {as : List A} (hP : Always step P s as)
    (h : run step s as = .ok t) : P t := by
  induction as generalizing s with
  | nil =>
    rw [run_nil] at h
    exact Except.ok.inj h ▸ hP
  | cons a as ih =>
    cases hsa : step s a with
    | error e =>
      rw [run_cons_error hsa] at h
      exact absurd h (by simp)
    | ok s' =>
      rw [run_cons_ok hsa] at h
      exact ih (hP.2 s' hsa) h

/-- **The loop rule.**  An invariant that every step preserves holds in the state a
run ends in. -/
theorem invariant_run {I : S → Prop} (hstep : ∀ s a s', I s → step s a = .ok s' → I s')
    {s t : S} {as : List A} (hs : I s) (h : run step s as = .ok t) : I t := by
  induction as generalizing s with
  | nil =>
    rw [run_nil] at h
    exact Except.ok.inj h ▸ hs
  | cons a as ih =>
    cases hsa : step s a with
    | error e =>
      rw [run_cons_error hsa] at h
      exact absurd h (by simp)
    | ok s' =>
      rw [run_cons_ok hsa] at h
      exact ih (hstep s a s' hs hsa) h

/-- **The frame rule.**  Let `J` be an invariant of the actions that satisfy `p`.  What each of them does not
change, a run of them does not change. -/
theorem frame_run {J : S → Prop} {R : S → S → Prop} {p : A → Prop} (hrefl : ∀ s, R s s)
    (htrans : ∀ s t u, R s t → R t u → R s u)
    (hstep : ∀ s a s', J s → p a → step s a = .ok s' → J s' ∧ R s s') {s t : S} {as : List A}
    (hs : J s) (has : ∀ a ∈ as, p a) (h : run step s as = .ok t) : J t ∧ R s t := by
  induction as generalizing s with
  | nil =>
    rw [run_nil] at h
    exact Except.ok.inj h ▸ ⟨hs, hrefl s⟩
  | cons a as ih =>
    obtain ⟨ha, has⟩ := List.forall_mem_cons.mp has
    cases hsa : step s a with
    | error e =>
      rw [run_cons_error hsa] at h
      exact absurd h (by simp)
    | ok s' =>
      rw [run_cons_ok hsa] at h
      obtain ⟨hs', hR⟩ := hstep s a s' hs ha hsa
      obtain ⟨ht, hR'⟩ := ih hs' has h
      exact ⟨ht, htrans s s' t hR hR'⟩

/-- What the steps of a run put out, in order. -/
def outputs {B : Type*} (step : S → A → Except E S) (out : S → A → List B) : S → List A → List B
  | _, [] => []
  | s, a :: as =>
      match step s a with
      | .ok s' => out s a ++ outputs step out s' as
      | .error _ => []

theorem outputs_cons_ok {B : Type*} {out : S → A → List B} {s s' : S} {a : A} (h : step s a = .ok s')
    (as : List A) : outputs step out s (a :: as) = out s a ++ outputs step out s' as := by
  rw [outputs, h]

/-- **The frame rule, with outputs.**  `R s s' bs` says what has become of `s` while `bs` was put out, and
composes as the outputs do.  If it holds of each step, it holds of a run. -/
theorem outputs_run {B : Type*} {out : S → A → List B} {J : S → Prop} {R : S → S → List B → Prop}
    {p : A → Prop} (hrefl : ∀ s, R s s [])
    (htrans : ∀ s t u bs cs, R s t bs → R t u cs → R s u (bs ++ cs))
    (hstep : ∀ s a s', J s → p a → step s a = .ok s' → J s' ∧ R s s' (out s a)) {s t : S} {as : List A}
    (hs : J s) (has : ∀ a ∈ as, p a) (h : run step s as = .ok t) : J t ∧ R s t (outputs step out s as) := by
  induction as generalizing s with
  | nil =>
    rw [run_nil] at h
    exact Except.ok.inj h ▸ ⟨hs, hrefl s⟩
  | cons a as ih =>
    obtain ⟨ha, has⟩ := List.forall_mem_cons.mp has
    cases hsa : step s a with
    | error e =>
      rw [run_cons_error hsa] at h
      exact absurd h (by simp)
    | ok s' =>
      rw [run_cons_ok hsa] at h
      obtain ⟨hs', hR⟩ := hstep s a s' hs ha hsa
      obtain ⟨ht, hR'⟩ := ih hs' has h
      rw [outputs_cons_ok hsa]
      exact ⟨ht, htrans s s' t _ _ hR hR'⟩

/-- **The countdown rule.**  `J k s` says that `k` more of the actions that `q` counts are enough.  If each of
these counts down, and the others do not count up, a run that has so many of them ends with nothing left. -/
theorem countdown_run {J : ℕ → S → Prop} {p : A → Prop} {q : A → Bool}
    (hstep : ∀ k s a s', p a → J k s → step s a = .ok s' → J (if q a then k - 1 else k) s') {k : ℕ} {s t : S}
    {as : List A} (hs : J k s) (has : ∀ a ∈ as, p a) (h : run step s as = .ok t) : J (k - as.countP q) t := by
  induction as generalizing k s with
  | nil =>
    rw [run_nil] at h
    exact Except.ok.inj h ▸ hs
  | cons a as ih =>
    obtain ⟨ha, has⟩ := List.forall_mem_cons.mp has
    cases hsa : step s a with
    | error e =>
      rw [run_cons_error hsa] at h
      exact absurd h (by simp)
    | ok s' =>
      rw [run_cons_ok hsa] at h
      have hrest := ih (hstep k s a s' ha hs hsa) has h
      rw [List.countP_cons]
      cases hq : q a with
      | true =>
        rw [hq, if_pos rfl, Nat.sub_sub, Nat.add_comm 1] at hrest
        exact hrest
      | false =>
        rw [hq] at hrest
        exact hrest

/-- **Which runs do not stop.**  If a step goes on exactly when it is guarded, a run comes to its end
exactly when every step is. -/
theorem run_returns_iff {I : S → Prop} {G : S → A → Prop}
    (hI : ∀ s a s', I s → step s a = .ok s' → I s')
    (hG : ∀ s a, I s → ((∃ s', step s a = .ok s') ↔ G s a)) {s : S} {as : List A} (hs : I s) :
    (∃ t, run step s as = .ok t) ↔ EachStep step G s as := by
  induction as generalizing s with
  | nil => exact ⟨fun _ => trivial, fun _ => ⟨s, rfl⟩⟩
  | cons a as ih =>
    rw [EachStep, ← hG s a hs]
    cases hsa : step s a with
    | ok s' =>
      rw [run_cons_ok hsa, ih (hI s a s' hs hsa)]
      refine ⟨fun h => ⟨⟨s', rfl⟩, fun s'' hs'' => Except.ok.inj hs'' ▸ h⟩, fun h => h.2 s' rfl⟩
    | error e =>
      rw [run_cons_error hsa]
      refine ⟨fun ⟨t, h⟩ => absurd h (by simp), fun ⟨⟨t, h⟩, _⟩ => absurd h (by simp)⟩

/-- The steps of a run in two parts. -/
theorem eachStep_append_iff {G : S → A → Prop} {s : S} {as bs : List A} :
    EachStep step G s (as ++ bs) ↔
      EachStep step G s as ∧ ∀ t, run step s as = .ok t → EachStep step G t bs := by
  induction as generalizing s with
  | nil => exact ⟨fun h => ⟨trivial, fun t ht => Except.ok.inj ht ▸ h⟩, fun h => h.2 s rfl⟩
  | cons a as ih =>
    rw [List.cons_append, EachStep, EachStep, and_assoc]
    refine and_congr_right fun _ => ?_
    cases hsa : step s a with
    | ok s' =>
      rw [run_cons_ok hsa]
      refine ⟨fun h => ?_, fun h s'' hs'' => ?_⟩
      · obtain ⟨h₁, h₂⟩ := ih.mp (h s' rfl)
        exact ⟨fun s'' hs'' => Except.ok.inj hs'' ▸ h₁, h₂⟩
      · obtain rfl := Except.ok.inj hs''
        exact ih.mpr ⟨h.1 s' rfl, h.2⟩
    | error e =>
      rw [run_cons_error hsa]
      exact ⟨fun _ => ⟨fun _ h => absurd h (by simp), fun _ h => absurd h (by simp)⟩,
        fun _ _ h => absurd h (by simp)⟩

/-- If unguarded steps stop, a run that is not guarded throughout stops. -/
theorem exists_error_of_not_eachStep {G : S → A → Prop}
    (hbad : ∀ s a, ¬ G s a → ∃ e, step s a = .error e) {s : S} {as : List A}
    (h : ¬ EachStep step G s as) : ∃ e, run step s as = .error e := by
  induction as generalizing s with
  | nil => exact absurd trivial h
  | cons a as ih =>
    by_cases hG : G s a
    · cases hsa : step s a with
      | error e => exact ⟨e, run_cons_error hsa as⟩
      | ok s' =>
        rw [run_cons_ok hsa]
        exact ih fun hs' => h ⟨hG, fun s'' hs'' => Except.ok.inj (hsa.symm.trans hs'') ▸ hs'⟩
    · obtain ⟨e, he⟩ := hbad s a hG
      exact ⟨e, run_cons_error he as⟩

/-- A run stops with an error some step stops with. -/
theorem exists_step_error {s : S} {as : List A} {e : E} (h : run step s as = .error e) :
    ∃ t a, step t a = .error e := by
  induction as generalizing s with
  | nil => exact absurd h (by simp)
  | cons a as ih =>
    cases hsa : step s a with
    | error e' =>
      rw [run_cons_error hsa] at h
      exact ⟨s, a, by rw [hsa, Except.error.inj h]⟩
    | ok s' =>
      rw [run_cons_ok hsa] at h
      exact ih h

end Runs
end NetCosm
