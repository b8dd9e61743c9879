import Mathlib.Data.List.Basic

/-!
# Loops

A loop has a body that says, from a state, that the loop is over, or goes to the next state, or
fails.  `loop body e n` is the loop, given `n` turns; when they are used up it fails with `e`.

There are two rules for a loop that ends and one for a loop that does not.

* `invariant_loop` --- what every turn preserves holds when the loop is over.
* `loop_ends` --- if every turn makes something smaller, the loop needs no more turns than that.
* `loop_endless` --- if from any state of a kind the loop goes on to one of that kind, then it
  fails however many turns it is given.

A loop over a list is a `foldlM`.  If what a turn computes depends on the item alone, then the loop
returns if no turn fails (`foldlM_of_ok`), and fails if one does (`foldlM_of_stops`).
-/

namespace NetCosm

universe u v

variable {S : Type u} {E : Type v} {body : S → Except E (Option S)} {e : E}

/-- A loop that is given `n` turns. -/
def loop (body : S → Except E (Option S)) (e : E) : ℕ → S → Except E S
  | 0, _ => .error e
  | n + 1, s =>
      match body s with
      | .error e' => .error e'
      | .ok none => .ok s
      | .ok (some s') => loop body e n s'

theorem loop_succ_error {s : S} {e' : E} (h : body s = .error e') (n : ℕ) :
    loop body e (n + 1) s = .error e' := by
  simp only [loop, h]

theorem loop_succ_none {s : S} (h : body s = .ok none) (n : ℕ) :
    loop body e (n + 1) s = .ok s := by
  simp only [loop, h]

theorem loop_succ_some {s s' : S} (h : body s = .ok (some s')) (n : ℕ) :
    loop body e (n + 1) s = loop body e n s' := by
  simp only [loop, h]

/-- **The invariant rule.** -/
theorem invariant_loop {I : S → Prop} (hbody : ∀ s s', I s → body s = .ok (some s') → I s')
    {n : ℕ} {s t : S} (hs : I s) (h : loop body e n s = .ok t) : I t ∧ body t = .ok none := by
  induction n generalizing s with
  | zero => exact absurd h (by simp [loop])
  | succ n ih =>
    cases hb : body s with
    | error e' =>
      rw [loop_succ_error hb] at h
      exact absurd h (by simp)
    | ok r =>
      cases r with
      | none =>
        rw [loop_succ_none hb] at h
        obtain rfl := Except.ok.inj h
        exact ⟨hs, hb⟩
      | some s' =>
        rw [loop_succ_some hb] at h
        exact ih (hbody s s' hs hb) h

/-- **The rule for loops that end.**  `μ` becomes smaller in every turn. -/
theorem loop_ends {I : S → Prop} {μ : S → ℕ}
    (hbody : ∀ s, I s → ∃ r, body s = .ok r ∧ ∀ s', r = some s' → I s' ∧ μ s' < μ s)
    {n : ℕ} {s : S} (hs : I s) (hn : μ s < n) :
    ∃ t, loop body e n s = .ok t ∧ I t ∧ body t = .ok none := by
  induction n generalizing s with
  | zero => exact absurd hn (Nat.not_lt_zero _)
  | succ n ih =>
    obtain ⟨r, hb, hr⟩ := hbody s hs
    cases r with
    | none => exact ⟨s, loop_succ_none hb n, hs, hb⟩
    | some s' =>
      obtain ⟨hs', hlt⟩ := hr s' rfl
      obtain ⟨t, ht, hI⟩ := ih hs' (by omega)
      exact ⟨t, (loop_succ_some hb n).trans ht, hI⟩

/-- **The rule for loops that do not end.** -/
theorem loop_endless {J : S → Prop} (hbody : ∀ s, J s → ∃ s', body s = .ok (some s') ∧ J s')
    {s : S} (hs : J s) (n : ℕ) : loop body e n s = .error e := by
  induction n generalizing s with
  | zero => rfl
  | succ n ih =>
    obtain ⟨s', hb, hs'⟩ := hbody s hs
    rw [loop_succ_some hb, ih hs']

/-! ## Loops over a list -/

section Lists

variable {A B : Type*} {f : A → Except E B} (put : S → A → B → S) {l : List A}

/-- **No turn fails.** -/
theorem foldlM_of_ok {g : A → B} (h : ∀ a ∈ l, f a = .ok (g a)) (s : S) :
    l.foldlM (fun s a => (f a).map (put s a)) s = .ok (l.foldl (fun s a => put s a (g a)) s) := by
  induction l generalizing s with
  | nil => rfl
  | cons a l ih =>
    rw [List.foldlM_cons, h a (List.mem_cons_self ..)]
    exact ih (fun b hb => h b (List.mem_cons_of_mem a hb)) _

/-- **A turn fails**, and there is only one way to. -/
theorem foldlM_of_stops (h : ∀ a ∈ l, (∃ b, f a = .ok b) ∨ f a = .error e)
    (hstops : ∃ a ∈ l, f a = .error e) (s : S) :
    l.foldlM (fun s a => (f a).map (put s a)) s = .error e := by
  induction l generalizing s with
  | nil => exact absurd hstops (by simp)
  | cons a l ih =>
    rw [List.foldlM_cons]
    rcases h a (List.mem_cons_self ..) with ⟨b, hb⟩ | herr
    · rw [hb]
      refine ih (fun a' ha' => h a' (List.mem_cons_of_mem a ha')) ?_ _
      obtain ⟨a', ha', herr⟩ := hstops
      rcases List.mem_cons.mp ha' with rfl | ha'
      · exact absurd (hb.symm.trans herr) (by simp)
      · exact ⟨a', ha', herr⟩
    · rw [herr]
      rfl

end Lists

end NetCosm
