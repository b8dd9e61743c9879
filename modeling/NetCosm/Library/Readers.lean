import NetCosm.Library.Outcome
import Mathlib.Data.List.TakeDrop

/-!
# Programs that read a file

A reader takes symbols from the front of what is left of a file, keeps a state, and may fail.
A read of `n` symbols from a file that has fewer returns what there is; whether a program
notices is the program's business.  So there are two reads: `readExact`, which fails, and
`readUpTo`, which goes on.

## What is said of a reader

* `Reads P r bs Q` --- with `bs` in front and anything behind, and from a state with `P`, the
  reader returns, has taken exactly `bs`, and `Q` holds of the result and the state.
* `Starves T A r` --- with nothing left in the file, the reader fails with a tolerated error,
  or returns something with `A`.
* `Cut T A P r bs` --- the file ends within `bs`.  The reader fails with a tolerated error, or
  it comes to the end of the file and returns something with `A`.
* `Preserves P A r` --- whatever is in the file, if the reader returns, it has kept `P`, and returns
  something with `A`.

With `A` false, `Cut` is "a truncated file is noticed here"; with `A` true, it is "nothing is
left over for what comes next".

## The rules

`Loads` is `Reads` and `Cut` together, and its rules follow the shape of a program.
`Loads.bind` is one reader after another: if the file ends in the first, the second starves, and
if it ends in the second, the first has read what it should.  `Loads.turns` is the loop that
reads one item a turn.
-/

namespace NetCosm

universe u

/-- A program that reads symbols `β`, has a state `σ` and fails with an `ε`. -/
abbrev Reader (β σ ε : Type u) : Type u → Type u := StateT (List β) (StateT σ (Except ε))

/-- The second of two steps, once the first has returned. -/
theorem stateT_bind_of_ok {σ ε α γ : Type u} {p : StateT σ (Except ε) α}
    {f : α → StateT σ (Except ε) γ} {h h' : σ} {a : α} (hp : p h = .ok (a, h')) :
    (p >>= f) h = f a h' := by
  show p h >>= _ = _
  rw [hp]
  rfl

namespace Reader

variable {β σ ε α γ : Type u}

/-- Run a reader on a file, from a state. -/
def on (r : Reader β σ ε α) (s : List β) (h : σ) : Except ε ((α × List β) × σ) := r s h

@[simp] theorem on_pure (a : α) (s : List β) (h : σ) :
    on (pure a : Reader β σ ε α) s h = .ok ((a, s), h) := rfl

theorem on_bind (r : Reader β σ ε α) (f : α → Reader β σ ε γ) (s : List β) (h : σ) :
    on (r >>= f) s h = (on r s h >>= fun x => on (f x.1.1) x.1.2 x.2) := rfl

/-- The second of two readers, once the first has returned. -/
theorem on_bind_of_ok {r : Reader β σ ε α} {f : α → Reader β σ ε γ} {s s' : List β} {h h' : σ}
    {a : α} (hr : on r s h = .ok ((a, s'), h')) : on (r >>= f) s h = on (f a) s' h' := by
  rw [on_bind, hr]
  rfl

/-- A step that does not read. -/
def lift (p : StateT σ (Except ε) α) : Reader β σ ε α := fun s h =>
  (p h).map fun x => ((x.1, s), x.2)

/-- A call that neither reads nor looks at the state. -/
def call (x : Except ε α) : Reader β σ ε α := lift fun h => x.map fun a => (a, h)

/-- A reader that has no state. -/
def ofFile (d : List β → Except ε (α × List β)) : Reader β σ ε α := fun s h =>
  (d s).map fun x => (x, h)

/-- Fail. -/
def fail (e : ε) : Reader β σ ε α := fun _ _ => .error e

/-- Read `n` symbols, or fail. -/
def readExact (n : ℕ) (e : ε) : Reader β σ ε (List β) := fun s h =>
  if n ≤ s.length then .ok ((s.take n, s.drop n), h) else .error e

/-- Read `n` symbols, or what there is. -/
def readUpTo (n : ℕ) : Reader β σ ε (List β) := fun s h => .ok ((s.take n, s.drop n), h)

/-- A loop that is given more turns than there are symbols left. -/
def withFuel (f : ℕ → Reader β σ ε α) : Reader β σ ε α := fun s h => on (f (s.length + 1)) s h

/-- `n` turns of a loop, counted from `j`. -/
def turns (body : ℕ → α → Reader β σ ε α) : ℕ → ℕ → α → Reader β σ ε α
  | 0, _, a => pure a
  | n + 1, j, a => body j a >>= fun a => turns body n (j + 1) a

/-- The last turn of a loop. -/
theorem turns_succ (body : ℕ → α → Reader β σ ε α) (n j : ℕ) (a : α) :
    turns body (n + 1) j a = turns body n j a >>= body (j + n) := by
  induction n generalizing j a with
  | zero =>
    rw [turns, turns, pure_bind, Nat.add_zero]
    exact bind_pure (body j a)
  | succ n ih =>
    rw [turns, turns, bind_assoc]
    refine congrArg (body j a >>= ·) (funext fun a' => ?_)
    rw [ih, Nat.add_right_comm, Nat.add_assoc]

end Reader

open Reader

variable {β σ ε α γ : Type u}

/-- **The reader takes exactly `bs`.** -/
def Reads (P : σ → Prop) (r : Reader β σ ε α) (bs : List β) (Q : α → σ → Prop) : Prop :=
  ∀ rest h, P h → ∃ a h', on r (bs ++ rest) h = .ok ((a, rest), h') ∧ Q a h'

/-- **With nothing left** the reader fails, or returns something with `A`. -/
def Starves (T : ε → Prop) (A : α → Prop) (r : Reader β σ ε α) : Prop :=
  ∀ h, Sat T (on r [] h) fun x => A x.1.1 ∧ x.1.2 = []

/-- **The file ends within `bs`.** -/
def Cut (T : ε → Prop) (A : α → Prop) (P : σ → Prop) (r : Reader β σ ε α) (bs : List β) : Prop :=
  ∀ s, s <+: bs → s ≠ bs → ∀ h, P h → Sat T (on r s h) fun x => A x.1.1 ∧ x.1.2 = []

/-- **The reader takes exactly `bs`, and does not go past the end of a file that ends within.** -/
structure Loads (T : ε → Prop) (P : σ → Prop) (r : Reader β σ ε α) (bs : List β)
    (Q : α → σ → Prop) (A : α → Prop) : Prop where
  reads : Reads P r bs Q
  cut : Cut T A P r bs

variable {T : ε → Prop} {P : σ → Prop} {r : Reader β σ ε α} {f : α → Reader β σ ε γ}
  {bs cs : List β} {Q : γ → σ → Prop} {R : α → σ → Prop} {A : α → Prop} {C : γ → Prop}

/-! ## Reading what is there -/

/-- The second of two readers reads on where the first has stopped. -/
theorem Reads.bind (hr : Reads P r bs R) (hf : ∀ a, Reads (R a) (f a) cs Q) :
    Reads P (r >>= f) (bs ++ cs) Q := by
  intro rest s hs
  obtain ⟨a, s', hok, hR⟩ := hr (cs ++ rest) s hs
  obtain ⟨c, s'', hok', hQ⟩ := hf a rest s' hR
  refine ⟨c, s'', ?_, hQ⟩
  rw [List.append_assoc, on_bind_of_ok hok, hok']

/-! ## At the end of the file -/

theorem Starves.mono {A' : α → Prop} (h : Starves T A r) (hA : ∀ a, A a → A' a) :
    Starves T A' r :=
  fun s => (h s).mono fun _ hx => ⟨hA _ hx.1, hx.2⟩

theorem starves_pure {a : α} (h : A a) : Starves T A (pure a : Reader β σ ε α) := fun _ => ⟨h, rfl⟩

theorem Starves.bind (hr : Starves T A r) (hf : ∀ a, A a → Starves T C (f a)) :
    Starves T C (r >>= f) := by
  intro s
  rw [on_bind]
  refine sat_bind (hr s) ?_
  rintro ⟨⟨a, rest⟩, s'⟩ ⟨hA, rfl⟩
  exact hf a hA s'

/-- A reader that fails at the end of the file, whatever comes after it. -/
theorem Starves.stop (hr : Starves T (fun _ => False) r) : Starves T C (r >>= f) :=
  hr.bind fun _ h => h.elim

theorem starves_readExact {A : List β → Prop} {e : ε} {n : ℕ} (hn : 0 < n) (he : T e) :
    Starves T A (readExact n e : Reader β σ ε (List β)) := by
  intro s
  show Sat T (if n ≤ 0 then _ else _) _
  rw [if_neg (by omega)]
  exact he

theorem starves_readUpTo {A : List β → Prop} {n : ℕ} (h : A []) :
    Starves T A (readUpTo n : Reader β σ ε (List β)) := by
  intro s
  show A (([] : List β).take n) ∧ ([] : List β).drop n = []
  rw [List.take_nil, List.drop_nil]
  exact ⟨h, rfl⟩

/-- A loop that starves in each of its turns. -/
theorem starves_turns {body : ℕ → α → Reader β σ ε α} (hbody : ∀ j a, A a → Starves T A (body j a))
    (n j : ℕ) {a : α} (ha : A a) : Starves T A (turns body n j a) := by
  induction n generalizing j a with
  | zero => exact starves_pure ha
  | succ n ih => exact (hbody j a ha).bind fun a' ha' => ih (j + 1) ha'

/-! ## Files that end too early -/

/-- The file ends in the first of two parts, or in the second. -/
theorem prefix_append_cases {s : List β} (h : s <+: bs ++ cs) (hne : s ≠ bs ++ cs) :
    (s <+: bs ∧ s ≠ bs) ∨ ∃ t, s = bs ++ t ∧ t <+: cs ∧ t ≠ cs := by
  rcases List.prefix_or_prefix_of_prefix h (List.prefix_append bs cs) with hs | ⟨t, rfl⟩
  · by_cases heq : s = bs
    · subst heq
      refine Or.inr ⟨[], (List.append_nil s).symm, List.nil_prefix, ?_⟩
      rintro rfl
      exact hne (List.append_nil s).symm
    · exact Or.inl ⟨hs, heq⟩
  · refine Or.inr ⟨t, rfl, (List.prefix_append_right_inj bs).mp h, ?_⟩
    rintro rfl
    exact hne rfl

/-- There is no end within nothing. -/
theorem cut_nil : Cut T A P r [] := fun _ hs hne => absurd (List.prefix_nil.mp hs) hne

/-- **A file that ends in the first of two readers.** -/
theorem Cut.before (hr : Cut T A P r bs) (hA : ∀ a, A a → Starves T C (f a)) :
    Cut T C P (r >>= f) bs := by
  intro s hs hne h hP
  rw [on_bind]
  refine sat_bind (hr s hs hne h hP) ?_
  rintro ⟨⟨a, rest⟩, h'⟩ ⟨ha, rfl⟩
  exact hA a ha h'

/-- **A file that ends in the first or in the second of two readers.** -/
theorem Cut.bind (hr : Loads T P r bs R A) (hA : ∀ a, A a → Starves T C (f a))
    (hf : ∀ a, Cut T C (R a) (f a) cs) : Cut T C P (r >>= f) (bs ++ cs) := by
  intro s hs hne h hP
  rcases prefix_append_cases hs hne with ⟨hs', hne'⟩ | ⟨t, rfl, ht, htne⟩
  · exact hr.cut.before hA s hs' hne' h hP
  · obtain ⟨a, h', hok, hR⟩ := hr.reads t h hP
    rw [on_bind_of_ok hok]
    exact hf a t ht htne h' hR

/-! ## Both -/

theorem Loads.mono {P' : σ → Prop} {R' : α → σ → Prop} {A' : α → Prop} (h : Loads T P r bs R A)
    (hP : ∀ h, P' h → P h) (hR : ∀ a h, R a h → R' a h) (hA : ∀ a, A a → A' a) :
    Loads T P' r bs R' A' where
  reads rest s hs :=
    let ⟨a, s', hok, hQ⟩ := h.reads rest s (hP s hs)
    ⟨a, s', hok, hR a s' hQ⟩
  cut s hs hne st hst := (h.cut s hs hne st (hP st hst)).mono fun _ hx => ⟨hA _ hx.1, hx.2⟩

/-- What does not depend on the state is kept. -/
theorem Loads.given (h : Loads T P r bs R A) (F : Prop) :
    Loads T (fun s => F ∧ P s) r bs (fun a s => F ∧ R a s) A where
  reads rest s hs :=
    let ⟨a, s', hok, hQ⟩ := h.reads rest s hs.2
    ⟨a, s', hok, hs.1, hQ⟩
  cut s hs hne st hst := h.cut s hs hne st hst.2

/-- A fact about the start may be used for the whole. -/
theorem loads_of_fact {F : Prop} (h : F → Loads T P r bs R A) :
    Loads T (fun s => F ∧ P s) r bs R A :=
  ⟨fun rest s hs => (h hs.1).reads rest s hs.2,
    fun s hs hne st hst => (h hst.1).cut s hs hne st hst.2⟩

theorem loads_pure {a : α} (h : ∀ s, P s → R a s) :
    Loads T P (pure a : Reader β σ ε α) [] R A := ⟨fun _ s hs => ⟨a, s, rfl, h s hs⟩, cut_nil⟩

theorem loads_lift {p : StateT σ (Except ε) α}
    (h : ∀ s, P s → ∃ a s', p s = .ok (a, s') ∧ R a s') :
    Loads T P (lift p : Reader β σ ε α) [] R A := by
  refine ⟨fun rest s hs => ?_, cut_nil⟩
  obtain ⟨a, s', hok, hQ⟩ := h s hs
  refine ⟨a, s', ?_, hQ⟩
  show (p s).map _ = _
  rw [hok]
  rfl

/-- A step without effect on the state. -/
theorem loads_call {x : Except ε α} {a : α} (hx : x = .ok a) (h : ∀ s, P s → R a s) :
    Loads T P (call x : Reader β σ ε α) [] R A := by
  refine loads_lift fun s hs => ⟨a, s, ?_, h s hs⟩
  rw [hx]
  rfl

/-- **One reader after another.** -/
theorem Loads.bind (hr : Loads T P r bs R A) (hA : ∀ a, A a → Starves T C (f a))
    (hf : ∀ a, Loads T (R a) (f a) cs Q C) : Loads T P (r >>= f) (bs ++ cs) Q C :=
  ⟨hr.reads.bind fun a => (hf a).reads, Cut.bind hr hA fun a => (hf a).cut⟩

/-- After a reader that notices the end of the file, anything. -/
theorem Loads.andThen (hr : Loads T P r bs R fun _ => False)
    (hf : ∀ a, Loads T (R a) (f a) cs Q C) : Loads T P (r >>= f) (bs ++ cs) Q C :=
  hr.bind (fun _ h => h.elim) hf

/-- Before a step that does not read. -/
theorem Loads.finish (hr : Loads T P r bs R A) (hA : ∀ a, A a → Starves T C (f a))
    (hf : ∀ a, Loads T (R a) (f a) [] Q C) : Loads T P (r >>= f) bs Q C := by
  have h := hr.bind hA hf
  rwa [List.append_nil] at h

/-- After a step that does not read. -/
theorem Loads.start (hr : Loads T P r [] R A) (hf : ∀ a, Loads T (R a) (f a) cs Q C) :
    Loads T P (r >>= f) cs Q C :=
  (Loads.mk hr.reads cut_nil : Loads T P r [] R fun _ => False).andThen hf

theorem loads_readExact {e : ε} {Q : List β → σ → Prop} {A : List β → Prop} {n : ℕ}
    (hn : bs.length = n) (he : T e) (h : ∀ s, P s → Q bs s) :
    Loads T P (readExact n e) bs Q A := by
  refine ⟨fun rest s hs => ⟨bs, s, ?_, h s hs⟩, fun s hs hne st _ => ?_⟩
  · show (if n ≤ (bs ++ rest).length then _ else _) = _
    rw [if_pos (by rw [List.length_append]; omega), List.take_left' hn, List.drop_left' hn]
  · have hlt : s.length < n :=
      hn ▸ Nat.lt_of_le_of_ne hs.length_le fun heq => hne (hs.eq_of_length heq)
    show Sat T (if n ≤ s.length then _ else _) _
    rw [if_neg (Nat.not_le_of_lt hlt)]
    exact he

theorem loads_readUpTo {Q : List β → σ → Prop} {A : List β → Prop} {n : ℕ} (hn : bs.length = n)
    (h : ∀ s, P s → Q bs s) (hA : ∀ s, s <+: bs → s ≠ bs → A s) :
    Loads T P (readUpTo n : Reader β σ ε (List β)) bs Q A := by
  refine ⟨fun rest s hs => ⟨bs, s, ?_, h s hs⟩, fun s hs hne st _ => ?_⟩
  · show Except.ok (((bs ++ rest).take n, (bs ++ rest).drop n), s) = _
    rw [List.take_left' hn, List.drop_left' hn]
  · have hle : s.length ≤ n := hn ▸ hs.length_le
    show A (s.take n) ∧ s.drop n = []
    rw [List.take_of_length_le hle, List.drop_eq_nil_of_le hle]
    exact ⟨hA s hs hne, rfl⟩

/-- A loop whose number of turns nothing but the file bounds. -/
theorem loads_withFuel {g : ℕ → Reader β σ ε α} (hreads : ∀ n, bs.length < n → Reads P (g n) bs R)
    (hcut : ∀ n s, s.length < n → s <+: bs → s ≠ bs → ∀ h, P h →
      Sat T (on (g n) s h) fun x => A x.1.1 ∧ x.1.2 = []) : Loads T P (withFuel g) bs R A := by
  refine ⟨fun rest s hs => ?_, fun s hs hne h hP => ?_⟩
  · exact hreads _ (by rw [List.length_append]; omega) rest s hs
  · exact hcut _ s (Nat.lt_succ_self _) hs hne h hP

/-- **A loop that reads one item a turn.**  `I done a` is what holds of the state when the
items `done` have been read and the loop has come to `a`. -/
theorem Loads.turns {ι : Type u} {body : ℕ → α → Reader β σ ε α} {b : ι → List β}
    {I : List ι → α → σ → Prop} {items : List ι}
    (hbody : ∀ done i later, items = done ++ i :: later → ∀ a,
      Loads T (I done a) (body done.length a) (b i) (I (done ++ [i])) A)
    (hstarves : ∀ j a, A a → Starves T A (body j a))
    (done later : List ι) (h : items = done ++ later) (a : α) :
    Loads T (I done a) (Reader.turns body later.length done.length a) (later.flatMap b) (I items)
      A := by
  induction later generalizing done a with
  | nil =>
    rw [List.append_nil] at h
    exact loads_pure fun s hs => h ▸ hs
  | cons i later ih =>
    rw [List.flatMap_cons]
    refine (hbody done i later h a).bind (fun a' ha' => starves_turns hstarves _ _ ha')
      fun a' => ?_
    have hnext := ih (done ++ [i]) (by rw [h, List.append_assoc]; rfl) a'
    rwa [List.length_append, List.length_singleton] at hnext

/-! ## What a reader keeps -/

/-- **Whatever is in the file**, the reader keeps `P`, and what it returns has `A`. -/
def Preserves (P : σ → Prop) (A : α → Prop) (r : Reader β σ ε α) : Prop :=
  ∀ s h, P h → Sat (fun _ => True) (on r s h) fun x => A x.1.1 ∧ P x.2

theorem Preserves.of_ok (hr : Preserves P A r) {s : List β} {h : σ} {x : (α × List β) × σ} (hP : P h)
    (hx : on r s h = .ok x) : A x.1.1 ∧ P x.2 := (hr s h hP).of_eq hx

theorem preserves_pure {a : α} (h : A a) : Preserves P A (pure a : Reader β σ ε α) := fun _ _ hP => ⟨h, hP⟩

theorem preserves_fail {e : ε} : Preserves P A (fail e : Reader β σ ε α) := fun _ _ _ => trivial

/-- **One reader after another.** -/
theorem Preserves.bind (hr : Preserves P A r) (hf : ∀ a, A a → Preserves P C (f a)) : Preserves P C (r >>= f) := by
  intro s h hP
  rw [on_bind]
  exact sat_bind (hr s h hP) fun x hx => hf x.1.1 hx.1 x.1.2 x.2 hx.2

theorem preserves_readExact {n : ℕ} {e : ε} :
    Preserves P (fun _ => True) (readExact n e : Reader β σ ε (List β)) := by
  intro s h hP
  show Sat _ (if n ≤ s.length then _ else _) _
  split
  · exact ⟨trivial, hP⟩
  · trivial

theorem preserves_readUpTo {n : ℕ} : Preserves P (fun _ => True) (readUpTo n : Reader β σ ε (List β)) :=
  fun _ _ hP => ⟨trivial, hP⟩

/-- A step that does not read. -/
theorem preserves_lift {p : StateT σ (Except ε) α}
    (h : ∀ s, P s → Sat (fun _ => True) (p s) fun x => A x.1 ∧ P x.2) :
    Preserves P A (lift p : Reader β σ ε α) := fun _ st hP => sat_map (h st hP)

/-- A call that does not look at the state. -/
theorem preserves_call {x : Except ε α} : Preserves P (fun _ => True) (call x : Reader β σ ε α) := by
  refine preserves_lift fun s hP => sat_map ?_
  cases x with
  | ok a => exact ⟨trivial, hP⟩
  | error e => trivial

/-- A reader that has no state. -/
theorem preserves_ofFile {d : List β → Except ε (α × List β)} :
    Preserves P (fun _ => True) (ofFile d : Reader β σ ε α) := by
  intro s h hP
  refine sat_map ?_
  cases d s with
  | ok x => exact ⟨trivial, hP⟩
  | error e => trivial

theorem preserves_withFuel {g : ℕ → Reader β σ ε α} (h : ∀ n, Preserves P A (g n)) : Preserves P A (withFuel g) :=
  fun s => h (s.length + 1) s

/-- **A loop.** -/
theorem preserves_turns {body : ℕ → α → Reader β σ ε α} (hbody : ∀ j a, A a → Preserves P A (body j a))
    (n j : ℕ) {a : α} (ha : A a) : Preserves P A (turns body n j a) := by
  induction n generalizing j a with
  | zero => exact preserves_pure ha
  | succ n ih => exact (hbody j a ha).bind fun a' ha' => ih (j + 1) ha'

end NetCosm
