import NetCosm.Library.Outcome
import NetCosm.Machine
import NetCosm.Text.Words

/-!
# The command line

`parse_args` of `server.c`.  One index drives the loop and is moved by the options that take values, and
each of them first tests whether there are so many words left.

The words of the vector are `argv[0]` to `argv[argc - 1]`.  Behind them there is a null pointer, and
behind that nothing.  The tests compare with `>`: they let an option through that has one value too few, and
then the null pointer is its last value.  It is stored as if it were a word, and read as a string if it
is to be the port.

`parseArgs_iff` says that this is the only way in which a value can come from elsewhere: `-d`, `-p` or `-w`
at the end, or `-a` with one word behind it.  A final `-a` goes to the help.
-/

namespace NetCosm

namespace Arguments

/-- What options store. -/
inductive Variable where
  | autouser
  | autopass
  | dataPrefix
  | port
  | worldModule
  deriving DecidableEq

/-- A value is stored: where it was in `argv`, and the pointer that was there. -/
structure Store where
  dest : Variable
  index : ℕ
  value : Option CString
  deriving DecidableEq

/-- The static variables. -/
structure Settings where
  autoconfig : Bool
  autouser : Option CString
  autopass : Option CString
  dataPrefix : Option CString
  port : UInt16
  worldModule : Option CString
  deriving DecidableEq

/-- Their initial values. -/
def Settings.init : Settings where
  autoconfig := false
  autouser := none
  autopass := none
  dataPrefix := none
  port := 1234
  worldModule := some (.ofChars "build/worlds/dunnet.so".toList)

/-- `strtol(s, NULL, 10)`. -/
def strtol10 (s : List UInt8) : ℤ :=
  let t := s.dropWhile fun c => isWspace c || c == 11 || c == 12
  let (negative, t) := match t with
    | 45 :: t => (true, t)
    | 43 :: t => (false, t)
    | t => (false, t)
  let digits := t.takeWhile fun c => digitOf c < 10
  let n : ℤ := digits.foldl (fun n c => n * 10 + digitOf c) 0
  max (-2 ^ 63) (min (2 ^ 63 - 1) (if negative then -n else n))

/-- An assignment. -/
def Settings.assign (x : Settings) : Variable → Option CString → Except Fault Settings
  | .autouser, value => .ok { x with autouser := value }
  | .autopass, value => .ok { x with autopass := value }
  | .dataPrefix, value => .ok { x with dataPrefix := value }
  | .port, some value => .ok { x with port := UInt16.ofInt (strtol10 value.bytes) }
  | .port, none => .error .nullPointer
  | .worldModule, value => .ok { x with worldModule := value }

/-- How `parse_args` ends: it returns, or the process exits. -/
inductive Outcome where
  | parsed (settings : Settings)
  | help
  | unknown (arg : CString)
  deriving DecidableEq

/-- Between two turns of the loop. -/
structure State where
  i : ℕ
  settings : Settings
  stores : List Store

/-- After a turn. -/
inductive Turn where
  | next (s : State)
  | stop (outcome : Outcome)

variable (argv : List CString)

/-- `argv[k]`. -/
def argAt (k : ℕ) : Except Fault (Option CString) :=
  if k < argv.length then .ok argv[k]?
  else if k = argv.length then .ok none
  else .error .outOfBounds

/-- `x = argv[++i]`. -/
def State.store (s : State) (x : Variable) : Except Fault State := do
  let value ← argAt argv (s.i + 1)
  let settings ← s.settings.assign x value
  .ok ⟨s.i + 1, settings, s.stores ++ [⟨x, s.i + 1, value⟩]⟩

/-- The cases of the options with one value. -/
def oneValue (s : State) (x : Variable) : Except Fault Turn :=
  if s.i + 1 > argv.length then .ok (.stop .help) else (s.store argv x).map .next

/-- The `switch`. -/
def parseOption (s : State) (c : UInt8) : Except Fault Turn :=
  if c = 97 then
    let s := { s with settings := { s.settings with autoconfig := true } }
    if s.i + 2 > argv.length then .ok (.stop .help)
    else do
      let s ← s.store argv .autouser
      (s.store argv .autopass).map .next
  else if c = 100 then oneValue argv s .dataPrefix
  else if c = 112 then oneValue argv s .port
  else if c = 119 then oneValue argv s .worldModule
  else .ok (.stop .help)

/-- The body of the loop. -/
def parseArg (s : State) : Except Fault Turn := do
  let arg ← argAt argv s.i
  match arg with
  | none => .error .nullPointer
  | some arg =>
      match arg.bytes with
      | 45 :: c :: _ => parseOption argv s c
      | [45] => .ok (.next s)
      | _ => .ok (.stop (.unknown arg))

/-- The loop, with a bound on its turns: how it ends, and what has been stored. -/
def parseLoop : ℕ → State → Except Fault (Outcome × List Store)
  | fuel, s =>
      if s.i < argv.length then
        match fuel with
        | 0 => .error .endlessLoop
        | fuel + 1 => do
            let turn ← parseArg argv s
            match turn with
            | .next s => parseLoop fuel { s with i := s.i + 1 }
            | .stop outcome => .ok (outcome, s.stores)
      else .ok (.parsed s.settings, s.stores)

/-- `parse_args`. -/
def parseArgs : Except Fault (Outcome × List Store) :=
  parseLoop argv argv.length ⟨1, .init, []⟩

/-! ## Which words are options -/

/-- How many words an option takes as values; none if the loop ends with it. -/
def valuesOf (arg : CString) : Option ℕ :=
  match arg.bytes with
  | 45 :: c :: _ => if c = 97 then some 2 else if c = 100 ∨ c = 112 ∨ c = 119 then some 1 else none
  | [45] => some 0
  | _ => none

/-- From the word at `i` the loop comes to the place `j`. -/
inductive Comes : ℕ → ℕ → Prop where
  | here (i : ℕ) : Comes i i
  | next {i j n : ℕ} {arg : CString} (harg : argv[i]? = some arg) (hn : valuesOf arg = some n)
      (hrest : Comes (i + n + 1) j) : Comes i j

/-- At `j` there is an option that takes `n` values, and there are not so many words behind it. -/
def Lacks (j n : ℕ) : Prop :=
  ∃ arg, argv[j]? = some arg ∧ valuesOf arg = some n ∧ argv.length ≤ j + n

/-- **Values come from the command line**: the loop returns, every value it has stored is a word of the
vector, and an option that lacks values goes to the help. -/
def FromCommandLine : Prop :=
  ∃ outcome stores, parseArgs argv = .ok (outcome, stores) ∧
    (∀ st ∈ stores, st.index < argv.length ∧ argv[st.index]? = st.value) ∧
    ∀ j n, Comes argv 1 j → Lacks argv j n → outcome = .help

/-- The only option the loop comes to that lacks values is `-a` at the end. -/
def Complete : Prop := ∀ j n, Comes argv 1 j → Lacks argv j n → n = 2 ∧ j + 1 = argv.length

/-! ## One turn -/

section Turns

variable {argv : List CString} {s : State}

/-- The stores are of words. -/
def Good (argv : List CString) (stores : List Store) : Prop :=
  ∀ st ∈ stores, st.index < argv.length ∧ argv[st.index]? = st.value

theorem good_concat {stores : List Store} {x : Variable} {k : ℕ} {arg : CString}
    (h : Good argv stores) (harg : argv[k]? = some arg) :
    Good argv (stores ++ [⟨x, k, some arg⟩]) := by
  intro st hst
  rcases List.mem_append.mp hst with hst | hst
  · exact h st hst
  · obtain rfl := List.mem_singleton.mp hst
    exact ⟨(List.getElem?_eq_some_iff.mp harg).1, harg⟩

theorem argAt_of_some {k : ℕ} {arg : CString} (harg : argv[k]? = some arg) :
    argAt argv k = .ok (some arg) := by
  rw [argAt, if_pos (List.getElem?_eq_some_iff.mp harg).1, harg]

theorem exists_assign (x : Settings) (v : Variable) (arg : CString) :
    ∃ settings, x.assign v (some arg) = .ok settings := by
  cases v <;> exact ⟨_, rfl⟩

/-- A value that is there is stored. -/
theorem store_of_lt (hgood : Good argv s.stores) (h : s.i + 1 < argv.length) (x : Variable) :
    ∃ s', s.store argv x = .ok s' ∧ s'.i = s.i + 1 ∧ Good argv s'.stores := by
  have harg : argv[s.i + 1]? = some argv[s.i + 1] := List.getElem?_eq_getElem h
  obtain ⟨settings, hset⟩ := exists_assign s.settings x argv[s.i + 1]
  refine ⟨⟨s.i + 1, settings, s.stores ++ [⟨x, s.i + 1, some argv[s.i + 1]⟩]⟩, ?_, rfl,
    good_concat hgood harg⟩
  rw [State.store, argAt_of_some harg, ok_bind, hset, ok_bind]

/-- Behind the words the null pointer is stored, or read. -/
theorem store_of_end (h : s.i + 1 = argv.length) {x : Variable} {s' : State}
    (hs : s.store argv x = .ok s') : s'.i = argv.length ∧ ¬ Good argv s'.stores := by
  obtain ⟨value, hvalue, hs⟩ := bind_eq_ok hs
  obtain ⟨settings, -, hs⟩ := bind_eq_ok hs
  obtain rfl := Except.ok.inj hs
  refine ⟨h, fun hgood => ?_⟩
  have hlt := (hgood _ (List.mem_append_right _ (List.mem_singleton_self _))).1
  exact absurd hlt (by simp [h])

/-- **An option that has its values** takes them. -/
theorem parseArg_of_lt {arg : CString} {n : ℕ} (hgood : Good argv s.stores)
    (harg : argv[s.i]? = some arg) (hn : valuesOf arg = some n) (h : s.i + n < argv.length) :
    ∃ s', parseArg argv s = .ok (.next s') ∧ s'.i = s.i + n ∧ Good argv s'.stores := by
  have hone : ∀ x : Variable, s.i + 1 < argv.length →
      ∃ s', oneValue argv s x = .ok (.next s') ∧ s'.i = s.i + 1 ∧ Good argv s'.stores := by
    intro x h
    obtain ⟨s', hs', hrest⟩ := store_of_lt hgood h x
    exact ⟨s', by rw [oneValue, if_neg (by omega), hs']; rfl, hrest⟩
  rw [parseArg, argAt_of_some harg, ok_bind]
  dsimp only
  unfold valuesOf at hn
  split at hn
  · rename_i c rest hbytes
    simp only [parseOption]
    split at hn
    · rename_i ha
      obtain rfl := Option.some.inj hn
      rw [if_pos ha, if_neg (by omega)]
      obtain ⟨s₁, hs₁, hi₁, hgood₁⟩ := store_of_lt
        (s := { s with settings := { s.settings with autoconfig := true } }) hgood
        (show s.i + 1 < argv.length by omega) .autouser
      obtain ⟨s₂, hs₂, hi₂, hgood₂⟩ := store_of_lt hgood₁ (show s₁.i + 1 < argv.length by
        have heq : s₁.i = s.i + 1 := hi₁
        omega) .autopass
      refine ⟨s₂, by rw [hs₁, ok_bind, hs₂]; rfl, ?_, hgood₂⟩
      have heq : s₁.i = s.i + 1 := hi₁
      omega
    · rename_i ha
      rw [if_neg ha]
      split at hn
      · rename_i hc
        obtain rfl := Option.some.inj hn
        split
        · exact hone _ h
        · split
          · exact hone _ h
          · rename_i hd hp
            rw [if_pos (by tauto)]
            exact hone _ h
      · exact absurd hn (by simp)
  · obtain rfl := Option.some.inj hn
    exact ⟨s, rfl, rfl, hgood⟩
  · exact absurd hn (by simp)

/-- **An option that lacks a value** goes to the help if it is `-a` at the end; otherwise something is
stored that is no word, or the process ends. -/
theorem parseArg_of_lacks {n : ℕ} (h : Lacks argv s.i n) :
    (n = 2 ∧ s.i + 1 = argv.length ∧ parseArg argv s = .ok (.stop .help)) ∨
      (¬ (n = 2 ∧ s.i + 1 = argv.length) ∧
        ∀ turn, parseArg argv s = .ok turn →
          ∃ s', turn = .next s' ∧ argv.length ≤ s'.i ∧ ¬ Good argv s'.stores) := by
  obtain ⟨arg, harg, hn, hle⟩ := h
  have hlt := (List.getElem?_eq_some_iff.mp harg).1
  have hone : ∀ x : Variable, s.i + 1 = argv.length → ∀ turn, oneValue argv s x = .ok turn →
      ∃ s', turn = .next s' ∧ argv.length ≤ s'.i ∧ ¬ Good argv s'.stores := by
    intro x hend turn hturn
    rw [oneValue, if_neg (by omega)] at hturn
    obtain ⟨s', hs', rfl⟩ := map_eq_ok hturn
    obtain ⟨hi, hbad⟩ := store_of_end hend hs'
    exact ⟨s', rfl, hi.ge, hbad⟩
  rw [parseArg, argAt_of_some harg, ok_bind]
  dsimp only
  unfold valuesOf at hn
  split at hn
  · rename_i c rest hbytes
    simp only [parseOption]
    split at hn
    · rename_i ha
      obtain rfl := Option.some.inj hn
      rw [if_pos ha]
      by_cases hlast : s.i + 1 = argv.length
      · exact Or.inl ⟨rfl, hlast, if_pos (by omega)⟩
      · refine Or.inr ⟨fun h => hlast h.2, fun turn hturn => ?_⟩
        rw [if_neg (by omega)] at hturn
        obtain ⟨s₁, hs₁, hturn⟩ := bind_eq_ok hturn
        obtain ⟨s₂, hs₂, rfl⟩ := map_eq_ok hturn
        obtain ⟨value, -, hs₁⟩ := bind_eq_ok hs₁
        obtain ⟨settings, -, hs₁⟩ := bind_eq_ok hs₁
        obtain rfl := Except.ok.inj hs₁
        obtain ⟨hi, hbad⟩ := store_of_end (show s.i + 1 + 1 = argv.length by omega) hs₂
        exact ⟨s₂, rfl, hi.ge, hbad⟩
    · rename_i ha
      rw [if_neg ha]
      split at hn
      · rename_i hc
        obtain rfl := Option.some.inj hn
        refine Or.inr ⟨fun h => absurd h.1 (by omega), fun turn hturn => ?_⟩
        have hend : s.i + 1 = argv.length := by omega
        split at hturn
        · exact hone _ hend turn hturn
        · split at hturn
          · exact hone _ hend turn hturn
          · rw [if_pos (by tauto)] at hturn
            exact hone _ hend turn hturn
      · exact absurd hn (by simp)
  · obtain rfl := Option.some.inj hn
    omega
  · exact absurd hn (by simp)

/-- Any other word ends the loop. -/
theorem parseArg_of_none {arg : CString} (harg : argv[s.i]? = some arg) (hn : valuesOf arg = none) :
    ∃ outcome, parseArg argv s = .ok (.stop outcome) := by
  rw [parseArg, argAt_of_some harg, ok_bind]
  dsimp only
  unfold valuesOf at hn
  split at hn
  · simp only [parseOption]
    split at hn
    · exact absurd hn (by simp)
    · rename_i ha
      rw [if_neg ha]
      split at hn
      · exact absurd hn (by simp)
      · rename_i hc
        rw [if_neg (by tauto), if_neg (by tauto), if_neg (by tauto)]
        exact ⟨_, rfl⟩
  · exact absurd hn (by simp)
  · exact ⟨_, rfl⟩

end Turns

/-! ## The loop -/

section Loop

variable {argv : List CString}

/-- Behind the words there is nothing to come to. -/
theorem comes_of_le {i j : ℕ} (hle : argv.length ≤ i) (h : Comes argv i j) : j = i := by
  cases h with
  | here => rfl
  | next harg => exact absurd (List.getElem?_eq_some_iff.mp harg).1 (by omega)

theorem not_lacks_of_le {j n : ℕ} (hle : argv.length ≤ j) : ¬ Lacks argv j n := fun ⟨_, harg, _⟩ =>
  absurd (List.getElem?_eq_some_iff.mp harg).1 (by omega)

/-- What is to hold of the loop from a turn on. -/
def GoodFrom (argv : List CString) (fuel : ℕ) (s : State) : Prop :=
  ∃ outcome stores, parseLoop argv fuel s = .ok (outcome, stores) ∧ Good argv stores ∧
    ∀ j n, Comes argv s.i j → Lacks argv j n → outcome = .help

/-- When it holds. -/
def CompleteFrom (argv : List CString) (i : ℕ) : Prop :=
  ∀ j n, Comes argv i j → Lacks argv j n → n = 2 ∧ j + 1 = argv.length

theorem parseLoop_of_lt {fuel : ℕ} {s : State} (h : s.i < argv.length) {turn : Turn}
    (hturn : parseArg argv s = .ok turn) :
    parseLoop argv (fuel + 1) s =
      Turn.casesOn turn (fun s => parseLoop argv fuel { s with i := s.i + 1 })
        fun outcome => .ok (outcome, s.stores) := by
  rw [parseLoop, if_pos h]
  dsimp only
  rw [hturn, ok_bind]
  cases turn <;> rfl

theorem parseLoop_of_le {fuel : ℕ} {s : State} (h : argv.length ≤ s.i) :
    parseLoop argv fuel s = .ok (.parsed s.settings, s.stores) := by
  unfold parseLoop
  rw [if_neg (Nat.not_lt.mpr h)]

/-- **The loop from a turn on.** -/
theorem goodFrom_iff {fuel : ℕ} {s : State} (hfuel : argv.length ≤ s.i + fuel)
    (hgood : Good argv s.stores) : GoodFrom argv fuel s ↔ CompleteFrom argv s.i := by
  induction fuel generalizing s with
  | zero =>
    refine iff_of_true ⟨_, _, parseLoop_of_le hfuel, hgood, fun j n hj hl => ?_⟩ fun j n hj hl => ?_
    · exact absurd hl (not_lacks_of_le (comes_of_le hfuel hj ▸ hfuel))
    · exact absurd hl (not_lacks_of_le (comes_of_le hfuel hj ▸ hfuel))
  | succ fuel ih =>
    rcases Nat.lt_or_ge s.i argv.length with hlt | hle
    swap
    · refine iff_of_true ⟨_, _, parseLoop_of_le hle, hgood, fun j n hj hl => ?_⟩ fun j n hj hl => ?_
      · exact absurd hl (not_lacks_of_le (comes_of_le hle hj ▸ hle))
      · exact absurd hl (not_lacks_of_le (comes_of_le hle hj ▸ hle))
    have harg : argv[s.i]? = some argv[s.i] := List.getElem?_eq_getElem hlt
    cases hn : valuesOf argv[s.i] with
    | none =>
      -- the loop ends here, and the word is not an option that takes values
      obtain ⟨outcome, hturn⟩ := parseArg_of_none harg hn
      have hhere : ∀ j n, Comes argv s.i j → ¬ Lacks argv j n := by
        rintro j n hj ⟨arg, hargj, hnj, -⟩
        cases hj with
        | here =>
          obtain rfl := Option.some.inj (harg.symm.trans hargj)
          exact absurd (hn.symm.trans hnj) (by simp)
        | next harg' hn' =>
          obtain rfl := Option.some.inj (harg.symm.trans harg')
          exact absurd (hn.symm.trans hn') (by simp)
      exact iff_of_true ⟨outcome, s.stores, parseLoop_of_lt hlt hturn, hgood,
        fun j n hj hl => absurd hl (hhere j n hj)⟩ fun j n hj hl => absurd hl (hhere j n hj)
    | some n =>
      have hcomes : ∀ j, Comes argv s.i j ↔ j = s.i ∨ Comes argv (s.i + n + 1) j := by
        intro j
        constructor
        · intro hj
          cases hj with
          | here => exact Or.inl rfl
          | next harg' hn' hrest =>
            obtain rfl := Option.some.inj (harg.symm.trans harg')
            obtain rfl := Option.some.inj (hn.symm.trans hn')
            exact Or.inr hrest
        · rintro (rfl | hj)
          · exact .here _
          · exact .next harg hn hj
      rcases Nat.lt_or_ge (s.i + n) argv.length with hvalues | hlacks
      · -- the option has its values, and the loop goes on behind them
        obtain ⟨s', hturn, hi, hgood'⟩ := parseArg_of_lt hgood harg hn hvalues
        have hnot : ∀ k, ¬ Lacks argv s.i k := by
          rintro k ⟨arg, harg', hk, hle⟩
          obtain rfl := Option.some.inj (harg.symm.trans harg')
          obtain rfl := Option.some.inj (hn.symm.trans hk)
          omega
        have hnext := ih (s := { s' with i := s'.i + 1 })
          (show argv.length ≤ s'.i + 1 + fuel by omega) hgood'
        have hi' : s'.i + 1 = s.i + n + 1 := by rw [hi]
        have hcomplete : CompleteFrom argv s.i ↔ CompleteFrom argv (s.i + n + 1) := by
          refine ⟨fun h j k hj hl => h j k ((hcomes j).mpr (Or.inr hj)) hl, fun h j k hj hl => ?_⟩
          rcases (hcomes j).mp hj with rfl | hj
          · exact absurd hl (hnot k)
          · exact h j k hj hl
        rw [hcomplete, ← hi']
        refine Iff.trans ?_ hnext
        unfold GoodFrom
        rw [parseLoop_of_lt hlt hturn]
        refine exists_congr fun outcome => exists_congr fun stores => and_congr_right fun _ =>
          and_congr_right fun _ => ?_
        refine ⟨fun h j k hj hl => h j k ((hcomes j).mpr (Or.inr (hi' ▸ hj))) hl,
          fun h j k hj hl => ?_⟩
        rcases (hcomes j).mp hj with rfl | hj
        · exact absurd hl (hnot k)
        · exact h j k (hi'.symm ▸ hj) hl
      · have hl : Lacks argv s.i n := ⟨_, harg, hn, hlacks⟩
        rcases parseArg_of_lacks hl with ⟨rfl, hlast, hturn⟩ | ⟨hbad, hturns⟩
        · -- `-a` at the end
          refine iff_of_true ⟨.help, s.stores, parseLoop_of_lt hlt hturn, hgood, fun _ _ _ _ => rfl⟩ ?_
          intro j k hj hlj
          rcases (hcomes j).mp hj with rfl | hj
          · obtain ⟨arg, harg', hk, -⟩ := hlj
            obtain rfl := Option.some.inj (harg.symm.trans harg')
            exact ⟨Option.some.inj (hk.symm.trans hn), hlast⟩
          · have hle : argv.length ≤ s.i + 2 + 1 := by omega
            exact absurd hlj (not_lacks_of_le (comes_of_le hle hj ▸ hle))
        · -- what was stored is no word, and the loop ends
          refine iff_of_false ?_ fun h => hbad (h s.i n (.here _) hl)
          rintro ⟨outcome, stores, hloop, hstores, -⟩
          cases hturn : parseArg argv s with
          | error e =>
            rw [parseLoop, if_pos hlt, hturn] at hloop
            exact absurd hloop (by simp [bind, Except.bind])
          | ok turn =>
            obtain ⟨s', rfl, hle, hnot⟩ := hturns turn hturn
            have hend : parseLoop argv fuel { s' with i := s'.i + 1 } = .ok (outcome, stores) :=
              (parseLoop_of_lt hlt hturn).symm.trans hloop
            rw [parseLoop_of_le (show argv.length ≤ s'.i + 1 by omega)] at hend
            obtain ⟨-, rfl⟩ := Prod.mk.inj (Except.ok.inj hend)
            exact hnot hstores

/-- The process goes on, or ends at once. -/
def Ends (e : Fault) : Prop := e ≠ .endlessLoop

theorem sat_store (s : State) (x : Variable) :
    Sat Ends (s.store argv x) fun s' => s'.i = s.i + 1 := by
  have hat : Sat Ends (argAt argv (s.i + 1)) fun _ => True := by
    unfold argAt
    split
    · exact sat_ok trivial
    · split
      · exact sat_ok trivial
      · exact show Ends .outOfBounds by simp [Ends]
  have hassign : ∀ value, Sat Ends (s.settings.assign x value) fun _ => True := fun value => by
    cases x <;> cases value <;> first | exact sat_ok trivial | exact show Ends .nullPointer by simp [Ends]
  exact sat_bind hat fun value _ => sat_bind (hassign value) fun settings _ => sat_ok rfl

/-- The index is not moved back. -/
def Turn.From (i : ℕ) : Turn → Prop
  | .next s => i ≤ s.i
  | .stop _ => True

theorem sat_oneValue (s : State) (x : Variable) :
    Sat Ends (oneValue argv s x) fun turn => turn.From s.i := by
  unfold oneValue
  split
  · exact sat_ok trivial
  · exact sat_map ((sat_store s x).mono fun s' h => show s.i ≤ s'.i by omega)

theorem sat_parseOption (s : State) (c : UInt8) :
    Sat Ends (parseOption argv s c) fun turn => turn.From s.i := by
  unfold parseOption
  split
  · dsimp only
    split
    · exact sat_ok trivial
    · refine sat_bind (sat_store _ .autouser) fun s₁ h₁ => ?_
      refine sat_map ((sat_store s₁ .autopass).mono fun s₂ h₂ => ?_)
      have h₁' : s₁.i = s.i + 1 := h₁
      exact show s.i ≤ s₂.i by omega
  · split
    · exact sat_oneValue s _
    · split
      · exact sat_oneValue s _
      · split
        · exact sat_oneValue s _
        · exact sat_ok trivial

/-- **A turn** moves the index on, ends the loop, or ends the process. -/
theorem sat_parseArg {s : State} (h : s.i < argv.length) :
    Sat Ends (parseArg argv s) fun turn => turn.From s.i := by
  rw [parseArg, argAt_of_some (List.getElem?_eq_getElem h), ok_bind]
  dsimp only
  split
  · exact sat_parseOption s _
  · exact sat_ok (Nat.le_refl s.i)
  · exact sat_ok trivial

/-- **The bound on the turns is never reached.** -/
theorem parseLoop_ends {fuel : ℕ} {s : State} (hfuel : argv.length ≤ s.i + fuel) :
    Sat Ends (parseLoop argv fuel s) fun _ => True := by
  induction fuel generalizing s with
  | zero =>
    rw [parseLoop_of_le hfuel]
    trivial
  | succ fuel ih =>
    rcases Nat.lt_or_ge s.i argv.length with hlt | hle
    · rw [parseLoop, if_pos hlt]
      refine sat_bind (sat_parseArg hlt) fun turn hturn => ?_
      cases turn with
      | stop outcome => trivial
      | next s' =>
        have hle : s.i ≤ s'.i := hturn
        exact ih (show argv.length ≤ s'.i + 1 + fuel by omega)
    · rw [parseLoop_of_le hle]
      trivial

/-- **Command-line values come from the command line** exactly when every option the loop comes to has
its values, but for `-a` at the end; and in any case the loop ends. -/
theorem parseArgs_iff (argv : List CString) :
    parseArgs argv ≠ .error .endlessLoop ∧ (FromCommandLine argv ↔ Complete argv) := by
  have hfuel : argv.length ≤ 1 + argv.length := Nat.le_add_left _ _
  refine ⟨fun h => ?_, goodFrom_iff (s := ⟨1, .init, []⟩) hfuel fun st hst => ?_⟩
  · have hends := parseLoop_ends (s := ⟨1, .init, []⟩) hfuel
    exact hends.error_of_eq h rfl
  · exact absurd hst List.not_mem_nil

/-- `netcosm -d`: the prefix is the null pointer behind the words. -/
theorem prefix_without_value :
    parseArgs [.ofChars "netcosm".toList, .ofChars "-d".toList] =
        .ok (.parsed .init, [⟨.dataPrefix, 2, none⟩]) ∧
      ¬ FromCommandLine [.ofChars "netcosm".toList, .ofChars "-d".toList] := by
  have hrun : parseArgs [.ofChars "netcosm".toList, .ofChars "-d".toList] =
      .ok (.parsed .init, [⟨.dataPrefix, 2, none⟩]) := by rfl
  refine ⟨hrun, ?_⟩
  rintro ⟨outcome, stores, hok, hgood, -⟩
  obtain ⟨-, rfl⟩ := Prod.mk.inj (Except.ok.inj (hrun.symm.trans hok))
  exact absurd (hgood _ (List.mem_singleton_self _)).1 (by decide)

end Loop

end Arguments

end NetCosm
