import NetCosm.Table.Hash

/-!
# Iterating over a table

`hash_iterate` returns one node a call and keeps where it is in a `struct iterstate_t`: a bucket
and the node it returned last.  The next call goes on along the chain of that node, and then to
the buckets behind it.

## What one call does

`HashMap.rest m b i` are the nodes that are left from the position `i` of bucket `b` on.  A call
returns the first of them and leaves the others (`hashIterate_cons`), or nothing if there are
none (`hashIterate_nil`).

## What a loop does

Every loop over a table is `hashForEach`: iterate, stop if nothing is returned, and otherwise do
something with the node.  `hashForEach_eq` says that it does so with every node once, in order.

The bucket is an `unsigned`.  In a table of `2 ^ 32` buckets or more it is less than the size of
the table whatever it is, and wraps, so no call ever returns that there is nothing left and no
loop ends: `iterateLoop_huge`.

`hashCalls` are the results of the calls themselves.  In any smaller table they are the nodes, chain
by chain, and then nothing.
-/

namespace NetCosm

universe u v w

variable {K : Type u} {D : Type v} {S : Type w}

/-- `struct iterstate_t`: the bucket, and the position of the node returned last. -/
structure IterState where
  bucket : ℕ
  node : Option ℕ
  deriving DecidableEq, Repr

/-- The state the first call starts from. -/
def IterState.start : IterState := ⟨0, none⟩

/-- The position of the chain that is looked at next. -/
def IterState.next (st : IterState) : ℕ :=
  match st.node with
  | some i => i + 1
  | none => 0

/-- The walk from the position `i` of bucket `b`, and then through `n` more buckets. -/
def iterateFrom (m : HashMap K D) : ℕ → ℕ → ℕ → Option (HashNode K D × IterState)
  | 0, b, i => (m.chain b)[i]?.map fun node => (node, ⟨b, some i⟩)
  | n + 1, b, i =>
      match (m.chain b)[i]? with
      | some node => some (node, ⟨b, some i⟩)
      | none => iterateFrom m n (b + 1) 0

/-- How many buckets are left behind bucket `b` before the counter stops or wraps. -/
def HashMap.bucketsBehind (m : HashMap K D) (b : ℕ) : ℕ := min m.tableSz unsignedRange - (b + 1)

/-- `hash_iterate`.  A counter that has wrapped starts again at the first bucket; if there is
nothing in all the buckets it goes through, it does so for ever. -/
def hashIterate (m : HashMap K D) (st : IterState) :
    Except Fault (Option (HashNode K D × IterState)) :=
  match iterateFrom m (m.bucketsBehind st.bucket) st.bucket st.next with
  | some r => .ok (some r)
  | none =>
      if m.tableSz < unsignedRange then .ok none
      else
        match iterateFrom m (m.bucketsBehind 0) 0 0 with
        | some r => .ok (some r)
        | none => .error .endlessLoop

/-- A loop that iterates until nothing is returned, for at most `n` calls. -/
def iterateLoop (m : HashMap K D) (body : S → HashNode K D → Except Fault S) :
    ℕ → IterState → S → Except Fault S
  | 0, _, _ => .error .endlessLoop
  | n + 1, st, s =>
      match hashIterate m st with
      | .error e => .error e
      | .ok none => .ok s
      | .ok (some (node, st)) => do
          let s ← body s node
          iterateLoop m body n st s

/-- A loop over a table.  It takes one call more than there are nodes, or it takes no end. -/
def hashForEach (m : HashMap K D) (body : S → HashNode K D → Except Fault S) (s : S) :
    Except Fault S :=
  iterateLoop m body (m.nodes.length + 1) IterState.start s

/-! ## What is left -/

/-- The nodes from the position `i` of bucket `b` on. -/
def HashMap.rest (m : HashMap K D) (b i : ℕ) : List (HashNode K D) :=
  (m.chain b).drop i ++ (m.table.drop (b + 1)).flatten

variable {m : HashMap K D}

theorem rest_start (m : HashMap K D) : m.rest 0 0 = m.nodes := by
  rw [HashMap.rest, HashMap.nodes, HashMap.chain, Buckets.items, Buckets.chain, List.drop_zero]
  cases m.table with
  | nil => rfl
  | cons c cs => rfl

/-- Behind a chain that has been walked are the buckets behind it. -/
theorem rest_of_length_le {b i : ℕ} (h : (m.chain b).length ≤ i) : m.rest b i = m.rest (b + 1) 0 := by
  rw [HashMap.rest, List.drop_eq_nil_of_le h, List.nil_append, HashMap.rest, List.drop_zero]
  by_cases hb : b + 1 < m.table.length
  · rw [List.drop_eq_getElem_cons hb, List.flatten_cons, HashMap.chain,
      Buckets.chain_eq_getElem hb]
  · have hlast := Nat.le_of_not_lt hb
    rw [List.drop_eq_nil_of_le hlast, HashMap.chain, Buckets.chain_eq_nil hlast,
      List.drop_eq_nil_of_le (Nat.le_succ_of_le hlast)]
    rfl

theorem rest_of_lt {b i : ℕ} (h : i < (m.chain b).length) :
    m.rest b i = (m.chain b)[i] :: m.rest b (i + 1) := by
  rw [HashMap.rest, List.drop_eq_getElem_cons h, List.cons_append]
  rfl

/-- **The walk finds the first node that is left**, and stands before the others. -/
theorem iterateFrom_spec {n b i : ℕ} (h : b + (n + 1) = m.tableSz) :
    (m.rest b i = [] ∧ iterateFrom m n b i = none) ∨
      ∃ node st, st.bucket < m.tableSz ∧ iterateFrom m n b i = some (node, st) ∧
        m.rest b i = node :: m.rest st.bucket st.next := by
  induction n generalizing b i with
  | zero =>
    by_cases hi : i < (m.chain b).length
    · refine Or.inr ⟨(m.chain b)[i], ⟨b, some i⟩, ?_, ?_, rest_of_lt hi⟩
      · show b < m.tableSz
        omega
      · rw [iterateFrom, List.getElem?_eq_getElem hi]
        rfl
    · have hle := Nat.le_of_not_lt hi
      refine Or.inl ⟨?_, ?_⟩
      · have hlast : m.table.length ≤ b + 1 := Nat.le_of_eq h.symm
        rw [HashMap.rest, List.drop_eq_nil_of_le hle, List.drop_eq_nil_of_le hlast]
        rfl
      · rw [iterateFrom, List.getElem?_eq_none hle]
        rfl
  | succ n ih =>
    by_cases hi : i < (m.chain b).length
    · refine Or.inr ⟨(m.chain b)[i], ⟨b, some i⟩, ?_, ?_, rest_of_lt hi⟩
      · show b < m.tableSz
        omega
      · rw [iterateFrom, List.getElem?_eq_getElem hi]
    · have hle := Nat.le_of_not_lt hi
      rw [iterateFrom, List.getElem?_eq_none hle, rest_of_length_le hle]
      exact ih (by omega)

theorem bucketsBehind_eq {b : ℕ} (hsz : m.tableSz < unsignedRange) (hb : b < m.tableSz) :
    b + (m.bucketsBehind b + 1) = m.tableSz := by
  rw [HashMap.bucketsBehind, Nat.min_eq_left (Nat.le_of_lt hsz)]
  omega

/-- A call with nothing left says so. -/
theorem hashIterate_nil {st : IterState} (hsz : m.tableSz < unsignedRange)
    (hst : st.bucket < m.tableSz) (h : m.rest st.bucket st.next = []) :
    hashIterate m st = .ok none := by
  rcases iterateFrom_spec (i := st.next) (bucketsBehind_eq hsz hst) with ⟨-, hnone⟩ | ⟨_, _, -, -, hcons⟩
  · rw [hashIterate, hnone]
    exact if_pos hsz
  · exact absurd (h.symm.trans hcons) (by simp)

/-- **A call returns the first node that is left**, and leaves the others. -/
theorem hashIterate_cons {st : IterState} {node : HashNode K D} {later : List (HashNode K D)}
    (hsz : m.tableSz < unsignedRange) (hst : st.bucket < m.tableSz)
    (h : m.rest st.bucket st.next = node :: later) :
    ∃ st', st'.bucket < m.tableSz ∧ hashIterate m st = .ok (some (node, st')) ∧
      m.rest st'.bucket st'.next = later := by
  rcases iterateFrom_spec (i := st.next) (bucketsBehind_eq hsz hst) with
    ⟨hnil, -⟩ | ⟨node', st', hst', hsome, hcons⟩
  · exact absurd (hnil.symm.trans h) (by simp)
  · obtain ⟨rfl, rfl⟩ := List.cons.inj (hcons.symm.trans h)
    exact ⟨st', hst', by rw [hashIterate, hsome], rfl⟩

/-! ## Loops -/

/-- A loop does what there is to do for every node that is left. -/
theorem iterateLoop_eq (hsz : m.tableSz < unsignedRange)
    (body : S → HashNode K D → Except Fault S) {n : ℕ} {st : IterState} {s : S}
    (hst : st.bucket < m.tableSz) (hn : (m.rest st.bucket st.next).length < n) :
    iterateLoop m body n st s = (m.rest st.bucket st.next).foldlM body s := by
  induction n generalizing st s with
  | zero => exact absurd hn (Nat.not_lt_zero _)
  | succ n ih =>
    rw [iterateLoop]
    cases hrest : m.rest st.bucket st.next with
    | nil =>
      rw [hashIterate_nil hsz hst hrest]
      rfl
    | cons node later =>
      obtain ⟨st', hst', hcall, hlater⟩ := hashIterate_cons hsz hst hrest
      rw [hcall, List.foldlM_cons]
      rw [hrest, ← hlater, List.length_cons] at hn
      rw [← hlater]
      refine congrArg (body s node >>= ·) (funext fun s' => ?_)
      exact ih hst' (by omega)

/-- **A loop over a table goes through its nodes in order, each once.** -/
theorem hashForEach_eq (hpos : 0 < m.tableSz) (hsz : m.tableSz < unsignedRange)
    (body : S → HashNode K D → Except Fault S) (s : S) :
    hashForEach m body s = m.nodes.foldlM body s := by
  have hstart : m.rest IterState.start.bucket IterState.start.next = m.nodes := rest_start m
  rw [hashForEach, ← hstart]
  exact iterateLoop_eq hsz body hpos (Nat.lt_succ_self _)

/-- The same of any table of fewer than `2 ^ 32` buckets, even of none. -/
theorem hashForEach_of_lt (hsz : m.tableSz < unsignedRange)
    (body : S → HashNode K D → Except Fault S) (s : S) :
    hashForEach m body s = m.nodes.foldlM body s := by
  rcases Nat.eq_zero_or_pos m.tableSz with h0 | hpos
  · have htab : m.table = [] := List.length_eq_zero_iff.mp h0
    have hnodes : m.nodes = [] := by rw [HashMap.nodes, htab]; rfl
    have hchain : m.chain IterState.start.bucket = [] := by rw [HashMap.chain, htab]; rfl
    have hbehind : m.bucketsBehind IterState.start.bucket = 0 := by
      rw [HashMap.bucketsBehind, h0]
      rfl
    have hstop : hashIterate m IterState.start = .ok none := by
      rw [hashIterate, hbehind, iterateFrom, hchain]
      exact if_pos hsz
    rw [hashForEach, iterateLoop, hstop, hnodes]
    rfl
  · exact hashForEach_eq hpos hsz body s

/-- In a table of `2 ^ 32` buckets or more no call says that nothing is left. -/
theorem hashIterate_huge (h : unsignedRange ≤ m.tableSz) (st : IterState) :
    hashIterate m st ≠ .ok none := by
  rw [hashIterate]
  split
  · simp
  · rw [if_neg (Nat.not_lt_of_le h)]
    split <;> simp

/-- **No loop over such a table ends**, however many calls it is given. -/
theorem iterateLoop_huge (h : unsignedRange ≤ m.tableSz)
    (body : S → HashNode K D → Except Fault S) (n : ℕ) (st : IterState) (s s' : S) :
    iterateLoop m body n st s ≠ .ok s' := by
  induction n generalizing st s with
  | zero => simp [iterateLoop]
  | succ n ih =>
    intro hok
    rw [iterateLoop] at hok
    split at hok
    · exact absurd hok (by simp)
    · rename_i hcall
      exact hashIterate_huge h st hcall
    · obtain ⟨s₁, -, hloop⟩ := bind_eq_ok hok
      exact ih _ _ hloop

/-- A loop that returns has gone through a table of fewer than `2 ^ 32` buckets. -/
theorem tableSz_lt_of_hashForEach {body : S → HashNode K D → Except Fault S} {s s' : S}
    (h : hashForEach m body s = .ok s') : m.tableSz < unsignedRange :=
  Nat.lt_of_not_le fun hsz => iterateLoop_huge hsz body _ _ s s' h

/-! ## Calls -/

/-- What the next `n` calls return; none of them comes after the one that frees `saved`. -/
def hashCalls (m : HashMap K D) : ℕ → IterState → Except Fault (List (Option (HashNode K D)))
  | 0, _ => .ok []
  | n + 1, st =>
      match hashIterate m st with
      | .error e => .error e
      | .ok none => .ok [none]
      | .ok (some (node, st)) => (hashCalls m n st).map (some node :: ·)

/-- The calls from anywhere return the nodes that are left, and then nothing. -/
theorem hashCalls_eq (hsz : m.tableSz < unsignedRange) {later : List (HashNode K D)}
    {st : IterState} (hst : st.bucket < m.tableSz) (h : m.rest st.bucket st.next = later) :
    hashCalls m (later.length + 1) st = .ok (later.map some ++ [none]) := by
  induction later generalizing st with
  | nil =>
    rw [hashCalls, hashIterate_nil hsz hst h]
    rfl
  | cons node later ih =>
    obtain ⟨st', hst', hcall, hlater⟩ := hashIterate_cons hsz hst h
    rw [hashCalls, hcall]
    dsimp only
    rw [List.length_cons, ih hst' hlater]
    rfl

/-- In a table of `2 ^ 32` buckets or more no number of calls comes to an end. -/
theorem hashCalls_huge (h : unsignedRange ≤ m.tableSz) {n : ℕ} {st : IterState}
    {results : List (Option (HashNode K D))} (hok : hashCalls m n st = .ok results) :
    none ∉ results := by
  induction n generalizing st results with
  | zero => exact Except.ok.inj hok ▸ List.not_mem_nil
  | succ n ih =>
    rw [hashCalls] at hok
    split at hok
    · exact absurd hok (by simp)
    · rename_i hcall
      exact absurd hcall (hashIterate_huge h st)
    · obtain ⟨later, hlater, rfl⟩ := map_eq_ok hok
      rw [List.mem_cons, not_or]
      exact ⟨by simp, ih hlater⟩

/-- **Iterating over a table visits every node once**, chain by chain, and ends with the call after
the last one, if and only if there are fewer than `2 ^ 32` buckets. -/
theorem hashCalls_visits_iff (m : HashMap K D) :
    hashCalls m (m.nodes.length + 1) IterState.start = .ok (m.table.flatten.map some ++ [none]) ↔
      m.tableSz < 2 ^ 32 := by
  have hnodes : m.table.flatten = m.nodes := rfl
  refine ⟨fun hok => ?_, fun hsz => ?_⟩
  · by_contra hle
    refine hashCalls_huge (Nat.le_of_not_lt hle) hok ?_
    exact List.mem_append_right _ (List.mem_singleton_self _)
  · rw [hnodes]
    rcases Nat.eq_zero_or_pos m.tableSz with h0 | hpos
    · have htab : m.table = [] := List.length_eq_zero_iff.mp h0
      obtain ⟨table, nEntries, usedBuckets⟩ := m
      obtain rfl : table = [] := htab
      rfl
    · exact hashCalls_eq hsz hpos (rest_start m)

/-- In a table of `2 ^ 32` buckets with nothing in it the first call does not return. -/
theorem hashCalls_endless :
    ¬ hashCalls (hashInit (2 ^ 32) : HashMap ℕ ℕ)
        ((hashInit (2 ^ 32) : HashMap ℕ ℕ).nodes.length + 1) IterState.start =
      .ok ((hashInit (2 ^ 32) : HashMap ℕ ℕ).table.flatten.map some ++ [none]) := by
  have hsz : (hashInit (2 ^ 32) : HashMap ℕ ℕ).tableSz = 2 ^ 32 := by
    rw [hashInit, HashMap.tableSz_fresh]
    exact if_neg (by decide)
  intro hok
  refine hashCalls_huge (Nat.le_of_eq hsz.symm) hok ?_
  exact List.mem_append_right _ (List.mem_singleton_self _)

end NetCosm
