import NetCosm.Table.HashRefinement
import NetCosm.Table.MultimapLookup
import NetCosm.Table.MultimapRefinement

/-!
# What is stored is released once

A map with callbacks gives a datum to `free_data`, and its key to `free_key`, when it lets go of a node:
when the node is overwritten or removed, and in `hash_free` for all nodes there still are.  A multimap
does so for each pair, when the pair is deleted and when the last reference to the map is given back.

Here the calls are written down.  A `Ledger` is a map with the list of what has been stored in it and of
what has been released; `NoneLost` says that what was released and what is still there are together what
was stored.  Every operation keeps that, whatever the comparison and the hash function do.  What a run can
fail in is to come to its end.

## Where it fails

* `hash_resize` takes the size `0`, which `hash_init` turns into `1`; the next remainder is one modulo `0`.
* A loop over the buckets counts with an `unsigned`.  With `2 ^ 32` buckets `hash_free` comes around to
  buckets it has freed, and `hash_resize` never ends.
* The number of references of a multimap is an `unsigned`, too.  With `2 ^ 32 + 1` references the next one
  that is given back takes the map for unshared.

`released_once_iff` says that a run releases everything once exactly when it meets none of these.
-/

namespace NetCosm

universe u v

variable {K : Type u} {D V : Type v}

/-! ## Hash maps -/

/-- The operations that store and release. -/
inductive StoreOp (K : Type u) (D : Type v) where
  | insert (key : K) (data : D)
  | overwrite (key : K) (data : D)
  | remove (key : K)
  | resize (newSz : ℕ)

/-- A map, the nodes that have been stored in it, and those whose key and datum have been released. -/
structure Ledger (K : Type u) (D : Type v) where
  map : HashMap K D
  stored : List (HashNode K D)
  released : List (HashNode K D)

/-- `hash_init`. -/
def Ledger.init (sz : ℕ) : Ledger K D := ⟨hashInit sz, [], []⟩

/-- A remainder modulo the size of the table. -/
def moduloSize {A : Type*} (m : HashMap K D) (x : Except Fault A) : Except Fault A :=
  if m.tableSz = 0 then .error .divisionByZero else x

/-- One operation, with the calls of the callbacks. -/
def Ledger.step (f : HashEnv K) (s : Ledger K D) : StoreOp K D → Except Fault (Ledger K D)
  | .insert key data => moduloSize s.map <| (hashInsert f s.map key data).map fun r =>
      { s with map := r.2, stored := s.stored ++ if r.1.isNone then [⟨key, data⟩] else [] }
  | .overwrite key data => moduloSize s.map <| (hashOverwrite f s.map key data).map fun r =>
      { map := r.2, stored := s.stored ++ [⟨key, data⟩], released := s.released ++ r.1.toList }
  | .remove key => moduloSize s.map <| .ok
      { s with
        map := (hashRemove f s.map key).2
        released := s.released ++ (hashRemove f s.map key).1.toList }
  | .resize newSz =>
      if newSz = 0 ∧ s.map.nodes ≠ [] then .error .divisionByZero
      else (hashResize f s.map newSz).map fun r => { s with map := r.2 }

/-- The loop of `hash_free`, which comes around to buckets it has freed when there are too many. -/
def hashFreeLoop (m : HashMap K D) : Except Fault (List (HashNode K D)) :=
  if unsignedRange ≤ m.tableSz then
    .error (if m.nodes.isEmpty then .endlessLoop else .useAfterFree)
  else .ok (hashFree m)

/-- A run, and `hash_free` behind it: what was stored, and what was released. -/
def releaseRun (f : HashEnv K) (sz : ℕ) (ops : List (StoreOp K D)) :
    Except Fault (List (HashNode K D) × List (HashNode K D)) := do
  let s ← Runs.run (Ledger.step f) (Ledger.init sz) ops
  let freed ← hashFreeLoop s.map
  .ok (s.stored, s.released ++ freed)

/-- **Every datum and every key that was stored is released once**, and nothing else is. -/
def HashReleasedOnce (f : HashEnv K) (sz : ℕ) (ops : List (StoreOp K D)) : Prop :=
  ∃ stored released, releaseRun f sz ops = .ok (stored, released) ∧
    (released.map HashNode.data).Perm (stored.map HashNode.data) ∧
    (released.map HashNode.key).Perm (stored.map HashNode.key)

/-- The table has buckets, and it is not so large that it cannot grow if the key is new and makes it. -/
def Ledger.Proceeds (f : HashEnv K) (s : Ledger K D) : StoreOp K D → Prop
  | .insert key data => s.map.tableSz ≠ 0 ∧ InsertEnds f s.map key data
  | .overwrite key data => s.map.tableSz ≠ 0 ∧ InsertEnds f s.map key data
  | .remove _ => s.map.tableSz ≠ 0
  | .resize newSz =>
      (newSz ≠ s.map.tableSz → s.map.tableSz < unsignedRange) ∧ (newSz = 0 → s.map.nodes = [])

/-- What was released and what is still there are together what was stored. -/
structure Ledger.NoneLost (f : HashEnv K) (s : Ledger K D) : Prop where
  counted : s.map.Counted f
  perm : (s.released ++ s.map.nodes).Perm s.stored

section Hash

variable {f : HashEnv K} {s s' : Ledger K D}

theorem noneLost_init (f : HashEnv K) (sz : ℕ) : (Ledger.init sz : Ledger K D).NoneLost f where
  counted _ := (sane_fresh _).entries
  perm := by rw [Ledger.init, hashInit, HashMap.nodes_fresh]; exact List.Perm.refl _

theorem moduloSize_ok {A : Type*} {m : HashMap K D} {x : Except Fault A} {a : A}
    (h : moduloSize m x = .ok a) : 0 < m.tableSz ∧ x = .ok a := by
  unfold moduloSize at h
  split at h
  · exact absurd h (by simp)
  · exact ⟨Nat.pos_of_ne_zero ‹_›, h⟩

theorem moduloSize_of_pos {A : Type*} {m : HashMap K D} (h : m.tableSz ≠ 0) (x : Except Fault A) :
    moduloSize m x = x := if_neg h

/-- One more node behind what is there. -/
theorem perm_store {released nodes nodes' stored : List (HashNode K D)} {n : HashNode K D}
    (h : (released ++ nodes).Perm stored) (hnodes : nodes'.Perm (n :: nodes)) :
    (released ++ nodes').Perm (stored ++ [n]) :=
  (hnodes.append_left released).trans
    (List.perm_middle.trans ((h.cons n).trans (List.perm_append_singleton n stored).symm))

/-- One node less. -/
theorem perm_release {released nodes nodes' stored : List (HashNode K D)} {n : HashNode K D}
    (h : (released ++ nodes).Perm stored) (hnodes : (n :: nodes').Perm nodes) :
    (released ++ [n] ++ nodes').Perm stored := by
  rw [List.append_assoc]
  exact (hnodes.append_left released).trans h

/-- A new node is stored. -/
theorem NoneLost.insertNew (hs : s.NoneLost f) (h0 : 0 < s.map.tableSz) {key : K} {data : D}
    {m' : HashMap K D}
    (h : hashInternalInsertNew f s.map key data (f.bucket key s.map.tableSz) = .ok m') :
    Ledger.NoneLost f ⟨m', s.stored ++ [⟨key, data⟩], s.released⟩ := by
  have hends : growsAt s.map key data (f.bucket key s.map.tableSz) = true →
      s.map.tableSz < unsignedRange := by
    intro hg
    by_contra hsz
    rw [hashInternalInsertNew_of_huge hg (Nat.not_lt.mp hsz)] at h
    exact absurd h (by simp)
  obtain ⟨m'', hm'', hcounted, hnodes⟩ := hashInternalInsertNew_of_ends data h0 hs.counted hends
  obtain rfl := Except.ok.inj (hm''.symm.trans h)
  exact ⟨hcounted, perm_store hs.perm hnodes⟩

/-- The chain has a node at the position of a key. -/
theorem getElem?_of_pos {m : HashMap K D} {key : K} {i : ℕ} (hp : m.pos f key = some i) :
    (m.chain (f.bucket key m.tableSz))[i]? = some (HashMap.nodeAt hp) :=
  List.getElem?_eq_getElem (pos_lt hp)

/-- **Every operation keeps account.** -/
theorem noneLost_step {op : StoreOp K D} (hs : s.NoneLost f) (h : s.step f op = .ok s') :
    s'.NoneLost f := by
  cases op with
  | insert key data =>
    obtain ⟨h0, h⟩ := moduloSize_ok h
    obtain ⟨⟨r, m'⟩, hins, rfl⟩ := map_eq_ok h
    rcases hashInsert_ok hins with ⟨-, hne, rfl⟩ | ⟨rfl, -, hnew⟩
    · dsimp only
      rw [if_neg (by simpa using hne), List.append_nil]
      exact hs
    · exact NoneLost.insertNew hs h0 hnew
  | overwrite key data =>
    obtain ⟨h0, h⟩ := moduloSize_ok h
    obtain ⟨⟨r, m'⟩, hover, rfl⟩ := map_eq_ok h
    rcases hashOverwrite_ok hover with ⟨i, hp, rfl, rfl⟩ | ⟨rfl, -, hnew⟩
    · have hset := perm_nodes_setNode s.map (pos_lt hp) ⟨key, data⟩
      refine ⟨fun ha => ?_, ?_⟩
      · have hstored := hset.length_eq
        rw [List.length_cons] at hstored
        show s.map.nEntries = UInt64.ofNat (HashMap.stored _)
        rw [HashMap.stored, hstored, ← HashMap.stored, stored_unlink (pos_lt hp), hs.counted ha]
      · rw [getElem?_of_pos hp, Option.toList_some]
        exact perm_store (perm_release hs.perm (perm_nodes_unlink s.map (pos_lt hp))) hset
    · rw [Option.toList_none, List.append_nil]
      exact NoneLost.insertNew hs h0 hnew
  | remove key =>
    obtain ⟨-, h⟩ := moduloSize_ok h
    obtain rfl := Except.ok.inj h
    refine ⟨counted_hashRemove hs.counted key, ?_⟩
    cases hp : s.map.pos f key with
    | none =>
      have hrem : hashRemove f s.map key = (none, s.map) := by rw [hashRemove, hp]
      rw [hrem, Option.toList_none, List.append_nil]
      exact hs.perm
    | some i =>
      have hrem : hashRemove f s.map key = (some (HashMap.nodeAt hp),
          { unlink s.map (f.bucket key s.map.tableSz) i with nEntries := s.map.nEntries - 1 }) := by
        rw [hashRemove, hp, ← getElem?_of_pos hp]
      rw [hrem, Option.toList_some]
      exact perm_release hs.perm (perm_nodes_unlink s.map (pos_lt hp))
  | resize newSz =>
    rw [Ledger.step] at h
    split at h
    · exact absurd h (by simp)
    rename_i hzero
    obtain ⟨⟨b, m'⟩, hres, rfl⟩ := map_eq_ok h
    rcases hashResize_ok hres with ⟨-, rfl⟩ | ⟨hne, rfl⟩
    · exact hs
    · rcases Nat.eq_zero_or_pos newSz with rfl | hpos
      · have hnil : s.map.nodes = [] := by
          by_contra hnil
          exact hzero ⟨rfl, hnil⟩
        have hfresh : relinkAll f s.map 0 = HashMap.fresh 0 := by rw [relinkAll, hnil]; rfl
        refine ⟨fun _ => ?_, ?_⟩
        · rw [hfresh]
          exact (sane_fresh 0).entries
        · rw [hfresh, HashMap.nodes_fresh, ← hnil]
          exact hs.perm
      · refine ⟨fun _ => (sane_relinkAll f s.map hpos).entries, ?_⟩
        exact ((perm_nodes_relinkAll f s.map hpos).append_left _).trans hs.perm

/-- An insertion returns when it should. -/
theorem exists_hashInsert_iff {m : HashMap K D} {key : K} {data : D} (h0 : 0 < m.tableSz)
    (hm : m.Counted f) : (∃ r, hashInsert f m key data = .ok r) ↔ InsertEnds f m key data := by
  constructor
  · rintro ⟨r, hr⟩
    by_contra hstops
    rw [hashInsert_stops hstops] at hr
    exact absurd hr (by simp)
  · intro hends
    cases hl : hashLookup f m key with
    | some d => exact ⟨(some d, m), by rw [hashInsert, hl]⟩
    | none =>
      obtain ⟨m', hm', -⟩ := hashInternalInsertNew_of_ends data h0 hm
        (hends (hashLookup_eq_none_iff.mp hl))
      exact ⟨(none, m'), by rw [hashInsert, hl]; simp only [hm']; rfl⟩

theorem exists_hashOverwrite_iff {m : HashMap K D} {key : K} {data : D} (h0 : 0 < m.tableSz)
    (hm : m.Counted f) : (∃ r, hashOverwrite f m key data = .ok r) ↔ InsertEnds f m key data := by
  constructor
  · rintro ⟨r, hr⟩
    by_contra hstops
    rw [hashOverwrite_stops hstops] at hr
    exact absurd hr (by simp)
  · intro hends
    cases hp : m.pos f key with
    | some i => exact ⟨_, by rw [hashOverwrite, hp]⟩
    | none =>
      obtain ⟨m', hm', -⟩ := hashInternalInsertNew_of_ends data h0 hm (hends hp)
      exact ⟨(none, m'), by rw [hashOverwrite, hp]; simp only [hm']; rfl⟩

/-- A mapped result is there if the result is. -/
theorem exists_map_ok_iff {A B : Type*} {x : Except Fault A} {g : A → B} :
    (∃ b, x.map g = .ok b) ↔ ∃ a, x = .ok a :=
  ⟨fun ⟨_, h⟩ => let ⟨a, ha, _⟩ := map_eq_ok h; ⟨a, ha⟩, fun ⟨a, ha⟩ => ⟨g a, by rw [ha]; rfl⟩⟩

theorem exists_moduloSize_iff {A : Type*} {m : HashMap K D} {x : Except Fault A} :
    (∃ a, moduloSize m x = .ok a) ↔ m.tableSz ≠ 0 ∧ ∃ a, x = .ok a := by
  constructor
  · rintro ⟨a, h⟩
    obtain ⟨h0, hx⟩ := moduloSize_ok h
    exact ⟨h0.ne', a, hx⟩
  · rintro ⟨h0, a, hx⟩
    exact ⟨a, (moduloSize_of_pos h0 x).trans hx⟩

/-- A resize returns when it should. -/
theorem exists_hashResize_iff {m : HashMap K D} {newSz : ℕ} (hm : m.Counted f)
    (hzero : newSz = 0 → m.nodes = []) :
    (∃ r, hashResize f m newSz = .ok r) ↔ (newSz ≠ m.tableSz → m.tableSz < unsignedRange) := by
  constructor
  · rintro ⟨r, hr⟩ hne
    by_contra hsz
    rw [hashResize_of_huge hne (Nat.not_lt.mp hsz)] at hr
    exact absurd hr (by simp)
  · intro h
    by_cases heq : newSz = m.tableSz
    · exact ⟨(false, m), if_pos heq⟩
    rcases Nat.eq_zero_or_pos newSz with rfl | hpos
    · have hnil := hzero rfl
      have hcount : f.asserts = true → m.nEntries = (relinkAll f m 0).nEntries := fun ha => by
        rw [hm ha, HashMap.stored, relinkAll, hnil]
        rfl
      refine ⟨(true, relinkAll f m 0), ?_⟩
      rw [hashResize, if_neg heq, if_neg (Nat.not_le_of_lt (h heq))]
      simpa using hcount
    · exact ⟨_, hashResize_of_counted hm hpos heq (h heq)⟩

/-- **When an operation returns.** -/
theorem step_returns_iff (op : StoreOp K D) (hs : s.NoneLost f) :
    (∃ s', s.step f op = .ok s') ↔ s.Proceeds f op := by
  cases op with
  | insert key data =>
    rw [Ledger.step, exists_moduloSize_iff, exists_map_ok_iff]
    exact and_congr_right fun h0 => exists_hashInsert_iff (Nat.pos_of_ne_zero h0) hs.counted
  | overwrite key data =>
    rw [Ledger.step, exists_moduloSize_iff, exists_map_ok_iff]
    exact and_congr_right fun h0 => exists_hashOverwrite_iff (Nat.pos_of_ne_zero h0) hs.counted
  | remove key =>
    rw [Ledger.step, exists_moduloSize_iff]
    exact ⟨And.left, fun h0 => ⟨h0, _, rfl⟩⟩
  | resize newSz =>
    rw [Ledger.step, Ledger.Proceeds]
    by_cases hzero : newSz = 0 ∧ s.map.nodes ≠ []
    · rw [if_pos hzero]
      exact iff_of_false (by simp) fun h => hzero.2 (h.2 hzero.1)
    · rw [if_neg hzero, exists_map_ok_iff]
      have hnil : newSz = 0 → s.map.nodes = [] := fun h0 => by
        by_contra hnil
        exact hzero ⟨h0, hnil⟩
      rw [exists_hashResize_iff hs.counted hnil]
      exact ⟨fun h => ⟨h, hnil⟩, And.left⟩

/-- `hash_free` returns for a table of fewer than `2 ^ 32` buckets. -/
theorem exists_hashFreeLoop_iff {m : HashMap K D} :
    (∃ freed, hashFreeLoop m = .ok freed) ↔ m.tableSz < unsignedRange := by
  unfold hashFreeLoop
  split
  · exact iff_of_false (by simp) (by omega)
  · exact iff_of_true ⟨_, rfl⟩ (by omega)

theorem hashFreeLoop_ok {m : HashMap K D} {freed : List (HashNode K D)}
    (h : hashFreeLoop m = .ok freed) : freed = m.nodes := by
  unfold hashFreeLoop at h
  split at h
  · exact absurd h (by simp)
  · exact (Except.ok.inj h).symm

/-- **A hash map releases everything once** exactly when all operations of the run and the final
`hash_free` return. -/
theorem hash_releasedOnce_iff (f : HashEnv K) (sz : ℕ) (ops : List (StoreOp K D)) :
    HashReleasedOnce f sz ops ↔
      Runs.EachStep (Ledger.step f) (Ledger.Proceeds f) (Ledger.init sz) ops ∧
        ∀ s, Runs.run (Ledger.step f) (Ledger.init sz) ops = .ok s → s.map.tableSz < unsignedRange := by
  have hreturns : (∃ s, Runs.run (Ledger.step f) (Ledger.init sz) ops = .ok s) ↔
      Runs.EachStep (Ledger.step f) (Ledger.Proceeds f) (Ledger.init sz) ops :=
    Runs.run_returns_iff (I := Ledger.NoneLost f) (fun _ _ _ hs h => noneLost_step hs h)
      (fun _ op hs => step_returns_iff op hs) (noneLost_init f sz)
  rw [← hreturns]
  constructor
  · rintro ⟨stored, released, hrun, -⟩
    obtain ⟨s, hs, hrest⟩ := bind_eq_ok hrun
    obtain ⟨freed, hfreed, -⟩ := bind_eq_ok hrest
    refine ⟨⟨s, hs⟩, fun t ht => ?_⟩
    obtain rfl := Except.ok.inj (hs.symm.trans ht)
    exact exists_hashFreeLoop_iff.mp ⟨freed, hfreed⟩
  · rintro ⟨⟨s, hs⟩, hsz⟩
    obtain ⟨freed, hfreed⟩ := exists_hashFreeLoop_iff.mpr (hsz s hs)
    have hperm := (Runs.invariant_run (fun _ _ _ hs h => noneLost_step hs h) (noneLost_init f sz) hs).perm
    rw [← hashFreeLoop_ok hfreed] at hperm
    refine ⟨s.stored, s.released ++ freed, ?_, hperm.map _, hperm.map _⟩
    rw [releaseRun, hs, ok_bind, hfreed, ok_bind]

end Hash

/-! ## Multimaps -/

/-- The operations on a multimap that may be shared. -/
inductive SharedOp (K : Type u) (V : Type v) where
  | map (op : MultimapOp K V)
  | dup
  | free

/-- A multimap, if it is still there, the values that have been inserted in it, and those that have been
given to `free_data`. -/
structure SharedLedger (K : Type u) (V : Type v) where
  map : Option (Multimap K V)
  inserted : List V
  released : List V

/-- `multimap_init`. -/
def SharedLedger.init (sz : ℕ) : SharedLedger K V := ⟨some (multimapInit sz), [], []⟩

/-- The values of some pairs. -/
def valuesOf (pairs : List (MultimapPair K V)) : List V := pairs.map MultimapPair.val

/-- One operation on the map `m`, with the calls of `free_data`. -/
def SharedLedger.stepOn (f : HashEnv K) (compareVal : V → V → ℤ) (s : SharedLedger K V)
    (m : Multimap K V) : SharedOp K V → Except Fault (SharedLedger K V)
  | .map (.insert key val) => (multimapInsert f m key val).map fun r =>
      { s with map := some r.2, inserted := s.inserted ++ [val] }
  | .map (.delete key val) => .ok
      { s with
        map := some (multimapDelete f compareVal m key val).2
        released := s.released ++ valuesOf (multimapDelete f compareVal m key val).1 }
  | .map (.deleteAll key) => .ok
      { s with
        map := some (multimapDeleteAll f m key).2
        released := s.released ++ valuesOf (multimapDeleteAll f m key).1 }
  | .dup => .ok { s with map := some { m with refcount := m.refcount + 1 } }
  | .free =>
      if m.refcount - 1 = 0 then
        (hashFreeLoop m.hashTab).map fun nodes =>
          { s with map := none, released := s.released ++ valuesOf (nodes.flatMap HashNode.pairs) }
      else .ok { s with map := some { m with refcount := m.refcount - 1 } }

/-- One operation. -/
def SharedLedger.step (f : HashEnv K) (compareVal : V → V → ℤ) (s : SharedLedger K V)
    (op : SharedOp K V) : Except Fault (SharedLedger K V) :=
  match s.map with
  | some m => s.stepOn f compareVal m op
  | none => .error .useAfterFree

/-- With `n` references at the start there is always one, and there is one left in the end. -/
def Balanced : ℕ → List (SharedOp K V) → Prop
  | n, [] => n = 1
  | n, .map _ :: ops => Balanced n ops
  | n, .dup :: ops => Balanced (n + 1) ops
  | n, .free :: ops => 2 ≤ n ∧ Balanced (n - 1) ops

/-- **Every value that was inserted is released once**, and nothing else is, when the last reference is
given back behind the run. -/
def SharedReleasedOnce (f : HashEnv K) (compareVal : V → V → ℤ) (s : SharedLedger K V)
    (ops : List (SharedOp K V)) : Prop :=
  ∃ t, Runs.run (SharedLedger.step f compareVal) s (ops ++ [.free]) = .ok t ∧
    t.released.Perm t.inserted

/-- The table is not so large that it cannot grow if the key is new and makes it; and a reference that is
given back is not taken for the last one. -/
def SharedLedger.Proceeds (f : HashEnv K) (s : SharedLedger K V) : SharedOp K V → Prop
  | .map (.insert key val) => ∀ m ∈ s.map,
      InsertEnds f m.hashTab key (MultimapNode.single (m.newPair key val))
  | .free => ∀ m ∈ s.map, m.refcount ≠ 1
  | _ => True

/-- Every step proceeds, and the table that is left is not too large for `hash_free`. -/
def SharedLedger.Completes (f : HashEnv K) (compareVal : V → V → ℤ) (s : SharedLedger K V)
    (ops : List (SharedOp K V)) : Prop :=
  Runs.EachStep (SharedLedger.step f compareVal) (SharedLedger.Proceeds f) s ops ∧
    ∀ t, Runs.run (SharedLedger.step f compareVal) s ops = .ok t →
      ∀ m ∈ t.map, m.hashTab.tableSz < unsignedRange

/-- What was released and what is still there are together what was inserted. -/
structure SharedLedger.NoneLost (s : SharedLedger K V) (m : Multimap K V) : Prop where
  map : s.map = some m
  size_pos : 0 < m.hashTab.tableSz
  perm : (s.released ++ valuesOf m.pairs).Perm s.inserted

section Shared

variable {f : HashEnv K} {compareVal : V → V → ℤ} {s s' : SharedLedger K V} {m : Multimap K V}

theorem step_of_map (hs : s.NoneLost m) (op : SharedOp K V) :
    s.step f compareVal op = s.stepOn f compareVal m op := by
  rw [SharedLedger.step, hs.map]

/-- The number of references plays no part in the account. -/
theorem SharedLedger.NoneLost.withRefcount (hs : s.NoneLost m) (refcount : UInt32) :
    SharedLedger.NoneLost { s with map := some { m with refcount } } { m with refcount } :=
  ⟨rfl, hs.size_pos, hs.perm⟩

/-- A size is not `0` after an insertion. -/
theorem size_pos_insert {m' : Multimap K V} {key : K} {val : V} {r : Bool}
    (h0 : 0 < m.hashTab.tableSz) (h : multimapInsert f m key val = .ok (r, m')) :
    0 < m'.hashTab.tableSz := by
  rcases multimapInsert_ok h with ⟨node, -, -, rfl⟩ | ⟨tab, -, -, hnew, rfl⟩
  · rwa [tableSz_hashSetData]
  · exact (insertNew_counts h0 hnew).1

theorem refcount_insert {m' : Multimap K V} {key : K} {val : V} {r : Bool}
    (h : multimapInsert f m key val = .ok (r, m')) : m'.refcount = m.refcount := by
  rcases multimapInsert_ok h with ⟨node, -, -, rfl⟩ | ⟨tab, -, -, -, rfl⟩ <;> rfl

theorem refcount_multimapDelete (f : HashEnv K) (compareVal : V → V → ℤ) (m : Multimap K V) (key : K)
    (val : V) : (multimapDelete f compareVal m key val).2.refcount = m.refcount := by
  rcases multimapDelete_cases f compareVal m key val with
    ⟨-, hd⟩ | ⟨node, i, -, -, -, hd⟩ | ⟨node, i, -, -, -, hd⟩ <;> rw [hd]

/-- An insertion returns when it should. -/
theorem exists_multimapInsert_iff (hf : f.asserts = false) {key : K} {val : V}
    (h0 : 0 < m.hashTab.tableSz) :
    (∃ r, multimapInsert f m key val = .ok r) ↔
      InsertEnds f m.hashTab key (MultimapNode.single (m.newPair key val)) := by
  have hcounted : m.hashTab.Counted f := fun ha => absurd (hf.symm.trans ha) (by simp)
  rw [← exists_hashInsert_iff h0 hcounted, multimapInsert]
  cases hl : hashLookup f m.hashTab key with
  | none => exact exists_map_ok_iff
  | some node => exact iff_of_true ⟨_, rfl⟩ ⟨_, by rw [hashInsert, hl]⟩

/-- Pairs that are taken away are released. -/
theorem perm_delete {m' : Multimap K V} {freed : List (MultimapPair K V)}
    (hs : s.NoneLost m) (hperm : (freed ++ m'.pairs).Perm m.pairs) :
    (s.released ++ valuesOf freed ++ valuesOf m'.pairs).Perm s.inserted := by
  rw [List.append_assoc, valuesOf, valuesOf, ← List.map_append]
  exact ((hperm.map MultimapPair.val).append_left s.released).trans hs.perm

/-- **An operation on the pairs** returns when it should, keeps account, and leaves the references as
they are. -/
theorem map_step_spec (compareVal : V → V → ℤ) (hf : f.asserts = false) (op : MultimapOp K V) (hs : s.NoneLost m) :
    ((∃ s', s.step f compareVal (.map op) = .ok s') ↔ s.Proceeds f (.map op)) ∧
      ∀ s', s.step f compareVal (.map op) = .ok s' → ∃ m', s'.NoneLost m' ∧ m'.refcount = m.refcount := by
  rw [step_of_map hs]
  cases op with
  | insert key val =>
    constructor
    · rw [SharedLedger.stepOn, exists_map_ok_iff, exists_multimapInsert_iff hf hs.size_pos,
        SharedLedger.Proceeds, hs.map]
      exact ⟨fun h m' hm' => Option.some.inj hm' ▸ h, fun h => h m rfl⟩
    · intro s' h
      obtain ⟨⟨r, m'⟩, hins, rfl⟩ := map_eq_ok h
      refine ⟨m', ⟨rfl, size_pos_insert hs.size_pos hins, ?_⟩, refcount_insert hins⟩
      have hperm := (perm_pairs_insert hs.size_pos hins).1.map MultimapPair.val
      refine (hperm.append_left s.released).trans ?_
      exact List.perm_middle.trans ((hs.perm.cons val).trans (List.perm_append_singleton val _).symm)
  | delete key val =>
    refine ⟨iff_of_true ⟨_, rfl⟩ trivial, fun s' h => ?_⟩
    obtain rfl := Except.ok.inj h
    refine ⟨_, ⟨rfl, ?_, perm_delete hs (perm_pairs_delete f compareVal m key val).1⟩,
      refcount_multimapDelete f compareVal m key val⟩
    rw [tableSz_multimapDelete]
    exact hs.size_pos
  | deleteAll key =>
    refine ⟨iff_of_true ⟨_, rfl⟩ trivial, fun s' h => ?_⟩
    obtain rfl := Except.ok.inj h
    have hcases := multimapDeleteAll_cases f m key
    refine ⟨_, ⟨rfl, ?_, perm_delete hs (perm_pairs_deleteAll f m key).1⟩, ?_⟩
    · rcases hcases with ⟨-, hd⟩ | ⟨node, i, -, -, hd⟩
      · rw [hd]
        exact hs.size_pos
      · rw [hd]
        exact (tableSz_unlink m.hashTab _ i).symm ▸ hs.size_pos
    · rcases hcases with ⟨-, hd⟩ | ⟨node, i, -, -, hd⟩ <;> rw [hd]

/-- Nothing goes on when the map is gone. -/
theorem run_of_none (hs : s.map = none) (ops : List (SharedOp K V)) :
    Runs.run (SharedLedger.step f compareVal) s (ops ++ [.free]) = .error .useAfterFree := by
  have hstep : ∀ op, s.step f compareVal op = .error .useAfterFree := fun op => by
    rw [SharedLedger.step, hs]
  cases ops with
  | nil => exact Runs.run_cons_error (hstep .free) []
  | cons op ops => exact Runs.run_cons_error (hstep op) _

/-- The first step of a run that proceeds. -/
theorem releasedOnce_cons_iff {op : SharedOp K V} {ops : List (SharedOp K V)}
    (hreturns : (∃ s', s.step f compareVal op = .ok s') ↔ s.Proceeds f op)
    (hrest : ∀ s', s.step f compareVal op = .ok s' →
      (SharedReleasedOnce f compareVal s' ops ↔ s'.Completes f compareVal ops)) :
    SharedReleasedOnce f compareVal s (op :: ops) ↔ s.Completes f compareVal (op :: ops) := by
  rw [SharedReleasedOnce, SharedLedger.Completes, List.cons_append, Runs.EachStep, ← hreturns]
  cases hop : s.step f compareVal op with
  | error e =>
    rw [Runs.run_cons_error hop]
    refine iff_of_false ?_ fun h => absurd h.1.1 (by simp)
    rintro ⟨t, ht, -⟩
    exact absurd ht (by simp)
  | ok s' =>
    rw [Runs.run_cons_ok hop, Runs.run_cons_ok hop]
    refine (hrest s' hop).trans ⟨fun h => ⟨⟨⟨s', rfl⟩, fun t ht => ?_⟩, h.2⟩, fun h => ⟨h.1.2 s' rfl, h.2⟩⟩
    exact Except.ok.inj ht ▸ h.1

/-- **A multimap releases every value once** exactly when all operations of the run return, no reference
that is given back is taken for the last one, and `hash_free` returns in the end. -/
theorem shared_releasedOnce_iff (hf : f.asserts = false) {ops : List (SharedOp K V)} {n : ℕ}
    (hn : Balanced n ops) (hs : s.NoneLost m) (hrefs : m.refcount = UInt32.ofNat n) :
    SharedReleasedOnce f compareVal s ops ↔ s.Completes f compareVal ops := by
  induction ops generalizing n s m with
  | nil =>
    obtain rfl : n = 1 := hn
    have hstep : s.step f compareVal .free = (hashFreeLoop m.hashTab).map fun nodes =>
        { s with map := none, released := s.released ++ valuesOf (nodes.flatMap HashNode.pairs) } := by
      rw [step_of_map hs, SharedLedger.stepOn, hrefs]
      exact if_pos rfl
    have hcompletes : s.Completes f compareVal [] ↔ m.hashTab.tableSz < unsignedRange := by
      refine ⟨fun h => h.2 s rfl m hs.map, fun h => ⟨trivial, fun t ht m' hm' => ?_⟩⟩
      rw [← Except.ok.inj ht, hs.map] at hm'
      rwa [← Option.some.inj hm']
    rw [hcompletes, SharedReleasedOnce, List.nil_append, ← exists_hashFreeLoop_iff]
    cases hfree : hashFreeLoop m.hashTab with
    | error e =>
      rw [hfree] at hstep
      rw [Runs.run_cons_error hstep]
      exact iff_of_false (fun ⟨t, ht, _⟩ => absurd ht (by simp)) (by simp)
    | ok nodes =>
      rw [hfree] at hstep
      rw [Runs.run_cons_ok hstep]
      refine iff_of_true ⟨_, rfl, ?_⟩ ⟨nodes, rfl⟩
      rw [hashFreeLoop_ok hfree]
      exact hs.perm
  | cons op ops ih =>
    cases op with
    | map op =>
      obtain ⟨hreturns, hkeeps⟩ := map_step_spec compareVal hf op hs
      refine releasedOnce_cons_iff hreturns fun s' hs' => ?_
      obtain ⟨m', hnone, hcount⟩ := hkeeps s' hs'
      exact ih hn hnone (hcount.trans hrefs)
    | dup =>
      refine releasedOnce_cons_iff (iff_of_true ⟨_, step_of_map hs .dup⟩ trivial) fun s' hs' => ?_
      rw [step_of_map hs] at hs'
      obtain rfl := Except.ok.inj hs'
      refine ih hn (hs.withRefcount _) ?_
      rw [hrefs, UInt32.ofNat_add]
      rfl
    | free =>
      obtain ⟨htwo, hn⟩ := hn
      have hproceeds : s.Proceeds f .free ↔ m.refcount ≠ 1 :=
        ⟨fun h => h m hs.map, fun h m' hm' => Option.some.inj (hs.map.symm.trans hm') ▸ h⟩
      have hlast : m.refcount - 1 = 0 ↔ m.refcount = 1 := sub_eq_zero
      by_cases hcount : m.refcount = 1
      · -- the map goes while there are references, and the next operation finds nothing
        refine iff_of_false ?_ fun h => hproceeds.mp h.1.1 hcount
        rintro ⟨t, ht, -⟩
        cases hop : s.step f compareVal .free with
        | error e =>
          rw [List.cons_append, Runs.run_cons_error hop] at ht
          exact absurd ht (by simp)
        | ok s' =>
          have hgone : s'.map = none := by
            rw [step_of_map hs, SharedLedger.stepOn] at hop
            rw [if_pos (hlast.mpr hcount)] at hop
            obtain ⟨nodes, -, rfl⟩ := map_eq_ok hop
            rfl
          rw [List.cons_append, Runs.run_cons_ok hop, run_of_none hgone] at ht
          exact absurd ht (by simp)
      · have hstep : s.step f compareVal .free =
            .ok { s with map := some { m with refcount := m.refcount - 1 } } := by
          rw [step_of_map hs, SharedLedger.stepOn]
          exact if_neg fun h => hcount (hlast.mp h)
        refine releasedOnce_cons_iff (iff_of_true ⟨_, hstep⟩ (hproceeds.mpr hcount)) fun s' hs' => ?_
        obtain rfl := Except.ok.inj (hstep.symm.trans hs')
        refine ih hn (hs.withRefcount _) ?_
        rw [hrefs, UInt32.ofNat_sub (by omega)]
        rfl

end Shared

theorem noneLost_multimapInit (sz : ℕ) :
    (SharedLedger.init sz : SharedLedger K V).NoneLost (multimapInit sz) where
  map := rfl
  size_pos := tableSz_hashInit_pos sz
  perm := by rw [Multimap.pairs_init]; exact List.Perm.refl _

/-- **Everything stored is released exactly once.**  A hash map, any sequence of insertions, replacements,
removals and resizes, and `hash_free` behind them: exactly when every operation has a table with buckets,
none relinks `2 ^ 32` of them, and there are fewer in the end.  A multimap, any sequence of operations on it
and its references in which the last of them is given back behind the others: exactly when no growth
relinks `2 ^ 32` buckets, no other reference is taken for the last one, and there are fewer buckets in the
end. -/
theorem released_once_iff (f : HashEnv K) (compareVal : V → V → ℤ) (sz : ℕ) :
    (∀ ops : List (StoreOp K D), HashReleasedOnce f sz ops ↔
      Runs.EachStep (Ledger.step f) (Ledger.Proceeds f) (Ledger.init sz) ops ∧
        ∀ s, Runs.run (Ledger.step f) (Ledger.init sz) ops = .ok s →
          s.map.tableSz < unsignedRange) ∧
      ∀ ops : List (SharedOp K V), f.asserts = false → Balanced 1 ops →
        (SharedReleasedOnce f compareVal (SharedLedger.init sz) ops ↔
          (SharedLedger.init sz).Completes f compareVal ops) :=
  ⟨hash_releasedOnce_iff f sz, fun _ hf hn =>
    shared_releasedOnce_iff hf hn (noneLost_multimapInit sz) rfl⟩

/-- An object is put into a map, and while another owner has the map it is taken out. -/
theorem released_once_shared :
    SharedReleasedOnce (roomEnv false) (fun a b : ℤ => a - b) (SharedLedger.init 8)
        [.map (.insert (letter 97) 1), .dup, .map (.delete (letter 97) 1), .free] ↔
      (SharedLedger.init 8).Completes (roomEnv false) (fun a b : ℤ => a - b)
        [.map (.insert (letter 97) 1), .dup, .map (.delete (letter 97) 1), .free] :=
  (released_once_iff (D := Unit) (roomEnv false) (fun a b : ℤ => a - b) 8).2 _ rfl
    (show Balanced 1 _ from ⟨Nat.le_refl 2, rfl⟩)

/-- **A map with one entry is resized to `0`**: the process ends in a division, and nothing has been
released. -/
theorem resize_to_zero_releases_nothing :
    ¬ HashReleasedOnce (roomEnv true) 8 [.insert (letter 97) 1, .resize 0] ∧
      releaseRun (roomEnv true) 8 [.insert (letter 97) 1, .resize 0] = .error .divisionByZero := by
  have hrun : releaseRun (roomEnv true) 8 [.insert (letter 97) 1, .resize 0] =
      .error .divisionByZero := by rfl
  refine ⟨?_, hrun⟩
  rintro ⟨stored, released, hok, -⟩
  rw [hrun] at hok
  exact absurd hok (by simp)

end NetCosm
