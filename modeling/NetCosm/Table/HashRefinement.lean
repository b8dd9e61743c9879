import Mathlib.Data.List.TakeWhile
import NetCosm.Library.ClassMap
import NetCosm.Library.Simulation
import NetCosm.Table.HashEntries
import NetCosm.Table.HashSanity

/-!
# The hash table is a finite map

`hash.h` promises a map from keys to data.  This file compares the code with the
mathematical object: a finite map from the classes of keys that compare equal to pairs
of a stored key and a datum (`ClassMap`), on which insertion keeps what is there,
overwriting replaces both key and datum, removal takes out a class, resizing does
nothing, and `hash_dup` makes a second map.

## What is compared

`HashCall` are the calls a program makes, those that change the map and those that read
it, and `HashAnswer` is what they return.  A program has many maps, the copies
`hash_dup` made among them, and calls any of them in any order; so the claim is about a
fleet of maps (`fleetCall`).

## When it is true

The chains are always right: `Refines` says that the entries of a table are those of the
finite map, and every operation that returns keeps it, whatever `used_buckets` says.  One
thing can go wrong.  The loops of `hash_resize` and `hash_iterate` count buckets with an
`unsigned` although the size is a `size_t`, and with `2 ^ 32` buckets they never end.
`hash_refines_iff` says that the answers are those of the finite map exactly when no call
relinks or copies a table of that size.
-/

namespace NetCosm

universe u v

variable {K : Type u} {D : Type v}

/-! ## Calls and answers -/

/-- The calls on a map. -/
inductive HashCall (K : Type u) (D : Type v) where
  | insert (key : K) (data : D)
  | overwrite (key : K) (data : D)
  | remove (key : K)
  | resize (newSz : ℕ) (nonzero : newSz ≠ 0)
  | lookup (key : K)
  | getkeyptr (key : K)

/-- What a call returns. -/
inductive HashAnswer (K : Type u) (D : Type v) where
  /-- A datum, or null. -/
  | data (d : Option D)
  /-- A key, or null. -/
  | key (k : Option K)
  /-- Whether `hash_remove` found the key. -/
  | removed (found : Bool)
  /-- The call returns nothing about the entries. -/
  | done

/-- The calls as `hash.c` answers them. -/
def hashCall (f : HashEnv K) (m : HashMap K D) :
    HashCall K D → Except Fault (HashAnswer K D × HashMap K D)
  | .insert key data => (hashInsert f m key data).map fun r => (.data r.1, r.2)
  | .overwrite key data => (hashOverwrite f m key data).map fun r => (.done, r.2)
  | .remove key => .ok (.removed (hashRemove f m key).1.isSome, (hashRemove f m key).2)
  | .resize newSz _ => (hashResize f m newSz).map fun r => (.done, r.2)
  | .lookup key => .ok (.data (hashLookup f m key), m)
  | .getkeyptr key => .ok (.key (hashGetkeyptr f m key), m)

/-- `hash_dup` of a map without null data, with the callback in force. -/
def hashCopy (f : HashEnv K) (m : HashMap K D) (dupData : D → D) : Except Fault (HashMap K D) :=
  hashDup f (fun _ => false) dupData m

/-- The calls as a finite map answers them. -/
noncomputable def mapCall {r : Setoid K} (M : ClassMap r (K × D)) :
    HashCall K D → HashAnswer K D × ClassMap r (K × D)
  | .insert key data =>
      match M.get key with
      | some e => (.data (some e.2), M)
      | none => (.data none, M.put key (key, data))
  | .overwrite key data => (.done, M.put key (key, data))
  | .remove key => (.removed (M.get key).isSome, M.erase key)
  | .resize _ _ => (.done, M)
  | .lookup key => (.data ((M.get key).map Prod.snd), M)
  | .getkeyptr key => (.key ((M.get key).map Prod.fst), M)

/-- A copy of a finite map: the same keys, and the image of each datum. -/
def mapCopy {r : Setoid K} (M : ClassMap r (K × D)) (dupData : D → D) : ClassMap r (K × D) :=
  M.map fun e => (e.1, dupData e.2)

/-! ## Calls that return -/

/-- If the key is new and its insertion makes the table grow, the loop that relinks the
table reaches the end of it. -/
def InsertEnds (f : HashEnv K) (m : HashMap K D) (key : K) (data : D) : Prop :=
  m.pos f key = none → growsAt m key data (f.bucket key m.tableSz) = true →
    m.tableSz < unsignedRange

instance (f : HashEnv K) (m : HashMap K D) (key : K) (data : D) :
    Decidable (InsertEnds f m key data) :=
  inferInstanceAs (Decidable (_ → _))

/-- The call relinks no table of `2 ^ 32` buckets. -/
def CallEnds (f : HashEnv K) (m : HashMap K D) : HashCall K D → Prop
  | .insert key data => InsertEnds f m key data
  | .overwrite key data => InsertEnds f m key data
  | .resize newSz _ => newSz ≠ m.tableSz → m.tableSz < unsignedRange
  | .remove _ | .lookup _ | .getkeyptr _ => True

instance (f : HashEnv K) (m : HashMap K D) (c : HashCall K D) : Decidable (CallEnds f m c) :=
  match c with
  | .insert key data => inferInstanceAs (Decidable (InsertEnds f m key data))
  | .overwrite key data => inferInstanceAs (Decidable (InsertEnds f m key data))
  | .resize newSz _ => inferInstanceAs (Decidable (newSz ≠ m.tableSz → m.tableSz < unsignedRange))
  | .remove _ | .lookup _ | .getkeyptr _ => .isTrue trivial

/-- One round of the loop of `hash_dup`: the node `n` of the original is inserted in the
copy. -/
def dupNodeInto (f : HashEnv K) (dupData : D → D) (ret : HashMap K D) (n : HashNode K D) :
    Except Fault (HashMap K D) :=
  (hashInsert f ret n.key (dupData n.data)).map Prod.snd

/-- The copy visits no table of `2 ^ 32` buckets: neither the original, nor the copy when
it grows while it is filled. -/
def CopyEnds (f : HashEnv K) (m : HashMap K D) (dupData : D → D) : Prop :=
  m.tableSz < unsignedRange ∧
    Runs.EachStep (dupNodeInto f dupData)
      (fun ret n => InsertEnds f ret n.key (dupData n.data)) (HashMap.fresh m.tableSz) m.nodes

instance (f : HashEnv K) (m : HashMap K D) (dupData : D → D) :
    Decidable (CopyEnds f m dupData) :=
  inferInstanceAs (Decidable (_ ∧ _))

open HashMap

/-- If `assert` is compiled in, the entry counter is right. -/
def HashMap.Counted (f : HashEnv K) (m : HashMap K D) : Prop :=
  f.asserts = true → m.nEntries = UInt64.ofNat m.stored

/-- A resize of a table whose entry counter passes the assertion returns unless its loop
does not end. -/
theorem hashResize_of_counted {f : HashEnv K} {m : HashMap K D} (hm : m.Counted f) {newSz : ℕ} (hpos : 0 < newSz)
    (hne : newSz ≠ m.tableSz) (h : m.tableSz < unsignedRange) :
    hashResize f m newSz = .ok (true, relinkAll f m newSz) := by
  have hcount : f.asserts = true → m.nEntries = (relinkAll f m newSz).nEntries := fun ha => by
    rw [(sane_relinkAll f m hpos).entries, stored_relinkAll f m hpos, hm ha]
  rw [hashResize, if_neg hne, if_neg (Nat.not_le_of_lt h)]
  simpa using hcount

theorem hashResize_of_huge {f : HashEnv K} {m : HashMap K D} {newSz : ℕ}
    (hne : newSz ≠ m.tableSz) (h : unsignedRange ≤ m.tableSz) :
    hashResize f m newSz = .error .endlessLoop := by
  rw [hashResize, if_neg hne, if_pos h]

theorem counted_appendNode {f : HashEnv K} {m : HashMap K D} (hm : m.Counted f) {hash : ℕ}
    (hb : hash < m.tableSz) (key : K) (data : D) : (appendNode m key data hash).Counted f := by
  intro ha
  rw [stored_appendNode hb, UInt64.ofNat_add, ← hm ha]
  rfl

/-- **A new node is inserted**, and the entry counter stays right, unless the table grows
from a size at which relinking does not end. -/
theorem hashInternalInsertNew_of_ends {f : HashEnv K} {m : HashMap K D} {key : K} (data : D)
    (h0 : 0 < m.tableSz) (hm : m.Counted f)
    (h : growsAt m key data (f.bucket key m.tableSz) = true → m.tableSz < unsignedRange) :
    ∃ m', hashInternalInsertNew f m key data (f.bucket key m.tableSz) = .ok m' ∧
      m'.Counted f ∧ m'.nodes.Perm (⟨key, data⟩ :: m.nodes) := by
  have hb := f.bucket_lt key h0
  have hcount := counted_appendNode hm hb key data
  have hperm := perm_nodes_appendNode m hb key data
  by_cases hg : growsAt m key data (f.bucket key m.tableSz) = true
  · have hpos : 0 < m.tableSz * 2 := by omega
    refine ⟨relinkAll f (appendNode m key data (f.bucket key m.tableSz)) (m.tableSz * 2), ?_,
      fun _ => (sane_relinkAll f _ hpos).entries, (perm_nodes_relinkAll f _ hpos).trans hperm⟩
    rw [hashInternalInsertNew_eq, if_pos hg, hashResize_of_counted hcount hpos (by simp; omega)
      (by simpa using h hg)]
    rfl
  · refine ⟨appendNode m key data (f.bucket key m.tableSz), ?_, hcount, hperm⟩
    rw [hashInternalInsertNew_eq, if_neg hg]

/-- Inserting a new node in a table that has to grow and is too large does not end. -/
theorem hashInternalInsertNew_of_huge {f : HashEnv K} {m : HashMap K D} {key : K} {data : D}
    {hash : ℕ} (hg : growsAt m key data hash = true) (h : unsignedRange ≤ m.tableSz) :
    hashInternalInsertNew f m key data hash = .error .endlessLoop := by
  have hpos : 0 < unsignedRange := by decide
  rw [hashInternalInsertNew_eq, if_pos hg, hashResize_of_huge (by simp; omega) (by simpa using h)]
  rfl

/-- **An insertion inside the guard returns**, and keeps the entry counter right. -/
theorem hashInsert_of_ends {f : HashEnv K} (hf : f.Compatible) {m : HashMap K D} {key : K}
    {data : D} (hm : m.WellPlaced f) (hc : m.Counted f) (h : InsertEnds f m key data) :
    ∃ m', hashInsert f m key data = .ok (hashLookup f m key, m') ∧ m'.WellPlaced f ∧
      m'.Counted f ∧ ∀ k, hashEntry f m' k =
        if f.Same key k ∧ hashEntry f m k = none then some (key, data) else hashEntry f m k := by
  have hret : ∃ m', hashInsert f m key data = .ok (hashLookup f m key, m') ∧ m'.Counted f := by
    cases hlook : hashLookup f m key with
    | some d => exact ⟨m, by rw [hashInsert, hlook], hc⟩
    | none =>
      obtain ⟨m', hm', hc', -⟩ := hashInternalInsertNew_of_ends data hm.size_pos hc
        (h (hashLookup_eq_none_iff.mp hlook))
      exact ⟨m', by rw [hashInsert, hlook]; simp only [hm']; rfl, hc'⟩
  obtain ⟨m', hm', hc'⟩ := hret
  obtain ⟨-, hplaced, hentries⟩ := hashInsert_entries hf hm hm'
  exact ⟨m', hm', hplaced, hc', hentries⟩

/-- `hash_remove` keeps the entry counter right. -/
theorem counted_hashRemove {f : HashEnv K} {m : HashMap K D} (hc : m.Counted f) (key : K) :
    (hashRemove f m key).2.Counted f := by
  cases hp : m.pos f key with
  | none => rwa [show hashRemove f m key = (none, m) by rw [hashRemove, hp]]
  | some i =>
    have hrem : hashRemove f m key = ((m.chain (f.bucket key m.tableSz))[i]?,
        { unlink m (f.bucket key m.tableSz) i with nEntries := m.nEntries - 1 }) := by
      rw [hashRemove, hp]
    rw [hrem]
    intro ha
    have hstored := stored_unlink (pos_lt hp)
    show m.nEntries - 1 = UInt64.ofNat (unlink m (f.bucket key m.tableSz) i).stored
    rw [hc ha, ← hstored, UInt64.ofNat_add]
    exact UInt64.add_sub_cancel _ _

/-- `n_entries` is the number of the nodes. -/
def HashMap.Exact (m : HashMap K D) : Prop := m.nEntries = UInt64.ofNat m.stored

section Exact

variable {f : HashEnv K} {m m' : HashMap K D} {key : K} {data : D}

theorem exact_insertNew (h0 : 0 < m.tableSz) (hm : m.Exact) {key' : K}
    (h : hashInternalInsertNew f m key data (f.bucket key' m.tableSz) = .ok m') : m'.Exact := by
  rcases hashInternalInsertNew_ok h0 h with ⟨-, rfl⟩ | ⟨-, rfl⟩
  · have hstored := stored_appendNode (f.bucket_lt key' h0) key data
    rw [HashMap.Exact, hstored, UInt64.ofNat_add, ← hm]
    rfl
  · exact (sane_relinkAll f _ (by omega)).entries

theorem exact_hashInsert (h0 : 0 < m.tableSz) (hm : m.Exact) {r : Option D}
    (h : hashInsert f m key data = .ok (r, m')) : m'.Exact := by
  rcases hashInsert_ok h with ⟨-, -, rfl⟩ | ⟨-, -, hnew⟩
  · exact hm
  · exact exact_insertNew h0 hm hnew

/-- A chain is replaced by one of the same length. -/
theorem HashMap.Exact.set_same_length (hm : m.Exact) {b : ℕ} {c : List (HashNode K D)} (hb : b < m.tableSz)
    (hc : c.length = (m.chain b).length) : (m.setChain b c).Exact := by
  have hstored := stored_set m (m.setChain b c) hb rfl
  have heq : (m.setChain b c).stored = m.stored := by omega
  rw [HashMap.Exact, heq]
  exact hm

theorem exact_hashOverwrite (h0 : 0 < m.tableSz) (hm : m.Exact) {r : Option (HashNode K D)}
    (h : hashOverwrite f m key data = .ok (r, m')) : m'.Exact := by
  rcases hashOverwrite_ok h with ⟨i, -, -, rfl⟩ | ⟨-, -, hnew⟩
  · exact hm.set_same_length (f.bucket_lt key h0) (by simp)
  · exact exact_insertNew h0 hm hnew

theorem exact_hashSetData (h0 : 0 < m.tableSz) (hm : m.Exact) : (hashSetData f m key data).Exact := by
  unfold hashSetData
  cases m.pos f key with
  | none => exact hm
  | some i => exact hm.set_same_length (f.bucket_lt key h0) (by simp)

theorem exact_hashRemove (f : HashEnv K) (hm : m.Exact) (key : K) : (hashRemove f m key).2.Exact :=
  counted_hashRemove (f := { f with asserts := true }) (fun _ => hm) key rfl

end Exact

/-- An insertion outside the guard does not end. -/
theorem hashInsert_stops {f : HashEnv K} {m : HashMap K D} {key : K} {data : D}
    (h : ¬ InsertEnds f m key data) : hashInsert f m key data = .error .endlessLoop := by
  simp only [InsertEnds, not_forall, Nat.not_lt] at h
  obtain ⟨hp, hg, hsz⟩ := h
  rw [hashInsert, hashLookup_eq_none_iff.mpr hp]
  dsimp only
  rw [hashInternalInsertNew_of_huge hg hsz]
  rfl

theorem hashOverwrite_stops {f : HashEnv K} {m : HashMap K D} {key : K} {data : D}
    (h : ¬ InsertEnds f m key data) : hashOverwrite f m key data = .error .endlessLoop := by
  simp only [InsertEnds, not_forall, Nat.not_lt] at h
  obtain ⟨hp, hg, hsz⟩ := h
  rw [hashOverwrite, hp]
  dsimp only
  rw [hashInternalInsertNew_of_huge hg hsz]
  rfl

/-! ## The refinement -/

/-- The table `m` stores the finite map `M`.  Nothing is said of `used_buckets`, which
the operations do not keep right. -/
structure Refines {f : HashEnv K} (hf : f.Compatible) (m : HashMap K D)
    (M : ClassMap hf.classes (K × D)) : Prop where
  placed : m.WellPlaced f
  counted : m.Counted f
  entries : ∀ k, hashEntry f m k = M.get k

section Refinement

variable {f : HashEnv K} {hf : f.Compatible} {m : HashMap K D} {M : ClassMap hf.classes (K × D)}

theorem refines_hashInit (f : HashEnv K) (hf : f.Compatible) (sz : ℕ) :
    Refines hf (hashInit sz : HashMap K D) ClassMap.empty where
  placed := wellPlaced_hashInit f sz
  counted _ := (sane_fresh _).entries
  entries k := by rw [hashInit, hashEntry_fresh, ClassMap.get_empty]

/-- Entries that change at one class change as the finite map does. -/
theorem get_put_eq (h : ∀ k, hashEntry f m k = M.get k) (key : K) (e : K × D) (k : K) :
    (if f.Same key k then some e else hashEntry f m k) = (M.put key e).get k := by
  split
  · rename_i hs
    exact (M.get_put_same hs e).symm
  · rename_i hs
    rw [M.get_put_other hs, h]

theorem get_erase_eq (h : ∀ k, hashEntry f m k = M.get k) (key k : K) :
    (if f.Same key k then none else hashEntry f m k) = (M.erase key).get k := by
  split
  · rename_i hs
    exact (M.get_erase_same hs).symm
  · rename_i hs
    rw [M.get_erase_other hs, h]

/-- A new node puts its class into the finite map. -/
theorem Refines.insertNew (h : Refines hf m M) {key : K} {data : D} (hnew : M.get key = none)
    (hends : InsertEnds f m key data) :
    ∃ m', hashInternalInsertNew f m key data (f.bucket key m.tableSz) = .ok m' ∧
      Refines hf m' (M.put key (key, data)) := by
  have hentry : hashEntry f m key = none := (h.entries key).trans hnew
  obtain ⟨m', hm', hcount, -⟩ := hashInternalInsertNew_of_ends _ h.placed.size_pos h.counted
    (hends (hashEntry_eq_none_iff_pos.mp hentry))
  obtain ⟨hplaced, hentries⟩ := hashEntry_insertNew hf h.placed hentry hm'
  exact ⟨m', hm', hplaced, hcount, fun k => (hentries k).trans (get_put_eq h.entries _ _ k)⟩

theorem Refines.insert (h : Refines hf m M) {key : K} {data : D}
    (hends : InsertEnds f m key data) :
    ∃ m', hashCall f m (.insert key data) = .ok ((mapCall M (.insert key data)).1, m') ∧
      Refines hf m' (mapCall M (.insert key data)).2 := by
  obtain ⟨m', hm', hplaced, hcount, hentries⟩ := hashInsert_of_ends hf h.placed h.counted hends
  refine ⟨m', ?_, hplaced, hcount, fun k => (hentries k).trans ?_⟩
  · rw [hashCall, hm', hashLookup_eq_map, h.entries]
    cases hM : M.get key <;> simp only [mapCall, hM] <;> rfl
  · cases hM : M.get key with
    | some e =>
      rw [if_neg, h.entries]
      · simp only [mapCall, hM]
      · rintro ⟨hs, hk⟩
        rw [← hashEntry_congr hf h.placed hs, h.entries, hM] at hk
        exact absurd hk (by simp)
    | none =>
      simp only [mapCall, hM]
      rw [← get_put_eq h.entries]
      by_cases hs : f.Same key k
      · rw [if_pos hs, if_pos ⟨hs, by rw [← hashEntry_congr hf h.placed hs, h.entries, hM]⟩]
      · rw [if_neg hs, if_neg fun hk => hs hk.1]

theorem Refines.overwrite (h : Refines hf m M) {key : K} {data : D}
    (hends : InsertEnds f m key data) :
    ∃ m', hashCall f m (.overwrite key data) = .ok ((mapCall M (.overwrite key data)).1, m') ∧
      Refines hf m' (mapCall M (.overwrite key data)).2 := by
  cases hp : m.pos f key with
  | some i =>
    refine ⟨m.setChain (f.bucket key m.tableSz)
      ((m.chain (f.bucket key m.tableSz)).set i ⟨key, data⟩), ?_, ?_⟩
    · rw [hashCall, hashOverwrite, hp]
      rfl
    · refine ⟨h.placed.setNode hf hp data, ?_, fun k => ?_⟩
      · intro ha
        have hstored := (perm_nodes_setNode m (pos_lt hp) ⟨key, data⟩).length_eq
        have hunlink := stored_unlink (pos_lt hp)
        rw [List.length_cons] at hstored
        show m.nEntries = UInt64.ofNat (stored _)
        rw [stored, hstored, ← stored, hunlink, h.counted ha]
      · exact (hashEntry_setNode hf h.placed hp data k).trans (get_put_eq h.entries _ _ k)
  | none =>
    have hM : M.get key = none :=
      (h.entries key).symm.trans (hashEntry_eq_none_iff_pos.mpr hp)
    obtain ⟨m', hm', hR⟩ := h.insertNew hM hends
    refine ⟨m', ?_, hR⟩
    rw [hashCall, hashOverwrite, hp]
    simp only [hm']
    rfl

theorem Refines.remove (h : Refines hf m M) (key : K) :
    ∃ m', hashCall f m (.remove key) = .ok ((mapCall M (.remove key)).1, m') ∧
      Refines hf m' (mapCall M (.remove key)).2 := by
  obtain ⟨hsome, hplaced, hentries⟩ := hashRemove_entries hf h.placed key
  refine ⟨(hashRemove f m key).2, ?_, hplaced, counted_hashRemove h.counted key,
    fun k => (hentries k).trans (get_erase_eq h.entries key k)⟩
  rw [hashCall, mapCall, hsome, hashLookup_eq_map, h.entries, Option.isSome_map]

theorem Refines.resize (h : Refines hf m M) {newSz : ℕ} (nonzero : newSz ≠ 0)
    (hends : newSz ≠ m.tableSz → m.tableSz < unsignedRange) :
    ∃ m', hashCall f m (.resize newSz nonzero) =
        .ok ((mapCall M (.resize newSz nonzero)).1, m') ∧
      Refines hf m' (mapCall M (.resize newSz nonzero)).2 := by
  by_cases hne : newSz = m.tableSz
  · refine ⟨m, ?_, h⟩
    rw [hashCall, hashResize, if_pos hne]
    rfl
  · have hpos := Nat.pos_of_ne_zero nonzero
    refine ⟨relinkAll f m newSz, ?_, h.placed.relinkAll hf hpos,
      fun _ => (sane_relinkAll f m hpos).entries, fun k => ?_⟩
    · rw [hashCall, hashResize_of_counted h.counted hpos hne (hends hne)]
      rfl
    · rw [hashEntry_relinkAll hf h.placed hpos]
      exact h.entries k

/-- **A hash table simulates a finite map**, and stops exactly at the calls whose loops do
not end. -/
theorem hashCall_simulates (f : HashEnv K) (hf : f.Compatible) :
    Simulates (hashCall (D := D) f) mapCall (Refines hf) (CallEnds f) where
  answered {m M c} hR hG := by
    cases c with
    | insert key data => exact hR.insert hG
    | overwrite key data => exact hR.overwrite hG
    | remove key => exact hR.remove key
    | resize newSz nonzero => exact hR.resize nonzero hG
    | lookup key => exact ⟨m, by rw [hashCall, mapCall, hashLookup_eq_map, hR.entries], hR⟩
    | getkeyptr key => exact ⟨m, by rw [hashCall, mapCall, hashGetkeyptr_eq_map, hR.entries], hR⟩
  stopped {m M c} _ hG := by
    refine ⟨.endlessLoop, ?_⟩
    cases c with
    | insert key data => rw [hashCall, hashInsert_stops hG]; rfl
    | overwrite key data => rw [hashCall, hashOverwrite_stops hG]; rfl
    | resize newSz nonzero =>
      simp only [CallEnds, Classical.not_imp, Nat.not_lt] at hG
      rw [hashCall, hashResize_of_huge hG.1 hG.2]
      rfl
    | remove key => exact absurd trivial hG
    | lookup key => exact absurd trivial hG
    | getkeyptr key => exact absurd trivial hG

/-! ## Copies -/

/-- The copy of a node. -/
def HashNode.dup (dupData : D → D) (n : HashNode K D) : HashNode K D := ⟨n.key, dupData n.data⟩

theorem hashCopy_eq_run {m : HashMap K D} (h : m.tableSz < unsignedRange) (dupData : D → D) :
    hashCopy f m dupData =
      Runs.run (dupNodeInto f dupData) (HashMap.fresh m.tableSz) m.nodes := by
  have htake : (m.nodes.takeWhile fun _ => !false) = m.nodes :=
    List.takeWhile_eq_self_iff.mpr (by simp)
  rw [hashCopy, hashDup, if_neg (by simpa using h), htake]
  rfl

/-- **Filling a copy**: if the nodes still to be copied are of different classes, and none
of a class that the copy has, each of them is inserted as a new node. -/
theorem run_dupNodeInto {dupData : D → D} {ns : List (HashNode K D)} {ret : HashMap K D}
    (hret : ret.WellPlaced f) (hcount : ret.Counted f)
    (hdistinct : ns.Pairwise fun n n' => ¬ f.Same n.key n'.key)
    (hnew : ∀ n ∈ ns, ∀ n' ∈ ret.nodes, ¬ f.Same n.key n'.key)
    (hends : Runs.EachStep (dupNodeInto f dupData)
      (fun ret n => InsertEnds f ret n.key (dupData n.data)) ret ns) (hf : f.Compatible) :
    ∃ m', Runs.run (dupNodeInto f dupData) ret ns = .ok m' ∧ m'.WellPlaced f ∧
      m'.Counted f ∧ m'.nodes.Perm (ns.map (HashNode.dup dupData) ++ ret.nodes) := by
  induction ns generalizing ret with
  | nil => exact ⟨ret, rfl, hret, hcount, List.Perm.refl _⟩
  | cons n ns ih =>
    have hentry : hashEntry f ret n.key = none :=
      (hashEntry_eq_none_iff hf hret).mpr (hnew n (List.mem_cons_self ..))
    obtain ⟨ret', hins, hcount', hperm⟩ := hashInternalInsertNew_of_ends _ hret.size_pos hcount
      (hends.1 (hashEntry_eq_none_iff_pos.mp hentry))
    have hstep : dupNodeInto f dupData ret n = .ok ret' := by
      rw [dupNodeInto, hashInsert, hashLookup_eq_map, hentry]
      simp only [Option.map_none, hins]
      rfl
    obtain ⟨hhead, htail⟩ := List.pairwise_cons.mp hdistinct
    have hnew' : ∀ n' ∈ ns, ∀ n'' ∈ ret'.nodes, ¬ f.Same n'.key n''.key := by
      intro n' hn' n'' hn'' hs
      rcases List.mem_cons.mp (hperm.mem_iff.mp hn'') with rfl | hold
      · exact hhead n' hn' (hf.equiv.symm hs)
      · exact hnew n' (List.mem_cons_of_mem _ hn') n'' hold hs
    obtain ⟨m', hrun, hplaced, hcount'', hperm'⟩ :=
      ih (hashEntry_insertNew hf hret hentry hins).1 hcount' htail hnew' (hends.2 ret' hstep)
    refine ⟨m', by rw [Runs.run_cons_ok hstep, hrun], hplaced, hcount'', ?_⟩
    exact (hperm'.trans (hperm.append_left _)).trans List.perm_middle

/-- **`hash_dup` makes a copy**: the same keys, and the image of each datum. -/
theorem hashCopy_simulates (f : HashEnv K) (hf : f.Compatible) :
    CopySimulates (hashCopy (D := D) f) mapCopy (Refines hf) (CopyEnds f) where
  copied {m M dupData} hR hG := by
    obtain ⟨m', hrun, hplaced, hcount, hperm⟩ := run_dupNodeInto
      (wellPlaced_fresh f hR.placed.size_pos) (fun _ => (sane_fresh _).entries)
      (hR.placed.distinct_nodes hf) (by simp) hG.2 hf
    refine ⟨m', ?_, hplaced, hcount, fun k => ?_⟩
    · rw [hashCopy_eq_run hG.1, hrun]
    · rw [nodes_fresh, List.append_nil] at hperm
      rw [mapCopy, ClassMap.get_map, ← hR.entries]
      refine Option.ext fun e => ?_
      rw [hashEntry_eq_some_iff hf hplaced, Option.map_eq_some_iff]
      simp only [hperm.mem_iff, List.mem_map, hashEntry_eq_some_iff hf hR.placed]
      constructor
      · rintro ⟨_, ⟨n, hn, rfl⟩, hs, rfl⟩
        exact ⟨_, ⟨n, hn, hs, rfl⟩, rfl⟩
      · rintro ⟨_, ⟨n, hn, hs, rfl⟩, rfl⟩
        exact ⟨_, ⟨n, hn, rfl⟩, hs, rfl⟩
  stopped {m M dupData} hR hG := by
    by_cases hsz : m.tableSz < unsignedRange
    · rw [hashCopy_eq_run hsz]
      refine Runs.exists_error_of_not_eachStep ?_ fun h => hG ⟨hsz, h⟩
      exact fun ret n h => ⟨.endlessLoop, by rw [dupNodeInto, hashInsert_stops h]; rfl⟩
    · exact ⟨.endlessLoop, by rw [hashCopy, hashDup, if_pos (by simpa using hsz)]⟩

end Refinement

/-- **The hash table refines a finite map.**  Take any hash function and comparison such
that comparing is an equivalence and keys that compare equal hash equally, any initial
size, and any calls to the map and to the copies made of it.  The answers are those of
finite maps exactly when no call relinks or copies a table of `2 ^ 32` or more
buckets. -/
theorem hash_refines_iff (f : HashEnv K) (hf : f.Compatible) (sz : ℕ)
    (calls : List (FleetCall (HashCall K D) (D → D))) :
    answers (fleetCall (hashCall f) (hashCopy f)) [hashInit sz] calls =
        .ok (specAnswers (fleetSpec (mapCall (r := hf.classes)) mapCopy) [ClassMap.empty] calls) ↔
      Runs.EachStep (advance (fleetCall (hashCall f) (hashCopy f)))
        (fleetGuard (CallEnds f) (CopyEnds f)) [hashInit sz] calls :=
  ((hashCall_simulates f hf).fleet (hashCopy_simulates f hf)).answers_eq_iff
    (List.Forall₂.cons (refines_hashInit f hf sz) List.Forall₂.nil) calls

theorem compatible_oneBucketEnv : oneBucketEnv.Compatible where
  equiv := ⟨fun a => sub_self a,
    fun {a b} h => show b - a = 0 by have h' : a - b = 0 := h; omega,
    fun {a b c} h₁ h₂ => show a - c = 0 by
      have h₁' : a - b = 0 := h₁
      have h₂' : b - c = 0 := h₂
      omega⟩
  hash_eq _ _ _ := rfl

/-- Two keys in one bucket, a copy, and the head of the original removed: the copy keeps
both, with the image of each datum. -/
theorem hash_refines_map_copied :
    answers (fleetCall (hashCall oneBucketEnv) (hashCopy oneBucketEnv)) [hashInit 1]
        [.on 0 (.insert 1 10), .on 0 (.insert 2 20), .on 0 (.insert 1 11), .copy 0 (· + 1),
          .on 0 (.remove 1), .on 0 (.lookup 1), .on 1 (.lookup 1), .on 1 (.getkeyptr 2)] =
      .ok (specAnswers (fleetSpec (mapCall (r := compatible_oneBucketEnv.classes)) mapCopy)
        [(ClassMap.empty : ClassMap _ (ℤ × ℕ))]
        [.on 0 (.insert 1 10), .on 0 (.insert 2 20), .on 0 (.insert 1 11), .copy 0 (· + 1),
          .on 0 (.remove 1), .on 0 (.lookup 1), .on 1 (.lookup 1), .on 1 (.getkeyptr 2)]) :=
  (hash_refines_iff oneBucketEnv compatible_oneBucketEnv 1 _).mpr (by decide +kernel)

/-- A map created with `2 ^ 32` buckets and resized to one never answers again. -/
theorem hash_not_refines_map_huge :
    answers (fleetCall (hashCall oneBucketEnv) (hashCopy oneBucketEnv)) [hashInit (2 ^ 32)]
        [.on 0 (.resize 1 (by decide)), .on 0 (.lookup 1)] ≠
      .ok (specAnswers (fleetSpec (mapCall (r := compatible_oneBucketEnv.classes)) mapCopy)
        [(ClassMap.empty : ClassMap _ (ℤ × ℕ))]
        [.on 0 (.resize 1 (by decide)), .on 0 (.lookup 1)]) := by
  have hsz : (hashInit (2 ^ 32) : HashMap ℤ ℕ).tableSz = unsignedRange := by
    rw [hashInit, tableSz_fresh]
    rfl
  have hcall : hashCall oneBucketEnv (hashInit (2 ^ 32) : HashMap ℤ ℕ)
      (.resize 1 (by decide)) = .error .endlessLoop := by
    have hne : 1 ≠ (hashInit (2 ^ 32) : HashMap ℤ ℕ).tableSz := by rw [hsz]; decide
    rw [hashCall, hashResize_of_huge hne hsz.ge]
    rfl
  have hfleet : fleetCall (hashCall oneBucketEnv) (hashCopy oneBucketEnv)
      [(hashInit (2 ^ 32) : HashMap ℤ ℕ)] (.on 0 (.resize 1 (by decide))) =
        .error .endlessLoop := by
    simp only [fleetCall, List.getElem?_cons_zero, hcall]
    rfl
  rw [answers, hfleet]
  simp

end NetCosm
