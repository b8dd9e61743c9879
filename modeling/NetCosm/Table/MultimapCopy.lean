import NetCosm.Table.MultimapStore

/-!
# What `multimap_copy` copies

`dup_node` walks the list of a node and allocates a copy of every cell; but the pointers it
writes, the list of the new node and the next pointers of the copies, it sets to the
cells it visits and not to the copies it makes of them.  So the new node points to the old
list, and the cells that were allocated belong to nobody.

This file says what follows.  The copy has the same lookups, numbers and size as the
original, since it has the same lists.  An operation on one of the two maps leaves the
other as it was exactly when it frees no cell of these lists (`Spares`): insertions
do no harm, and neither do deletions of pairs inserted since.  And the two maps can both be
freed only if there was nothing to copy, since the second `multimap_free` finds the lists
gone.

`Held f S σ m` is the invariant of a map that shares the cells `S` with another: besides
being laid out in the store, every list of it goes on in `S` once it has entered `S`.
That is why a deletion that frees no cell of `S` writes to none either.
-/

namespace NetCosm

universe u v

variable {K : Type u} {V : Type v}

/-! ## Steps -/

/-- `multimap_init`. -/
def storedInit (sz : ℕ) : StoredMap K := ⟨hashInit sz, 0, 1⟩

/-- The operations on a map in a store. -/
inductive StoredOp (K : Type u) (V : Type v) where
  | insert (key : K) (val : V)
  | delete (key : K) (val : V)
  | deleteAll (key : K)
  /-- `multimap_dup`, another reference to the same map. -/
  | dup
  | free

/-- One operation.  A map whose last reference has been freed cannot be used any more. -/
def storedStep (f : HashEnv K) (compareVal : V → V → ℤ)
    (s : Option (StoredMap K) × PairStore K V) (op : StoredOp K V) :
    Except Fault (Option (StoredMap K) × PairStore K V) :=
  match s.1 with
  | none => .error .useAfterFree
  | some m =>
      match op with
      | .insert key val => (storedInsert f m s.2 key val).map fun r => (some r.2.1, r.2.2)
      | .delete key val =>
          (storedDelete f compareVal m s.2 key val).map fun r => (some r.2.1, r.2.2)
      | .deleteAll key => (storedDeleteAll f m s.2 key).map fun r => (some r.2.1, r.2.2)
      | .dup => .ok (some (storedDup m), s.2)
      | .free => storedFree m s.2

/-- The pairs of a map, as its lists are read from the store. -/
def pairsOf (σ : PairStore K V) (m : StoredMap K) : List (ℕ × K × V) :=
  match iterateView σ m with
  | .ok r => r.flatMap Prod.fst
  | .error _ => []

/-- The addresses of the cells of a map. -/
def cellsOf (σ : PairStore K V) (m : StoredMap K) : List ℕ := (pairsOf σ m).map Prod.fst

/-- The operation frees none of the cells `S`. -/
def Spares (f : HashEnv K) (compareVal : V → V → ℤ) (S : List ℕ)
    (s : Option (StoredMap K) × PairStore K V) : StoredOp K V → Prop
  | .delete key val => ∀ m ∈ s.1, ∀ r, lookupView f s.2 m key = .ok r →
      ∀ x ∈ r.1, compareVal val x.2.2 = 0 → x.1 ∉ S
  | .deleteAll key => ∀ m ∈ s.1, ∀ r, lookupView f s.2 m key = .ok r → ∀ x ∈ r.1, x.1 ∉ S
  | .free => ∀ m ∈ s.1, m.refcount - 1 = 0 → ∀ a ∈ cellsOf s.2 m, a ∉ S
  | .insert _ _ | .dup => True

/-- Everything that can be read of the map reads the same in both stores, without meeting a
cell that has been freed. -/
def SameViews (f : HashEnv K) (σ σ' : PairStore K V) (m : StoredMap K) : Prop :=
  (∀ key, ∃ r, lookupView f σ m key = .ok r ∧ lookupView f σ' m key = .ok r) ∧
    ∃ r, iterateView σ m = .ok r ∧ iterateView σ' m = .ok r

/-- The two maps have the same lookups, numbers of pairs and size. -/
def SameContents (f : HashEnv K) (σ : PairStore K V) (m c : StoredMap K) : Prop :=
  (∀ key, ∃ r r', lookupView f σ m key = .ok r ∧ lookupView f σ c key = .ok r' ∧
      r'.1.map Prod.snd = r.1.map Prod.snd ∧ r'.2 = r.2) ∧
    c.totalPairs = m.totalPairs

/-- How often a map is given back until it goes; `refcount` is an `unsigned`, and `0` is what is left of
`2 ^ 32`. -/
def StoredMap.references (m : StoredMap K) : ℕ := (m.refcount - 1).toNat + 1

/-- Give back all references to `m`, and then all references to its copy `c`: it can be
done, and afterwards no cell of `m` is live, nor any allocated since `σ₀`. -/
def ReleasedOnce (f : HashEnv K) (compareVal : V → V → ℤ) (σ₀ σ₁ : PairStore K V)
    (m c : StoredMap K) : Prop :=
  ∃ σ₂ σ₃,
    Runs.run (storedStep f compareVal) (some m, σ₁) (List.replicate m.references .free) =
      .ok (none, σ₂) ∧
    Runs.run (storedStep f compareVal) (some c, σ₂) (List.replicate c.references .free) =
      .ok (none, σ₃) ∧
    ∀ a, a ∈ cellsOf σ₁ m ∨ σ₀.fresh ≤ a → σ₃.cell a = none

open Cells

/-! ## What holds of a map that shares cells -/

section Shared

variable {f : HashEnv K} {compareVal : V → V → ℤ} {S : List ℕ} {σ : PairStore K V}
  {m : Multimap K V}

/-- The map is laid out in the store, allocates where the store does, and shares at most
the cells `S`: a list that has entered `S` stays in it. -/
structure Held (f : HashEnv K) (S : List ℕ) (σ : PairStore K V) (m : Multimap K V) : Prop where
  regular : m.Regular f
  laidOut : m.LaidOut σ
  fresh : m.fresh = σ.fresh
  behind : ∀ n ∈ m.hashTab.nodes, n.pairs.Pairwise fun p p' => p.addr ∈ S → p'.addr ∈ S
  below : ∀ a ∈ S, a < σ.fresh

theorem pairsOf_stored (hm : m.Regular f) (hl : m.LaidOut σ) :
    pairsOf σ m.stored = m.pairs.map MultimapPair.item := by
  rw [pairsOf, iterateView_stored hm hl]
  dsimp only
  rw [List.flatMap_map, Multimap.pairs, HashMap.pairs, List.map_flatMap]

theorem cellsOf_stored (hm : m.Regular f) (hl : m.LaidOut σ) :
    cellsOf σ m.stored = m.pairs.map MultimapPair.addr := by
  rw [cellsOf, pairsOf_stored hm hl, map_fst_item]

/-- Adding references changes nothing else. -/
theorem Held.of_table {m' : Multimap K V} (h : Held f S σ m) (htab : m'.hashTab = m.hashTab)
    (hfresh : m'.fresh = m.fresh) : Held f S σ m' := by
  have hpairs : m'.pairs = m.pairs := by rw [Multimap.pairs, htab]; rfl
  refine ⟨⟨?_, ?_, ?_, ?_⟩, ?_, hfresh.trans h.fresh, ?_, h.below⟩
  · rw [htab]
    exact h.regular.placed
  · rw [htab]
    exact h.regular.same
  · rw [hpairs]
    exact h.regular.nodup
  · rw [hpairs, hfresh]
    exact h.regular.below
  · intro n hn
    exact h.laidOut n (htab ▸ hn)
  · intro n hn
    exact h.behind n (htab ▸ hn)

/-- The list under a key, once it has entered `S`, stays in it. -/
theorem Held.behind_lookup (h : Held f S σ m) (key : K) :
    (multimapLookup f m key).1.Pairwise fun p p' => p.addr ∈ S → p'.addr ∈ S := by
  rw [multimapLookup]
  cases hlook : hashLookup f m.hashTab key with
  | none => exact List.Pairwise.nil
  | some node =>
    obtain ⟨i, hp, rfl⟩ := hashLookup_eq_some hlook
    exact h.behind _ ((mem_nodes_iff_unlink hp).mpr (Or.inl rfl))

theorem Held.insert (hf : Equivalence f.Same) (h : Held f S σ m) {key : K} {val : V} {r : Bool}
    {m' : Multimap K V} (hins : multimapInsert f m key val = .ok (r, m')) :
    Held f S (σ.alloc (key, val) (m.listPtr f key)) m' := by
  obtain ⟨-, hlaid⟩ := storedInsert_refines key val h.fresh h.regular h.laidOut
  have h0 := h.regular.placed.size_pos
  have hnew : m.fresh ∉ S := fun hmem => by
    have := h.below _ hmem
    rw [h.fresh] at this
    exact Nat.lt_irrefl _ this
  refine ⟨regular_insert hf h.regular hins, hlaid r m' hins, ?_, fun n' hn' => ?_, ?_⟩
  · rw [(perm_pairs_insert h0 hins).2, h.fresh]
    rfl
  · rcases mem_nodes_insert h0 hins hn' with hold | rfl | ⟨n, hn, -, rfl⟩
    · exact h.behind n' hold
    · exact List.pairwise_singleton _ _
    · refine List.pairwise_cons.mpr ⟨fun p _ hmem => absurd hmem hnew, ?_⟩
      exact h.behind n (Buckets.mem_items_iff.mpr ⟨_, hn⟩)
  · intro a ha
    rw [fresh_alloc]
    exact Nat.lt_succ_of_lt (h.below a ha)

theorem Held.delete (h : Held f S σ m) {key : K} {val : V} {σ' : PairStore K V}
    (hlaid : (multimapDelete f compareVal m key val).2.LaidOut σ') (hfresh : σ'.fresh = σ.fresh) :
    Held f S σ' (multimapDelete f compareVal m key val).2 := by
  refine ⟨regular_delete h.regular compareVal key val, hlaid, ?_, fun n' hn' => ?_, ?_⟩
  · rw [(perm_pairs_delete f compareVal m key val).2, h.fresh, hfresh]
  · rcases mem_nodes_delete hn' with hold | ⟨n, hn, rfl⟩
    · exact h.behind n' hold
    · exact (h.behind n hn).sublist List.filter_sublist
  · rw [hfresh]
    exact h.below

theorem Held.deleteAll (h : Held f S σ m) {key : K} {σ' : PairStore K V}
    (hlaid : (multimapDeleteAll f m key).2.LaidOut σ') (hfresh : σ'.fresh = σ.fresh) :
    Held f S σ' (multimapDeleteAll f m key).2 := by
  refine ⟨regular_deleteAll h.regular key, hlaid, ?_, fun n' hn' => ?_, ?_⟩
  · rw [(perm_pairs_deleteAll f m key).2, h.fresh, hfresh]
  · exact h.behind n' (mem_nodes_deleteAll hn')
  · rw [hfresh]
    exact h.below

/-- **What `multimap_free` does** to a map in the store: it takes away a reference, or frees
every cell. -/
theorem storedFree_cases (hm : m.Regular f) (hl : m.LaidOut σ)
    {s' : Option (StoredMap K) × PairStore K V} (h : storedFree m.stored σ = .ok s') :
    (m.refcount - 1 ≠ 0 ∧ s' = (some { m with refcount := m.refcount - 1 }.stored, σ)) ∨
      (m.refcount - 1 = 0 ∧ s'.1 = none ∧
        ∀ a, s'.2.cell a =
          if a ∈ m.pairs.map MultimapPair.addr then none else σ.cell a) := by
  have href : m.stored.refcount = m.refcount := rfl
  rw [storedFree, href] at h
  by_cases hz : m.refcount - 1 = 0
  · rw [if_pos hz] at h
    split at h
    · exact absurd h (by simp)
    · have hnodes : hashFree m.stored.hashTab =
          m.hashTab.nodes.map (HashNode.mapData MultimapNode.stored) := nodes_mapData ..
      obtain ⟨σ', hrun, -, hcell⟩ := freeNodes_stored hl hm.nodup
      rw [hnodes, hrun] at h
      obtain rfl := Except.ok.inj h
      exact Or.inr ⟨hz, rfl, hcell⟩
  · rw [if_neg hz] at h
    exact Or.inl ⟨hz, (Except.ok.inj h).symm⟩

/-- **One step of a map that shares cells**: it stays such a map, or it is gone. -/
theorem storedStep_held (hf : Equivalence f.Same) (h : Held f S σ m) {op : StoredOp K V}
    {s' : Option (StoredMap K) × PairStore K V}
    (hstep : storedStep f compareVal (some m.stored, σ) op = .ok s') :
    (∃ m', s'.1 = some m'.stored ∧ Held f S s'.2 m') ∨ s'.1 = none := by
  cases op with
  | insert key val =>
    obtain ⟨hins, -⟩ := storedInsert_refines key val h.fresh h.regular h.laidOut
    obtain ⟨r, hr, rfl⟩ := map_eq_ok hstep
    obtain ⟨⟨b, m'⟩, hm', rfl⟩ := map_eq_ok (hins.symm.trans hr)
    exact Or.inl ⟨m', rfl, h.insert hf hm'⟩
  | delete key val =>
    obtain ⟨σ', hdel, hlaid, hunlinked⟩ :=
      storedDelete_refines key val h.regular h.laidOut compareVal
    obtain ⟨r, hr, rfl⟩ := map_eq_ok hstep
    obtain rfl := Except.ok.inj (hdel.symm.trans hr)
    exact Or.inl ⟨_, rfl, h.delete hlaid hunlinked.fresh⟩
  | deleteAll key =>
    obtain ⟨σ', hdel, hlaid, hfresh, -⟩ :=
      storedDeleteAll_refines key h.regular h.laidOut
    obtain ⟨r, hr, rfl⟩ := map_eq_ok hstep
    obtain rfl := Except.ok.inj (hdel.symm.trans hr)
    exact Or.inl ⟨_, rfl, h.deleteAll hlaid hfresh⟩
  | dup =>
    obtain rfl := Except.ok.inj hstep
    exact Or.inl ⟨{ m with refcount := m.refcount + 1 }, rfl, h.of_table rfl rfl⟩
  | free =>
    rcases storedFree_cases h.regular h.laidOut hstep with ⟨-, rfl⟩ | ⟨-, hnone, -⟩
    · exact Or.inl ⟨_, rfl, h.of_table rfl rfl⟩
    · exact Or.inr hnone

/-- **A step that spares the shared cells** does not touch them. -/
theorem storedStep_spares (h : Held f S σ m) {op : StoredOp K V}
    (hop : Spares f compareVal S (some m.stored, σ) op)
    {s' : Option (StoredMap K) × PairStore K V}
    (hstep : storedStep f compareVal (some m.stored, σ) op = .ok s') :
    ∀ a ∈ S, s'.2.cell a = σ.cell a := by
  cases op with
  | insert key val =>
    obtain ⟨hins, -⟩ := storedInsert_refines key val h.fresh h.regular h.laidOut
    obtain ⟨r, hr, rfl⟩ := map_eq_ok hstep
    obtain ⟨⟨b, m'⟩, hm', rfl⟩ := map_eq_ok (hins.symm.trans hr)
    exact fun a ha => cell_alloc_of_lt (h.below a ha)
  | delete key val =>
    obtain ⟨σ', hdel, -, hunlinked⟩ :=
      storedDelete_refines key val h.regular h.laidOut compareVal
    obtain ⟨r, hr, rfl⟩ := map_eq_ok hstep
    obtain rfl := Except.ok.inj (hdel.symm.trans hr)
    refine hunlinked.spared {a | a ∈ S} ?_ fun x hx hq => ?_
    · exact List.pairwise_map.mpr (h.behind_lookup key)
    · exact hop _ rfl _ (lookupView_stored h.regular h.laidOut key) x hx (by simpa using hq)
  | deleteAll key =>
    obtain ⟨σ', hdel, -, -, hcell⟩ :=
      storedDeleteAll_refines key h.regular h.laidOut
    obtain ⟨r, hr, rfl⟩ := map_eq_ok hstep
    obtain rfl := Except.ok.inj (hdel.symm.trans hr)
    intro a ha
    show σ'.cell a = σ.cell a
    rw [hcell, if_neg]
    intro hmem
    obtain ⟨p, hp, rfl⟩ := List.mem_map.mp hmem
    exact hop _ rfl _ (lookupView_stored h.regular h.laidOut key) p.item
      (List.mem_map_of_mem hp) ha
  | dup =>
    obtain rfl := Except.ok.inj hstep
    exact fun _ _ => rfl
  | free =>
    rcases storedFree_cases h.regular h.laidOut hstep with ⟨-, rfl⟩ | ⟨hz, -, hcell⟩
    · exact fun _ _ => rfl
    · intro a ha
      rw [hcell, if_neg]
      intro hmem
      refine hop _ rfl hz a ?_ ha
      rwa [cellsOf_stored h.regular h.laidOut]

/-- **A step that does not spare the shared cells** frees one. -/
theorem storedStep_frees (h : Held f S σ m) {op : StoredOp K V}
    (hop : ¬ Spares f compareVal S (some m.stored, σ) op)
    {s' : Option (StoredMap K) × PairStore K V}
    (hstep : storedStep f compareVal (some m.stored, σ) op = .ok s') :
    ∃ a ∈ S, s'.2.cell a = none := by
  cases op with
  | insert key val => exact absurd trivial hop
  | dup => exact absurd trivial hop
  | delete key val =>
    obtain ⟨σ', hdel, -, hunlinked⟩ :=
      storedDelete_refines key val h.regular h.laidOut compareVal
    obtain ⟨r, hr, rfl⟩ := map_eq_ok hstep
    obtain rfl := Except.ok.inj (hdel.symm.trans hr)
    simp only [Spares, Option.mem_def, not_forall, not_not] at hop
    obtain ⟨_, hm, r, hr, x, hx, hq, hS⟩ := hop
    obtain rfl := Option.some.inj hm
    obtain rfl := Except.ok.inj ((lookupView_stored h.regular h.laidOut key).symm.trans hr)
    exact ⟨x.1, hS, hunlinked.freed x hx (by simpa using hq)⟩
  | deleteAll key =>
    obtain ⟨σ', hdel, -, -, hcell⟩ :=
      storedDeleteAll_refines key h.regular h.laidOut
    obtain ⟨r, hr, rfl⟩ := map_eq_ok hstep
    obtain rfl := Except.ok.inj (hdel.symm.trans hr)
    simp only [Spares, Option.mem_def, not_forall, not_not] at hop
    obtain ⟨_, hm, r, hr, x, hx, hS⟩ := hop
    obtain rfl := Option.some.inj hm
    obtain rfl := Except.ok.inj ((lookupView_stored h.regular h.laidOut key).symm.trans hr)
    refine ⟨x.1, hS, (hcell x.1).trans (if_pos ?_)⟩
    obtain ⟨p, hp, rfl⟩ := List.mem_map.mp hx
    exact List.mem_map_of_mem hp
  | free =>
    simp only [Spares, Option.mem_def, not_forall, not_not] at hop
    obtain ⟨_, hm, hz, a, ha, hS⟩ := hop
    obtain rfl := Option.some.inj hm
    rw [cellsOf_stored h.regular h.laidOut] at ha
    rcases storedFree_cases h.regular h.laidOut hstep with ⟨hz', -⟩ | ⟨-, -, hcell⟩
    · exact absurd hz hz'
    · exact ⟨a, hS, (hcell a).trans (if_pos ha)⟩

end Shared

/-! ## Independence of two maps with the same cells -/

section Independence

variable {f : HashEnv K} {compareVal : V → V → ℤ} {σ σ' : PairStore K V} {m c : Multimap K V}

/-- As long as its cells do not change, a map reads the same. -/
theorem sameViews_of_cells (hm : m.Regular f) (hl : m.LaidOut σ)
    (h : ∀ a ∈ cellsOf σ m.stored, σ'.cell a = σ.cell a) : SameViews f σ σ' m.stored := by
  rw [cellsOf_stored hm hl] at h
  have hl' : m.LaidOut σ' := hl.congr fun p hp => h p.addr (List.mem_map_of_mem hp)
  exact ⟨fun key => ⟨_, lookupView_stored hm hl key, lookupView_stored hm hl' key⟩,
    _, iterateView_stored hm hl, iterateView_stored hm hl'⟩

/-- When one of its cells is gone, a map does not read the same. -/
theorem not_sameViews_of_dead (hm : m.Regular f) (hl : m.LaidOut σ) {a : ℕ}
    (ha : a ∈ cellsOf σ m.stored) (hdead : σ'.cell a = none) : ¬ SameViews f σ σ' m.stored := by
  rintro ⟨-, r, hr, hr'⟩
  obtain rfl := Except.ok.inj ((iterateView_stored hm hl).symm.trans hr)
  rw [cellsOf_stored hm hl] at ha
  obtain ⟨p, hp, rfl⟩ := List.mem_map.mp ha
  obtain ⟨n, hn, hpn⟩ := mem_pairs_iff.mp hp
  -- the walk that returned the list with the cell in it
  obtain ⟨n', -, hread⟩ := exists_of_mapM_eq_ok hr' (List.mem_map_of_mem hn)
  obtain ⟨l, hl', heq⟩ := map_eq_ok hread
  obtain rfl := (Prod.mk.inj heq).1
  exact live_of_readList hl' (List.mem_map_of_mem hpn) hdead

/-- Two maps over the same cells: a run of one of them leaves the other as it was exactly
when it frees none of these cells. -/
theorem sameViews_iff (hf : Equivalence f.Same) (compareVal : V → V → ℤ) {S : List ℕ}
    (hm : Held f S σ m) (hc : c.Regular f) (hlc : c.LaidOut σ)
    (hS : ∀ a, a ∈ cellsOf σ c.stored ↔ a ∈ S) (ops : List (StoredOp K V)) :
    Runs.Always (storedStep f compareVal) (fun s => SameViews f σ s.2 c.stored)
        (some m.stored, σ) ops ↔
      Runs.EachDone (storedStep f compareVal) (Spares f compareVal S)
        (some m.stored, σ) ops := by
  refine Runs.always_iff_eachDone
    (I := fun s => (∀ a ∈ S, s.2.cell a = σ.cell a) ∧
      ((∃ m', s.1 = some m'.stored ∧ Held f S s.2 m') ∨ s.1 = none)) ?_ ?_ ?_ ?_
  · exact fun s hs => sameViews_of_cells hc hlc fun a ha => hs.1 a ((hS a).mp ha)
  · rintro ⟨sm, σ₁⟩ op s' ⟨hcells, ⟨m', rfl, hheld⟩ | rfl⟩ hop hstep
    · refine ⟨fun a ha => ?_, storedStep_held hf hheld hstep⟩
      rw [storedStep_spares hheld hop hstep a ha, hcells a ha]
    · exact absurd hstep (by simp [storedStep])
  · rintro ⟨sm, σ₁⟩ op s' ⟨-, ⟨m', rfl, hheld⟩ | rfl⟩ hop hstep
    · obtain ⟨a, ha, hdead⟩ := storedStep_frees hheld hop hstep
      exact not_sameViews_of_dead hc hlc ((hS a).mpr ha) hdead
    · exact absurd hstep (by simp [storedStep])
  · exact ⟨fun _ _ => rfl, Or.inl ⟨m, rfl, hm⟩⟩

end Independence

/-! ## The copy -/

section Copy

variable {f : HashEnv K} {σ : PairStore K V}

/-- The rounds that are left of the loop of `dup_node`.  No cell below `N` is written, and
the list of the new node is the one visited. -/
theorem dupLoop_of_seg {σ : PairStore K V} (list last : Option ℕ) {iter : Option ℕ}
    {l : List (ℕ × K × V)} {n N : ℕ}
    (hseg : Seg σ iter l none) (hl : ∀ x ∈ l, x.1 < N) (hN : N ≤ σ.fresh) (hn : l.length ≤ n)
    (hlast : ∀ b ∈ last, N ≤ b) (hlist : last = none → list = iter) :
    ∃ σ', dupLoop n σ list last iter = .ok (σ', list) ∧ (∀ a < N, σ'.cell a = σ.cell a) ∧
      σ.fresh ≤ σ'.fresh ∧ (l = [] → σ' = σ) := by
  induction l generalizing iter list last n σ with
  | nil =>
    obtain rfl : iter = none := hseg
    exact ⟨σ, by cases n <;> rfl, fun _ _ => rfl, Nat.le_refl _, fun _ => rfl⟩
  | cons x l ih =>
    obtain ⟨rfl, next, hcell, hrest⟩ := hseg
    cases n with
    | zero => exact absurd hn (by simp)
    | succ n =>
      have hn' : l.length ≤ n := by simpa using hn
      have hl' : ∀ y ∈ l, y.1 < N := fun y hy => hl y (List.mem_cons_of_mem x hy)
      have halloc : ∀ a < N, (σ.alloc x.2 next).cell a = σ.cell a := fun a ha =>
        cell_alloc_of_lt (Nat.lt_of_lt_of_le ha hN)
      have hN' : N ≤ σ.fresh + 1 := Nat.le_succ_of_le hN
      have hlast' : ∀ b ∈ some σ.fresh, N ≤ b := fun b hb => Option.some.inj hb ▸ hN
      cases last with
      | none =>
        obtain ⟨σ', hrun, hcells, hfresh, -⟩ := ih (some x.1) (some σ.fresh)
          (hrest.congr fun y hy => halloc y.1 (hl' y hy)) hl' hN' hn' hlast' (by simp)
        refine ⟨σ', ?_, fun a ha => (hcells a ha).trans (halloc a ha), ?_, by simp⟩
        · rw [dupLoop, hcell, hlist rfl]
          exact hrun
        · exact Nat.le_of_succ_le hfresh
      | some b =>
        have hb : N ≤ b := hlast b rfl
        have hlink : ∀ a < N, ((σ.alloc x.2 next).link b (some x.1)).cell a = σ.cell a :=
          fun a ha => (cell_link_ne (by omega) _).trans (halloc a ha)
        obtain ⟨σ', hrun, hcells, hfresh, -⟩ := ih list (some σ.fresh)
          (hrest.congr fun y hy => hlink y.1 (hl' y hy)) hl' hN' hn' hlast' (by simp)
        refine ⟨σ', ?_, fun a ha => (hcells a ha).trans (hlink a ha), ?_, by simp⟩
        · rw [dupLoop, hcell]
          exact hrun
        · exact Nat.le_of_succ_le hfresh

/-- **`dup_node` returns the node it is given**, with the same list. -/
theorem dupNode_stored {node : MultimapNode K V} {N : ℕ}
    (hseg : Seg σ node.stored.list (node.list.map MultimapPair.item) none)
    (hnodup : (node.list.map MultimapPair.addr).Nodup)
    (hl : ∀ p ∈ node.list, p.addr < N) (hN : N ≤ σ.fresh) :
    ∃ σ', dupNode σ node.stored = .ok (σ', node.stored) ∧
      (∀ a < N, σ'.cell a = σ.cell a) ∧ σ.fresh ≤ σ'.fresh ∧ (node.list = [] → σ' = σ) := by
  have hlen := hseg.length_le_fresh (by rwa [map_fst_item])
  obtain ⟨σ', hrun, hcells, hfresh, hnil⟩ := dupLoop_of_seg node.stored.list none
    hseg (fun x hx => by
      obtain ⟨p, hp, rfl⟩ := List.mem_map.mp hx
      exact hl p hp) hN hlen (by simp) (fun _ => rfl)
  refine ⟨σ', ?_, hcells, hfresh, fun h => hnil (by rw [h]; rfl)⟩
  rw [dupNode, hrun]
  rfl

/-- **Filling the copy**: in the table, `multimap_copy` does what `hash_dup` does when data
are copied as they are; in the store, it writes to no cell of a list. -/
theorem run_copyNodeInto {ns : List (HashNode K (MultimapNode K V))}
    {ret : HashMap K (MultimapNode K V)} {N : ℕ} {t : HashMap K StoredNode × PairStore K V}
    (hseg : ∀ n ∈ ns, Seg σ n.data.stored.list (n.pairs.map MultimapPair.item) none)
    (hnodup : ((ns.flatMap HashNode.pairs).map MultimapPair.addr).Nodup)
    (hl : ∀ n ∈ ns, ∀ p ∈ n.pairs, p.addr < N) (hN : N ≤ σ.fresh)
    (h : Runs.run (copyNodeInto f) (ret.mapData MultimapNode.stored, σ)
      (ns.map (HashNode.mapData MultimapNode.stored)) = .ok t) :
    ∃ ret', Runs.run (dupNodeInto f id) ret ns = .ok ret' ∧
      t.1 = ret'.mapData MultimapNode.stored ∧ (∀ a < N, t.2.cell a = σ.cell a) ∧
      σ.fresh ≤ t.2.fresh ∧ (ns.flatMap HashNode.pairs = [] → t.2 = σ) := by
  induction ns generalizing ret σ with
  | nil =>
    obtain rfl := Except.ok.inj h
    exact ⟨ret, rfl, rfl, fun _ _ => rfl, Nat.le_refl _, fun _ => rfl⟩
  | cons n ns ih =>
    rw [List.flatMap_cons, List.map_append, List.nodup_append] at hnodup
    obtain ⟨σ₁, hdup, hcells₁, hfresh₁, hnil₁⟩ := dupNode_stored (hseg n (List.mem_cons_self ..))
      hnodup.1 (hl n (List.mem_cons_self ..)) hN
    rw [List.map_cons] at h
    cases hstep : copyNodeInto f (ret.mapData MultimapNode.stored, σ)
        (n.mapData MultimapNode.stored) with
    | error e =>
      rw [Runs.run_cons_error hstep] at h
      exact absurd h (by simp)
    | ok s =>
      rw [Runs.run_cons_ok hstep] at h
      obtain ⟨r, hr, hins⟩ := bind_eq_ok hstep
      obtain rfl := Except.ok.inj (hdup.symm.trans hr)
      obtain ⟨u, hu, rfl⟩ := map_eq_ok hins
      have hmap : hashInsert f (ret.mapData MultimapNode.stored) n.key n.data.stored =
          (hashInsert f ret n.key n.data).map fun r =>
            (r.1.map MultimapNode.stored, r.2.mapData MultimapNode.stored) :=
        hashInsert_mapData ..
      obtain ⟨⟨d, ret₁⟩, hret₁, rfl⟩ := map_eq_ok (hmap.symm.trans hu)
      have hseg₁ : ∀ n' ∈ ns,
          Seg σ₁ n'.data.stored.list (n'.pairs.map MultimapPair.item) none := by
        intro n' hn'
        refine (hseg n' (List.mem_cons_of_mem n hn')).congr fun x hx => ?_
        obtain ⟨p, hp, rfl⟩ := List.mem_map.mp hx
        exact hcells₁ p.addr (hl n' (List.mem_cons_of_mem n hn') p hp)
      obtain ⟨ret', hrun, htab, hcells, hfresh, hnil⟩ := ih hseg₁ hnodup.2.1
        (fun n' hn' => hl n' (List.mem_cons_of_mem n hn')) (hN.trans hfresh₁) h
      refine ⟨ret', ?_, htab, fun a ha => (hcells a ha).trans (hcells₁ a ha),
        hfresh₁.trans hfresh, fun hempty => ?_⟩
      · have hstep' : dupNodeInto f id ret n = .ok ret₁ := by
          rw [dupNodeInto, id, hret₁]
          rfl
        rw [Runs.run_cons_ok hstep', hrun]
      · rw [List.flatMap_cons, List.append_eq_nil_iff] at hempty
        rw [hnil hempty.2, hnil₁ hempty.1]

/-- What `multimap_copy` returns, as a map with its lists: a map with the nodes of the
original, in a store that has all its cells. -/
structure CopyOf (f : HashEnv K) (σ σ₁ : PairStore K V) (m c : Multimap K V) : Prop where
  regular : c.Regular f
  laidOut : c.LaidOut σ₁
  fresh : c.fresh = σ₁.fresh
  refcount : c.refcount = 1
  total : c.totalPairs = m.totalPairs
  nodes : c.hashTab.nodes.Perm m.hashTab.nodes
  lookups : ∀ key, multimapLookup f c key = multimapLookup f m key
  cells : ∀ a < σ.fresh, σ₁.cell a = σ.cell a
  grown : σ.fresh ≤ σ₁.fresh
  nothing : m.pairs = [] → σ₁ = σ
  small : m.hashTab.tableSz < unsignedRange ∧ c.hashTab.tableSz < unsignedRange

/-- **What `multimap_copy` does.** -/
theorem storedCopy_ok (hf : f.Compatible) {m : Multimap K V} (hm : m.Regular f)
    (hl : m.LaidOut σ) (hfresh : m.fresh = σ.fresh) {r : StoredMap K × PairStore K V}
    (h : storedCopy f m.stored σ = .ok r) :
    ∃ c : Multimap K V, r.1 = c.stored ∧ CopyOf f σ r.2 m c := by
  have htab : m.stored.hashTab = m.hashTab.mapData MultimapNode.stored := rfl
  rw [storedCopy, htab, tableSz_mapData, nodes_mapData] at h
  split at h
  · exact absurd h (by simp)
  · rename_i hsz
    obtain ⟨t, hrun, h⟩ := bind_eq_ok h
    split at h
    · exact absurd h (by simp)
    · rename_i hsz'
      obtain rfl := Except.ok.inj h
      rw [← mapData_fresh MultimapNode.stored] at hrun
      obtain ⟨ret, hret, hmap, hcells, hgrown, hnothing⟩ := run_copyNodeInto hl hm.nodup
        (fun n hn p hp => hm.below p (mem_pairs_iff.mpr ⟨n, hn, hp⟩)) (hfresh ▸ Nat.le_refl _) hrun
      -- the table was filled, so no growth was in the way
      have hends : Runs.EachStep (dupNodeInto f id)
          (fun ret n => InsertEnds f ret n.key (id n.data)) (HashMap.fresh m.hashTab.tableSz)
          m.hashTab.nodes := by
        by_contra hnot
        obtain ⟨e, he⟩ := Runs.exists_error_of_not_eachStep
          (fun ret n h => ⟨.endlessLoop, by rw [dupNodeInto, hashInsert_stops h]; rfl⟩) hnot
        exact absurd (hret.symm.trans he) (by simp)
      obtain ⟨ret', hret', hplaced, -, hperm⟩ := run_dupNodeInto
        (wellPlaced_fresh f hm.placed.size_pos) (fun _ => (sane_fresh _).entries)
        (hm.placed.distinct_nodes hf) (by simp) hends hf
      obtain rfl := Except.ok.inj (hret.symm.trans hret')
      have hnodes : ret.nodes.Perm m.hashTab.nodes := by
        have hid : m.hashTab.nodes.map (HashNode.dup id) = m.hashTab.nodes := List.map_id _
        rwa [HashMap.nodes_fresh, List.append_nil, hid] at hperm
      have hpairs : (ret.nodes.flatMap HashNode.pairs).Perm m.pairs :=
        hnodes.flatMap_right HashNode.pairs
      have hentries : ∀ k, hashEntry f ret k = hashEntry f m.hashTab k :=
        hashEntry_of_nodes hf hm.placed hplaced fun n => hnodes.mem_iff
      rw [hfresh] at hcells
      refine ⟨⟨ret, m.totalPairs, 1, t.2.fresh⟩, ?_, ⟨hplaced, ?_, ?_, ?_⟩, ?_, rfl, rfl, rfl,
        hnodes, fun key => ?_, hcells, hgrown, hnothing, Nat.lt_of_not_le hsz, ?_⟩
      · rw [hmap]
        rfl
      · exact fun n hn => hm.same n (hnodes.mem_iff.mp hn)
      · exact ((hpairs.map MultimapPair.addr).nodup_iff).mpr hm.nodup
      · intro p hp
        have := hm.below p (hpairs.mem_iff.mp hp)
        rw [hfresh] at this
        exact Nat.lt_of_lt_of_le this hgrown
      · intro n hn
        have hn' := hnodes.mem_iff.mp hn
        refine (hl n hn').congr fun x hx => ?_
        obtain ⟨p, hp, rfl⟩ := List.mem_map.mp hx
        exact hcells p.addr (hfresh ▸ hm.below p (mem_pairs_iff.mpr ⟨n, hn', hp⟩))
      · rw [multimapLookup, multimapLookup, hashLookup_eq_map, hashLookup_eq_map, hentries]
      · rw [hmap, tableSz_mapData] at hsz'
        exact Nat.lt_of_not_le hsz'

/-- Both maps are over the cells the original had. -/
theorem CopyOf.held {σ₁ : PairStore K V} {m c : Multimap K V} (h : CopyOf f σ σ₁ m c)
    (hm : m.Regular f) (hl : m.LaidOut σ) (hfresh : m.fresh = σ.fresh) :
    Held f (cellsOf σ m.stored) σ₁ { m with fresh := σ₁.fresh } ∧
      Held f (cellsOf σ m.stored) σ₁ c := by
  have hcells : ∀ p ∈ m.pairs, σ₁.cell p.addr = σ.cell p.addr := fun p hp =>
    h.cells p.addr (hfresh ▸ hm.below p hp)
  have hbelow : ∀ a ∈ cellsOf σ m.stored, a < σ₁.fresh := by
    intro a ha
    rw [cellsOf_stored hm hl] at ha
    obtain ⟨p, hp, rfl⟩ := List.mem_map.mp ha
    exact Nat.lt_of_lt_of_le (hfresh ▸ hm.below p hp) h.grown
  have hall : ∀ n ∈ m.hashTab.nodes,
      n.pairs.Pairwise fun p p' => p.addr ∈ cellsOf σ m.stored → p'.addr ∈ cellsOf σ m.stored := by
    intro n hn
    refine List.pairwise_of_forall_mem_list fun p _ p' hp' _ => ?_
    rw [cellsOf_stored hm hl]
    exact List.mem_map_of_mem (mem_pairs_iff.mpr ⟨n, hn, hp'⟩)
  refine ⟨⟨⟨hm.placed, hm.same, hm.nodup, fun p hp => ?_⟩, hl.congr hcells, rfl, hall, hbelow⟩,
    ⟨h.regular, h.laidOut, h.fresh, fun n hn => ?_, hbelow⟩⟩
  · have := hm.below p hp
    rw [hfresh] at this
    exact Nat.lt_of_lt_of_le this h.grown
  · exact hall n (h.nodes.mem_iff.mp hn)

end Copy

/-! ## Giving both maps back -/

section Release

variable {f : HashEnv K} {compareVal : V → V → ℤ} {σ : PairStore K V} {m : Multimap K V}

/-- All references to a map are given back. -/
theorem run_free (hm : m.Regular f) (hl : m.LaidOut σ) (hsz : m.hashTab.tableSz < unsignedRange) {k : ℕ}
    (hk : (m.refcount - 1).toNat = k) :
    ∃ σ', Runs.run (storedStep f compareVal) (some m.stored, σ) (List.replicate (k + 1) .free) =
        .ok (none, σ') ∧
      ∀ a, σ'.cell a = if a ∈ m.pairs.map MultimapPair.addr then none else σ.cell a := by
  have hsz' : ¬ unsignedRange ≤ m.stored.hashTab.tableSz := by
    rw [show m.stored.hashTab = m.hashTab.mapData MultimapNode.stored from rfl, tableSz_mapData]
    exact Nat.not_le_of_lt hsz
  have href : m.stored.refcount = m.refcount := rfl
  rw [List.replicate_succ]
  induction k generalizing m with
  | zero =>
    have hlast : m.refcount - 1 = 0 := UInt32.toNat_inj.mp hk
    obtain ⟨σ', hrun, -, hcell⟩ := freeNodes_stored hl hm.nodup
    have hnodes : hashFree m.stored.hashTab =
        m.hashTab.nodes.map (HashNode.mapData MultimapNode.stored) := nodes_mapData ..
    refine ⟨σ', ?_, hcell⟩
    rw [Runs.run_cons_ok (show storedStep f compareVal (some m.stored, σ) .free =
      .ok (none, σ') from ?_)]
    · rfl
    · simp only [storedStep, storedFree, href, hlast, if_true, if_neg hsz', hnodes, hrun]
      rfl
  | succ k ih =>
    have hmore : m.refcount - 1 ≠ 0 := fun h => by
      rw [h] at hk
      exact absurd hk (by simp)
    have hstep : storedStep f compareVal (some m.stored, σ) .free =
        .ok (some { m with refcount := m.refcount - 1 }.stored, σ) := by
      simp only [storedStep, storedFree, href, if_neg hmore]
      rfl
    have hk' : (m.refcount - 1 - 1).toNat = k := by
      have hle : (1 : UInt32) ≤ m.refcount - 1 := by
        rw [UInt32.le_iff_toNat_le, hk]
        exact Nat.succ_pos k
      rw [UInt32.toNat_sub_of_le _ _ hle, hk]
      rfl
    rw [Runs.run_cons_ok hstep, List.replicate_succ]
    exact ih (m := { m with refcount := m.refcount - 1 }) ⟨hm.placed, hm.same, hm.nodup, hm.below⟩ hl
      hsz hk' hsz' rfl

variable (compareVal) in
/-- **Freeing all references** frees every cell of the map, once. -/
theorem run_free_references (hm : m.Regular f) (hl : m.LaidOut σ)
    (hsz : m.hashTab.tableSz < unsignedRange) :
    ∃ σ', Runs.run (storedStep f compareVal) (some m.stored, σ)
        (List.replicate m.stored.references .free) = .ok (none, σ') ∧
      ∀ a, σ'.cell a = if a ∈ m.pairs.map MultimapPair.addr then none else σ.cell a :=
  run_free hm hl hsz rfl

/-- Nodes cannot be freed when the cells of their lists are gone. -/
theorem freeNodes_dead {ns : List (HashNode K (MultimapNode K V))}
    (hdead : ∀ p ∈ ns.flatMap HashNode.pairs, σ.cell p.addr = none)
    (hne : ns.flatMap HashNode.pairs ≠ []) (σ' : PairStore K V) :
    (ns.map (HashNode.mapData MultimapNode.stored)).foldlM (fun σ n => freeNode σ n.data) σ ≠
      .ok σ' := by
  induction ns with
  | nil => exact absurd rfl hne
  | cons n ns ih =>
    rw [List.map_cons, List.foldlM_cons]
    rw [List.flatMap_cons] at hdead hne
    cases hlist : n.data.list with
    | nil =>
      have hempty : n.pairs = [] := hlist
      have hstep : freeNode σ (n.mapData MultimapNode.stored).data = .ok σ := by
        rw [HashNode.mapData, MultimapNode.stored, hlist, freeNode]
        cases σ.fresh <;> rfl
      rw [hempty, List.nil_append] at hdead hne
      rw [hstep]
      exact ih hdead hne
    | cons p l =>
      intro h
      obtain ⟨σ₁, hstep, -⟩ := bind_eq_ok h
      rw [HashNode.mapData, MultimapNode.stored, hlist, freeNode] at hstep
      refine freeList_of_dead (hdead p (List.mem_append_left _ ?_)) _ σ₁ hstep
      rw [HashNode.pairs, hlist]
      exact List.mem_cons_self ..

/-- **Both maps can be given back exactly when there was nothing to copy.** -/
theorem releasedOnce_iff {σ₁ : PairStore K V} {c : Multimap K V} (h : CopyOf f σ σ₁ m c)
    (hm : m.Regular f) (hl : m.LaidOut σ) (hfresh : m.fresh = σ.fresh) :
    ReleasedOnce f compareVal σ σ₁ m.stored c.stored ↔ m.pairs = [] := by
  have hl₁ : m.LaidOut σ₁ := hl.congr fun p hp => h.cells p.addr (hfresh ▸ hm.below p hp)
  obtain ⟨σ₂, hrun, hcell⟩ := run_free_references compareVal hm hl₁ h.small.1
  have hpairs : c.pairs.Perm m.pairs := h.nodes.flatMap_right HashNode.pairs
  have hcref : c.stored.refcount = 1 := h.refcount
  have hconce : c.stored.references = 1 := by rw [StoredMap.references, hcref]; rfl
  constructor
  · rintro ⟨σ₂', σ₃, hrun', hrun₃, -⟩
    obtain rfl := (Prod.mk.inj (Except.ok.inj (hrun.symm.trans hrun'))).2
    by_contra hne
    have hdead : ∀ p ∈ c.pairs, σ₂.cell p.addr = none := fun p hp => by
      rw [hcell, if_pos (List.mem_map_of_mem (hpairs.mem_iff.mp hp))]
    have hcne : c.pairs ≠ [] := fun hnil => hne ((hnil ▸ hpairs).nil_eq.symm)
    have hnodes : hashFree c.stored.hashTab =
        c.hashTab.nodes.map (HashNode.mapData MultimapNode.stored) := nodes_mapData ..
    have hsz : ¬ unsignedRange ≤ c.stored.hashTab.tableSz := by
      rw [show c.stored.hashTab = c.hashTab.mapData MultimapNode.stored from rfl, tableSz_mapData]
      exact Nat.not_le_of_lt h.small.2
    rw [hconce] at hrun₃
    cases hstep : storedStep f compareVal (some c.stored, σ₂) .free with
    | error e =>
      rw [List.replicate_one, Runs.run_cons_error hstep] at hrun₃
      exact absurd hrun₃ (by simp)
    | ok s =>
      simp only [storedStep, storedFree, hcref, UInt32.sub_self, if_true, if_neg hsz, hnodes] at hstep
      obtain ⟨σ₄, hfold, -⟩ := map_eq_ok hstep
      exact freeNodes_dead hdead hcne σ₄ hfold
  · intro hnil
    have hcnil : c.pairs = [] := by
      rw [hnil] at hpairs
      exact hpairs.eq_nil
    have hsame : ∀ a, σ₂.cell a = σ₁.cell a := fun a => by rw [hcell, hnil]; rfl
    obtain ⟨σ₃, hrun₃, hcell₃⟩ := run_free_references compareVal h.regular
      (h.laidOut.congr fun p _ => hsame p.addr) h.small.2
    refine ⟨σ₂, σ₃, hrun, hrun₃, fun a ha => ?_⟩
    rw [hcell₃, hcnil, hsame]
    rcases ha with ha | ha
    · have hm₁ : ({ m with fresh := σ₁.fresh } : Multimap K V).Regular f :=
        ⟨hm.placed, hm.same, hm.nodup, fun p hp => by
          have hmem : p ∈ m.pairs := hp
          rw [hnil] at hmem
          exact absurd hmem (by simp)⟩
      have hcells : cellsOf σ₁ m.stored = m.pairs.map MultimapPair.addr :=
        cellsOf_stored (m := { m with fresh := σ₁.fresh }) hm₁ hl₁
      rw [hcells, hnil] at ha
      exact absurd ha (by simp)
    · rw [h.nothing hnil]
      exact σ.bounded a ha

/-- A map built by operations is laid out in the store. -/
theorem held_of_run (hf : Equivalence f.Same) {sz : ℕ} {σ₀ : PairStore K V}
    {build : List (StoredOp K V)} {sm : StoredMap K}
    (h : Runs.run (storedStep f compareVal) (some (storedInit sz), σ₀) build = .ok (some sm, σ)) :
    ∃ m : Multimap K V, sm = m.stored ∧ Held f [] σ m := by
  have hinit : (storedInit sz : StoredMap K) =
      ({ multimapInit sz with fresh := σ₀.fresh } : Multimap K V).stored := by
    rw [Multimap.stored, multimapInit, hashInit, mapData_fresh, storedInit, hashInit]
  have hheld : Held f [] σ₀ ({ multimapInit sz with fresh := σ₀.fresh } : Multimap K V) := by
    have hreg := regular_init (V := V) f sz
    refine ⟨⟨hreg.placed, hreg.same, hreg.nodup, fun p hp => ?_⟩, ?_, rfl, ?_, by simp⟩
    · have hmem : p ∈ (multimapInit sz : Multimap K V).pairs := hp
      rw [Multimap.pairs_init] at hmem
      exact absurd hmem (by simp)
    · intro n hn
      exact absurd hn (by simp [multimapInit, hashInit])
    · intro n hn
      exact absurd hn (by simp [multimapInit, hashInit])
  have hinv := Runs.invariant_run
    (I := fun s : Option (StoredMap K) × PairStore K V =>
      (∃ m : Multimap K V, s.1 = some m.stored ∧ Held f [] s.2 m) ∨ s.1 = none) ?_
    (Or.inl ⟨_, by rw [hinit], hheld⟩) h
  · rcases hinv with ⟨m, hm, hheld⟩ | hnone
    · exact ⟨m, Option.some.inj hm, hheld⟩
    · exact absurd hnone (by simp)
  · rintro ⟨_, σ'⟩ op s' (⟨m, rfl, hm⟩ | rfl) hstep
    · exact storedStep_held hf hm hstep
    · exact absurd hstep (by simp [storedStep])

end Release

/-- **Copies of multimaps.**  Take any hash function and comparison such that comparing is an
equivalence and keys that compare equal hash equally, and any multimap built by operations
in any store, and let `c` be its copy.

The copy has the same lookups, numbers of pairs and size, and copying leaves the original
as it was.  A run of operations on either of the two leaves what is read of the other
unchanged, in every state, exactly when no operation of it frees a cell the original had
when it was copied.  And both can be given back, each cell released once, exactly when the
original had no pairs. -/
theorem multimapCopy_independent_iff (f : HashEnv K) (hf : f.Compatible)
    (compareVal : V → V → ℤ) (sz : ℕ) (σ₀ σ σ₁ : PairStore K V) (build : List (StoredOp K V))
    (m c : StoredMap K)
    (hm : Runs.run (storedStep f compareVal) (some (storedInit sz), σ₀) build = .ok (some m, σ))
    (hc : storedCopy f m σ = .ok (c, σ₁)) :
    (SameViews f σ σ₁ m ∧ SameContents f σ₁ m c) ∧
      (∀ ops, Runs.Always (storedStep f compareVal) (fun s => SameViews f σ₁ s.2 c)
          (some m, σ₁) ops ↔
        Runs.EachDone (storedStep f compareVal) (Spares f compareVal (cellsOf σ m))
          (some m, σ₁) ops) ∧
      (∀ ops, Runs.Always (storedStep f compareVal) (fun s => SameViews f σ₁ s.2 m)
          (some c, σ₁) ops ↔
        Runs.EachDone (storedStep f compareVal) (Spares f compareVal (cellsOf σ m))
          (some c, σ₁) ops) ∧
      (ReleasedOnce f compareVal σ σ₁ m c ↔ pairsOf σ m = []) := by
  obtain ⟨m, rfl, hheld⟩ := held_of_run hf.equiv hm
  obtain ⟨c, rfl, hcopy⟩ := storedCopy_ok hf hheld.regular hheld.laidOut hheld.fresh hc
  obtain ⟨hm₁, hc₁⟩ := hcopy.held hheld.regular hheld.laidOut hheld.fresh
  have hlm : ({ m with fresh := σ₁.fresh } : Multimap K V).stored = m.stored := rfl
  have hcells : ∀ a ∈ cellsOf σ m.stored, σ₁.cell a = σ.cell a := fun a ha =>
    hcopy.cells a (by
      rw [cellsOf_stored hheld.regular hheld.laidOut] at ha
      obtain ⟨p, hp, rfl⟩ := List.mem_map.mp ha
      exact hheld.fresh ▸ hheld.regular.below p hp)
  have hpairs : c.pairs.Perm m.pairs := hcopy.nodes.flatMap_right HashNode.pairs
  have hSm : ∀ a, a ∈ cellsOf σ₁ m.stored ↔ a ∈ cellsOf σ m.stored := fun a => by
    rw [cellsOf_stored hheld.regular hheld.laidOut,
      ← hlm, cellsOf_stored hm₁.regular hm₁.laidOut]
    exact Iff.rfl
  have hSc : ∀ a, a ∈ cellsOf σ₁ c.stored ↔ a ∈ cellsOf σ m.stored := fun a => by
    rw [cellsOf_stored hheld.regular hheld.laidOut, cellsOf_stored hc₁.regular hc₁.laidOut]
    exact (hpairs.map _).mem_iff
  refine ⟨⟨sameViews_of_cells hheld.regular hheld.laidOut hcells, fun key => ?_, hcopy.total⟩,
    ?_, ?_, ?_⟩
  · exact ⟨_, _, lookupView_stored hm₁.regular hm₁.laidOut key,
      lookupView_stored hc₁.regular hc₁.laidOut key, by rw [hcopy.lookups]; rfl,
      by rw [hcopy.lookups]; rfl⟩
  · exact sameViews_iff (m := { m with fresh := σ₁.fresh }) hf.equiv compareVal hm₁
      hc₁.regular hc₁.laidOut hSc
  · exact sameViews_iff (c := { m with fresh := σ₁.fresh }) hf.equiv compareVal hc₁
      hm₁.regular hm₁.laidOut hSm
  · rw [releasedOnce_iff hcopy hheld.regular hheld.laidOut hheld.fresh,
      pairsOf_stored hheld.regular hheld.laidOut, List.map_eq_nil_iff]

/-- Two keys, one of them with two pairs.  The copy reads the same, and a pair may come into it and go again
without the original being changed; the two cannot both be given back. -/
theorem multimapCopy_of_two_keys :
    ∃ (m c : StoredMap ℤ) (σ σ₁ : PairStore ℤ ℤ),
      Runs.run (storedStep oneBucketEnv fun a b => a - b) (some (storedInit 8), Cells.empty)
          [.insert 1 10, .insert 2 20, .insert 1 11] = .ok (some m, σ) ∧
        storedCopy oneBucketEnv m σ = .ok (c, σ₁) ∧ SameContents oneBucketEnv σ₁ m c ∧
        Runs.Always (storedStep oneBucketEnv fun a b => a - b)
          (fun s => SameViews oneBucketEnv σ₁ s.2 m) (some c, σ₁) [.insert 1 12, .delete 1 12] ∧
        ¬ ReleasedOnce oneBucketEnv (fun a b => a - b) σ σ₁ m c := by
  refine ⟨_, _, _, _, rfl, rfl, ?_⟩
  obtain ⟨⟨-, hsame⟩, -, hcopy, hreleased⟩ := multimapCopy_independent_iff oneBucketEnv
    compatible_oneBucketEnv (fun a b : ℤ => a - b) 8 Cells.empty _ _
    [.insert 1 10, .insert 2 20, .insert 1 11] _ _ rfl rfl
  refine ⟨hsame, (hcopy _).mpr ⟨fun _ _ => trivial, fun s hs => ?_⟩, fun h => ?_⟩
  · -- the pair that goes was allocated after the original was copied
    obtain rfl := Except.ok.inj hs
    refine ⟨fun _ _ m' hm' r hr x hx hval => ?_, fun _ _ => trivial⟩
    obtain rfl := Option.some.inj hm'
    have hlist : r = ([(6, 1, 12), (2, 1, 11), (0, 1, 10)], 3) := (Except.ok.inj hr).symm
    rw [hlist] at hx
    have haddr : x.1 = 6 := by
      rcases List.mem_cons.mp hx with rfl | hx
      · rfl
      · rcases List.mem_cons.mp hx with rfl | hx
        · exact absurd hval (by decide)
        · rw [List.mem_singleton.mp hx] at hval
          exact absurd hval (by decide)
    rw [haddr]
    exact (by decide : 6 ∉ [2, 0, 1])
  · have hnone := hreleased.mp h
    cases hnone

/-- **A deletion in the copy destroys the original.**  The map has one pair; once the pair is
deleted in the copy, going through the original meets a freed cell. -/
theorem multimapCopy_shares_cells :
    ∃ (m c : StoredMap ℤ) (σ σ₁ : PairStore ℤ ℤ),
      Runs.run (storedStep oneBucketEnv fun a b => a - b) (some (storedInit 8), Cells.empty)
          [.insert 1 10] = .ok (some m, σ) ∧
        storedCopy oneBucketEnv m σ = .ok (c, σ₁) ∧
        ¬ Runs.Always (storedStep oneBucketEnv fun a b => a - b)
          (fun s => SameViews oneBucketEnv σ₁ s.2 m) (some c, σ₁) [.delete 1 10] := by
  refine ⟨_, _, _, _, rfl, rfl, fun h => ?_⟩
  -- after the deletion, `multimap_iterate` of the original is a use after free
  obtain ⟨r, -, hr⟩ := (h.2 _ rfl).2
  cases hr

end NetCosm
