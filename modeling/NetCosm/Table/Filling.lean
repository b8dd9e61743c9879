import NetCosm.Table.HashRefinement
import NetCosm.Table.MultimapCells
import NetCosm.Table.MultimapCounter

/-!
# Tables that are filled

A table that has only been inserted into keeps both counters right, so it grows when three
quarters of its buckets really are in use.  From a size of `2 ^ 32` on a growth does not end; but
to grow from there a table has to hold `fillLimit` nodes, and one that holds fewer never fails.

`Filling f m n` says of a table that it is such a table and has at most `n` nodes.
`Filling.hashInsert` and `Multimap.Filling.insert` are the insertions: they return, what is stored
is what was stored and the new item, and the table is one that holds at most `n + 1`.
-/

namespace NetCosm

universe u v

variable {K : Type u} {D : Type v} {f : HashEnv K}

/-- A table with fewer nodes does not grow from a size of `2 ^ 32`: three quarters of that. -/
def fillLimit : ℕ := 3 * 2 ^ 30

namespace HashMap

/-- A table that has only been inserted into, and has at most `n` nodes. -/
structure Filling (f : HashEnv K) (m : HashMap K D) (n : ℕ) : Prop where
  placed : m.WellPlaced f
  sane : m.Sane
  stored_le : m.stored ≤ n
  tableSz_le : m.tableSz ≤ 2 * unsignedRange

variable {m : HashMap K D} {n : ℕ}

theorem Filling.mono (hm : m.Filling f n) {n' : ℕ} (h : n ≤ n') : m.Filling f n' :=
  ⟨hm.placed, hm.sane, hm.stored_le.trans h, hm.tableSz_le⟩

theorem filling_hashInit (f : HashEnv K) {sz : ℕ} (h : sz ≤ 2 * unsignedRange) :
    (hashInit sz : HashMap K D).Filling f 0 where
  placed := wellPlaced_hashInit f sz
  sane := sane_fresh _
  stored_le := by rw [hashInit, stored, nodes_fresh]; exact Nat.le_refl 0
  tableSz_le := by
    have hone : 1 ≤ 2 * unsignedRange := by decide
    rw [hashInit, tableSz_fresh]
    split
    · exact hone
    · exact h

theorem occupied_le_stored (m : HashMap K D) : m.occupied ≤ m.stored := by
  rw [occupied, Buckets.occupied, stored, nodes, Buckets.items, List.length_flatten]
  induction m.table with
  | nil => exact Nat.le_refl 0
  | cons c t ih =>
    rw [List.countP_cons, List.map_cons, List.sum_cons]
    cases c with
    | nil => simpa using ih
    | cons x c =>
      rw [List.length_cons]
      simp only [List.isEmpty_cons, Bool.not_false, if_true]
      omega

/-- **A table that grows has three quarters of its buckets in use.**  A shift that loses something
makes the table look emptier than it is. -/
theorem three_quarters_of_overloaded (hm : m.Sane) (hsz : m.tableSz < 2 ^ 64)
    (h : overloaded m = true) : 3 * m.tableSz ≤ 4 * m.stored := by
  have hocc := occupied_le_stored m
  have hused : m.usedBuckets.toNat ≤ m.occupied := by
    rw [hm.buckets, UInt64.toNat_ofNat']
    exact Nat.mod_le _ _
  have htab : (UInt64.ofNat m.tableSz).toNat = m.tableSz := by
    rw [UInt64.toNat_ofNat', Nat.mod_eq_of_lt hsz]
  have hshift : (m.usedBuckets <<< 16).toNat ≤ m.occupied * 65536 := by
    rw [UInt64.toNat_shiftLeft, Nat.shiftLeft_eq]
    exact (Nat.mod_le _ _).trans (Nat.mul_le_mul_right 65536 hused)
  have hle : (49152 : ℕ) ≤ m.occupied * 65536 / m.tableSz := by
    have hle := UInt64.le_iff_toNat_le.mp (of_decide_eq_true h)
    rw [UInt64.toNat_div, htab] at hle
    exact le_trans hle (Nat.div_le_div_right hshift)
  have hpos : 0 < m.tableSz := by
    rcases Nat.eq_zero_or_pos m.tableSz with h0 | hpos
    · rw [h0, Nat.div_zero] at hle
      omega
    · exact hpos
  have hmul := (Nat.le_div_iff_mul_le hpos).mp hle
  omega

/-- With a quarter of its buckets to spare a table does not grow. -/
theorem growsAt_of_roomy (hm : m.Sane) (h0 : 0 < m.tableSz) (hsz : m.tableSz < 2 ^ 64)
    (hroomy : 4 * (m.stored + 1) < 3 * m.tableSz) (key : K) (data : D) :
    growsAt m key data (f.bucket key m.tableSz) = false := by
  rw [Bool.eq_false_iff]
  intro h
  have hb := f.bucket_lt key h0
  have hquarters := three_quarters_of_overloaded (sane_appendNode hm hb key data)
    (by rwa [tableSz_appendNode]) (Bool.and_eq_true_iff.mp h).2
  rw [tableSz_appendNode, stored_appendNode hb] at hquarters
  omega

/-- **A new key is inserted into a table with buckets to spare**, which stays as large as it is. -/
theorem hashInsert_of_roomy (hf : f.Compatible) (hm : m.WellPlaced f) (hs : m.Sane)
    (hsz : m.tableSz < 2 ^ 64) (hroomy : 4 * (m.stored + 1) < 3 * m.tableSz) {key : K}
    (hnew : hashLookup f m key = none) (data : D) :
    ∃ m', hashInsert f m key data = .ok (none, m') ∧ m'.WellPlaced f ∧ m'.Sane ∧
      m'.tableSz = m.tableSz ∧ m'.stored = m.stored + 1 ∧
      ∀ k, hashEntry f m' k =
        if f.Same key k ∧ hashEntry f m k = none then some (key, data) else hashEntry f m k := by
  have hb := f.bucket_lt key hm.size_pos
  have hins : hashInsert f m key data =
      .ok (none, appendNode m key data (f.bucket key m.tableSz)) := by
    rw [hashInsert, hnew]
    dsimp only
    rw [hashInternalInsertNew_eq, growsAt_of_roomy hs hm.size_pos hsz hroomy]
    rfl
  obtain ⟨-, hplaced, hentries⟩ := hashInsert_entries hf hm hins
  exact ⟨_, hins, hplaced, sane_appendNode hs hb key data, tableSz_appendNode m key data _,
    stored_appendNode hb key data, hentries⟩

/-- Below the limit a table does not grow from a size of `2 ^ 32`. -/
theorem Filling.lt_of_growsAt (hm : m.Filling f n) (hn : n + 1 < fillLimit) {key : K} {data : D}
    (h : growsAt m key data (f.bucket key m.tableSz) = true) : m.tableSz < unsignedRange := by
  have hb := f.bucket_lt key hm.placed.size_pos
  have hstored := stored_appendNode hb key data
  have hle := hm.stored_le
  have htab := hm.tableSz_le
  have hover := (Bool.and_eq_true_iff.mp h).2
  have hquarters := three_quarters_of_overloaded (sane_appendNode hm.sane hb key data)
    (by rw [tableSz_appendNode]; unfold unsignedRange at htab; omega) hover
  rw [tableSz_appendNode] at hquarters
  unfold fillLimit at hn
  unfold unsignedRange
  omega

/-- **A new node is inserted.** -/
theorem Filling.insertNew (hf : Equivalence f.Same) (hm : m.Filling f n) (hn : n + 1 < fillLimit)
    {key : K} (hnew : hashLookup f m key = none) (data : D) :
    ∃ m', hashInternalInsertNew f m key data (f.bucket key m.tableSz) = .ok m' ∧
      m'.Filling f (n + 1) ∧ m'.nodes.Perm (⟨key, data⟩ :: m.nodes) := by
  have h0 := hm.placed.size_pos
  obtain ⟨m', hins, -, hperm⟩ := hashInternalInsertNew_of_ends data h0
    (fun _ => hm.sane.entries) (hm.lt_of_growsAt hn)
  have hplaced := wellPlaced_appendNode hf hm.placed hnew data
  have hlen := hperm.length_eq
  rw [List.length_cons] at hlen
  refine ⟨m', hins, ⟨?_, (insertNew_counts h0 hins).2 hm.sane, ?_, ?_⟩, hperm⟩
  · rcases hashInternalInsertNew_ok h0 hins with ⟨-, rfl⟩ | ⟨-, rfl⟩
    · exact hplaced
    · exact wellPlaced_relinkAll hf hplaced (by omega) (by simp)
  · have hle := hm.stored_le
    rw [stored] at hle ⊢
    omega
  · rcases hashInternalInsertNew_ok h0 hins with ⟨-, rfl⟩ | ⟨hgrow, rfl⟩
    · rw [tableSz_appendNode]
      exact hm.tableSz_le
    · have hlt := hm.lt_of_growsAt hn hgrow
      rw [tableSz_relinkAll]
      omega

/-- **An insertion into a table that is being filled.** -/
theorem Filling.hashInsert (hf : Equivalence f.Same) (hm : m.Filling f n) (hn : n + 1 < fillLimit)
    (key : K) (data : D) :
    (∃ d, hashLookup f m key = some d ∧ hashInsert f m key data = .ok (some d, m)) ∨
      ∃ m', hashLookup f m key = none ∧ hashInsert f m key data = .ok (none, m') ∧
        m'.Filling f (n + 1) ∧ m'.nodes.Perm (⟨key, data⟩ :: m.nodes) := by
  cases hl : hashLookup f m key with
  | some d => exact Or.inl ⟨d, rfl, by rw [NetCosm.hashInsert, hl]⟩
  | none =>
    obtain ⟨m', hins, hfill, hperm⟩ := hm.insertNew hf hn hl data
    refine Or.inr ⟨m', rfl, ?_, hfill, hperm⟩
    rw [NetCosm.hashInsert, hl]
    dsimp only
    rw [hins]
    rfl

/-- A table takes another key, or has it. -/
theorem Filling.exists_hashInsert (hf : Equivalence f.Same) (hm : m.Filling f n) (hn : n + 1 < fillLimit)
    (key : K) (data : D) :
    ∃ r, NetCosm.hashInsert f m key data = .ok r ∧ r.2.Filling f (n + 1) := by
  rcases hm.hashInsert hf hn key data with ⟨d, -, hins⟩ | ⟨m', -, hins, hfill, -⟩
  · exact ⟨_, hins, hm.mono (Nat.le_succ n)⟩
  · exact ⟨_, hins, hfill⟩

/-- Writing through a pointer changes no counter. -/
theorem Filling.hashSetData (hm : m.Filling f n) (key : K) (data : D) :
    (hashSetData f m key data).Filling f n where
  placed := hm.placed.hashSetData key data
  sane := by
    unfold NetCosm.hashSetData
    cases hp : m.pos f key with
    | none => exact hm.sane
    | some i => exact hm.sane.set_same_length (bucket_lt_of_pos hp) (List.length_modify ..)
  stored_le := (stored_hashSetData f m key data).trans_le hm.stored_le
  tableSz_le := (tableSz_hashSetData f m key data).trans_le hm.tableSz_le

end HashMap

namespace Multimap

variable {V : Type v} {m : Multimap K V} {n : ℕ}

/-- A multimap that has only been inserted into, and has at most `n` nodes. -/
structure Filling (f : HashEnv K) (m : Multimap K V) (n : ℕ) : Prop extends m.Regular f where
  table : m.hashTab.Filling f n

theorem filling_init (f : HashEnv K) {sz : ℕ} (h : sz ≤ 2 * unsignedRange) :
    (multimapInit sz : Multimap K V).Filling f 0 :=
  ⟨regular_init f sz, HashMap.filling_hashInit f h⟩

/-- **An insertion into a multimap that is being filled.** -/
theorem Filling.insert (hf : Equivalence f.Same) (hm : m.Filling f n) (hn : n + 1 < fillLimit)
    (key : K) (val : V) :
    ∃ r m', multimapInsert f m key val = .ok (r, m') ∧ m'.Filling f (n + 1) ∧
      m'.pairs.Perm (m.newPair key val :: m.pairs) := by
  have hins : ∃ r m', multimapInsert f m key val = .ok (r, m') ∧
      m'.hashTab.Filling f (n + 1) := by
    unfold multimapInsert
    cases hl : hashLookup f m.hashTab key with
    | some node =>
      refine ⟨false, _, rfl, ?_⟩
      exact (hm.table.hashSetData key _).mono (Nat.le_succ n)
    | none =>
      rcases hm.table.hashInsert hf hn key (MultimapNode.single (m.newPair key val)) with
        ⟨d, hsome, -⟩ | ⟨tab, -, hins, hfill, -⟩
      · exact absurd (hl.symm.trans hsome) (by simp)
      · refine ⟨true, { m with
          totalPairs := m.totalPairs + 1
          fresh := m.fresh + 1
          hashTab := tab }, ?_, hfill⟩
        dsimp only
        rw [← newPair, hins]
        rfl
  obtain ⟨r, m', hins, hfill⟩ := hins
  exact ⟨r, m', hins, ⟨regular_insert hf hm.toRegular hins, hfill⟩,
    (perm_pairs_insert hm.placed.size_pos hins).1⟩

end Multimap

end NetCosm
