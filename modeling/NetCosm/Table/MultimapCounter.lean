import NetCosm.Table.Multimap
import NetCosm.Table.HashSanity

/-!
# The entry counter under a multimap

`hash_resize` counts the nodes it relinks and asserts that `n_entries` said the
same number.  Four places keep `n_entries`: insertion counts up, `hash_remove`
counts down, a resize counts afresh, and `hash_del_internal_node` does nothing.
The last one is how `multimap_delete` takes out a node that has lost its last
pair, so each such deletion leaves the counter one too high, and the assertion
waits for the next growth.

`Drift e m` says that the counter is `e` too high.  `drift_step` follows `e` through
one operation: it counts the deletions that emptied a node since the last growth.
At a growth the assertion holds exactly when `e` is a multiple of `2 ^ 64`
(`growthCountsAgree_iff`), which is the only way a `size_t` forgets it.

The counter that decides when the table grows, `used_buckets`, plays no part: it
decides when the drift is noticed and not whether there is one.
-/

namespace NetCosm

universe u v

variable {K : Type u} {V : Type v}

open HashMap

/-- Writing through a pointer changes no counter's meaning. -/
theorem stored_hashSetData (f : HashEnv K) {D : Type v} (m : HashMap K D) (key : K) (data : D) :
    (hashSetData f m key data).stored = m.stored := by
  cases hp : m.pos f key with
  | none => simp only [hashSetData, hp]
  | some i =>
    have h := (perm_nodes_hashSetData hp data).length_eq
    have h' := stored_unlink (pos_lt hp)
    rw [List.length_cons] at h
    rw [stored, h]
    exact h'

/-- Two counts of one number of nodes, one of them `e` too high. -/
theorem ofNat_add_eq_iff (n e : ℕ) :
    UInt64.ofNat (n + e) = UInt64.ofNat n ↔ 2 ^ 64 ∣ e := by
  rw [← UInt64.toNat_inj, UInt64.toNat_ofNat', UInt64.toNat_ofNat']
  omega

namespace Multimap

/-- The operation is a `multimap_delete` that leaves the key's node without pairs. -/
def emptiesNode (f : HashEnv K) (compareVal : V → V → ℤ) (m : Multimap K V) :
    MultimapOp K V → Bool
  | .delete key val =>
      match hashLookup f m.hashTab key with
      | some node => (node.kept compareVal val).list.isEmpty
      | none => false
  | _ => false

/-- If the operation makes the table grow, the entry counter before the growth is
the number of nodes that are relinked. -/
def GrowthCountsAgree (f : HashEnv K) (m : Multimap K V) : MultimapOp K V → Prop
  | .insert key val =>
      m.grows f (.insert key val) = true →
        (m.inserted f key val).nEntries = UInt64.ofNat (m.inserted f key val).stored
  | _ => True

/-- The number of node-emptying deletions since the last growth, after one more
operation. -/
def staleAfter (f : HashEnv K) (compareVal : V → V → ℤ) (e : ℕ) (m : Multimap K V)
    (op : MultimapOp K V) : ℕ :=
  if m.grows f op then 0 else if m.emptiesNode f compareVal op then e + 1 else e

/-- **The condition on the history**: whenever the table grows, the number `e` of
deletions that emptied a node since the last growth is a multiple of `2 ^ 64`; for
any history a machine can run this means that there were none. -/
def NoStaleGrowth (f : HashEnv K) (compareVal : V → V → ℤ) :
    ℕ → Multimap K V → List (MultimapOp K V) → Prop
  | _, _, [] => True
  | e, m, op :: ops =>
      (m.grows f op = true → 2 ^ 64 ∣ e) ∧
        ∀ m', multimapStep f compareVal m op = .ok m' →
          NoStaleGrowth f compareVal (m.staleAfter f compareVal e op) m' ops

/-- The entry counter is `e` too high. -/
def Drift (e : ℕ) (m : Multimap K V) : Prop :=
  m.hashTab.nEntries = UInt64.ofNat (m.hashTab.stored + e)

end Multimap

open Multimap

/-! ## One step -/

/-- **What one operation does to the drift.** -/
theorem drift_step {f : HashEnv K} {compareVal : V → V → ℤ} {m m' : Multimap K V}
    {op : MultimapOp K V} {e : ℕ} (h0 : 0 < m.hashTab.tableSz) (he : m.Drift e)
    (h : multimapStep f compareVal m op = .ok m') :
    0 < m'.hashTab.tableSz ∧ m'.Drift (m.staleAfter f compareVal e op) := by
  cases op with
  | insert key val =>
    obtain ⟨⟨r, m''⟩, hins, rfl⟩ := map_eq_ok h
    rcases multimapInsert_ok hins with ⟨node, hl, -, rfl⟩ | ⟨tab, hl, -, hnew, rfl⟩
    · have hst : m.staleAfter f compareVal e (.insert key val) = e := by
        simp [staleAfter, grows, emptiesNode, hl]
      rw [hst]
      refine ⟨by simpa using h0, ?_⟩
      simpa [Drift, stored_hashSetData] using he
    · rcases hashInternalInsertNew_ok h0 hnew with ⟨hg, rfl⟩ | ⟨hg, rfl⟩
      · have hst : m.staleAfter f compareVal e (.insert key val) = e := by
          simp [staleAfter, grows, emptiesNode, hg]
        rw [hst]
        refine ⟨by simpa using h0, ?_⟩
        show (appendNode m.hashTab _ _ _).nEntries = UInt64.ofNat ((appendNode _ _ _ _).stored + e)
        rw [stored_appendNode (f.bucket_lt key h0), show m.hashTab.stored + 1 + e =
          m.hashTab.stored + e + 1 by omega, UInt64.ofNat_add, ← he]
        rfl
      · have hst : m.staleAfter f compareVal e (.insert key val) = 0 := by
          simp [staleAfter, grows, hl, hg]
        rw [hst]
        have h2 : 0 < m.hashTab.tableSz * 2 := by omega
        exact ⟨by simpa using h0, (sane_relinkAll f _ h2).entries⟩
  | delete key val =>
    have hm' : m' = (multimapDelete f compareVal m key val).2 := (Except.ok.inj h).symm
    subst hm'
    rcases multimapDelete_cases f compareVal m key val with
      ⟨hl, hd⟩ | ⟨node, i, hl, hp, hk, hd⟩ | ⟨node, i, hl, hp, hk, hd⟩
    · have hst : m.staleAfter f compareVal e (.delete key val) = e := by
        simp [staleAfter, grows, emptiesNode, hl]
      rw [hst, hd]
      exact ⟨h0, he⟩
    · have hst : m.staleAfter f compareVal e (.delete key val) = e + 1 := by
        simp [staleAfter, grows, emptiesNode, hl, hk]
      rw [hst, hd]
      refine ⟨by simpa using h0, ?_⟩
      have h1 := stored_unlink (pos_lt hp)
      show m.hashTab.nEntries = UInt64.ofNat ((unlink m.hashTab _ i).stored + (e + 1))
      rw [he, ← h1]
      congr 1
      omega
    · have hst : m.staleAfter f compareVal e (.delete key val) = e := by
        simp [staleAfter, grows, emptiesNode, hl, hk]
      rw [hst, hd]
      refine ⟨by simpa using h0, ?_⟩
      simpa [Drift, stored_hashSetData] using he
  | deleteAll key =>
    have hm' : m' = (multimapDeleteAll f m key).2 := (Except.ok.inj h).symm
    have hst : m.staleAfter f compareVal e (.deleteAll key) = e := by
      simp [staleAfter, grows, emptiesNode]
    subst hm'
    rw [hst]
    rcases multimapDeleteAll_cases f m key with ⟨hl, hd⟩ | ⟨node, i, hl, hp, hd⟩
    · rw [hd]
      exact ⟨h0, he⟩
    · rw [hd]
      refine ⟨(tableSz_unlink m.hashTab _ i).symm ▸ h0, ?_⟩
      have h1 := stored_unlink (pos_lt hp)
      show m.hashTab.nEntries - 1 = UInt64.ofNat ((unlink m.hashTab _ i).stored + e)
      rw [he, ← h1, show (unlink m.hashTab (f.bucket key m.hashTab.tableSz) i).stored + 1 + e =
        (unlink m.hashTab (f.bucket key m.hashTab.tableSz) i).stored + e + 1 by omega,
        UInt64.ofNat_add]
      grind

/-- **At a growth the counts agree exactly when the drift is a multiple of the
range of the counter.** -/
theorem growthCountsAgree_iff {f : HashEnv K} {m : Multimap K V} {op : MultimapOp K V} {e : ℕ}
    (h0 : 0 < m.hashTab.tableSz) (he : m.Drift e) :
    m.GrowthCountsAgree f op ↔ (m.grows f op = true → 2 ^ 64 ∣ e) := by
  cases op with
  | insert key val =>
    have hent : (m.inserted f key val).nEntries =
        UInt64.ofNat ((m.inserted f key val).stored + e) := by
      rw [inserted, stored_appendNode (f.bucket_lt key h0), show m.hashTab.stored + 1 + e =
          m.hashTab.stored + e + 1 by omega, UInt64.ofNat_add, ← he]
      rfl
    rw [GrowthCountsAgree, hent, ofNat_add_eq_iff]
  | delete key val => simp [GrowthCountsAgree, grows]
  | deleteAll key => simp [GrowthCountsAgree, grows]

/-- A step that aborts is a growth at which the counts differ. -/
theorem not_growthCountsAgree_of_assertion {f : HashEnv K} {compareVal : V → V → ℤ}
    {m : Multimap K V} {op : MultimapOp K V} (h0 : 0 < m.hashTab.tableSz)
    (h : multimapStep f compareVal m op = .error .assertion) :
    f.asserts = true ∧ ¬ m.GrowthCountsAgree f op := by
  cases op with
  | insert key val =>
    obtain ⟨hg, hresize⟩ := multimapInsert_error (map_eq_error h)
    have hpos : 0 < m.hashTab.tableSz * 2 := by omega
    obtain ⟨hasserts, hne⟩ := hashResize_assertion hresize
    rw [(sane_relinkAll f _ hpos).entries, stored_relinkAll f _ hpos] at hne
    exact ⟨hasserts, fun hagree => hne (hagree hg)⟩
  | delete key val => exact absurd h (by simp [multimapStep])
  | deleteAll key => exact absurd h (by simp [multimapStep])

/-! ## Whole histories -/

/-- A history from a state with drift `e`. -/
theorem growthCounts_iff_of_drift {f : HashEnv K} {compareVal : V → V → ℤ} {m : Multimap K V}
    {e : ℕ} {ops : List (MultimapOp K V)} (h0 : 0 < m.hashTab.tableSz) (he : m.Drift e) :
    (Runs.EachStep (multimapStep f compareVal) (GrowthCountsAgree f) m ops ∧
        Runs.run (multimapStep f compareVal) m ops ≠ .error .assertion) ↔
      NoStaleGrowth f compareVal e m ops := by
  induction ops generalizing m e with
  | nil => simp [Runs.EachStep, NoStaleGrowth]
  | cons op ops ih =>
    rw [Runs.EachStep, NoStaleGrowth, growthCountsAgree_iff h0 he]
    cases hs : multimapStep f compareVal m op with
    | ok m1 =>
      obtain ⟨h01, he1⟩ := drift_step h0 he hs
      rw [Runs.run_cons_ok hs, and_assoc]
      refine and_congr_right fun _ => ?_
      constructor
      · rintro ⟨h1, h2⟩ m' hm'
        obtain rfl := Except.ok.inj hm'
        exact (ih h01 he1).mp ⟨h1 _ rfl, h2⟩
      · intro h1
        obtain ⟨h2, h3⟩ := (ih h01 he1).mpr (h1 m1 rfl)
        exact ⟨fun m' hm' => Except.ok.inj hm' ▸ h2, h3⟩
    | error fault =>
      rw [Runs.run_cons_error hs]
      constructor
      · rintro ⟨⟨h1, -⟩, -⟩
        exact ⟨h1, fun m' hm' => absurd hm' (by simp)⟩
      · rintro ⟨h1, -⟩
        refine ⟨⟨h1, fun m' hm' => absurd hm' (by simp)⟩, fun hf => ?_⟩
        rw [Except.error.inj hf] at hs
        exact (not_growthCountsAgree_of_assertion h0 hs).2 ((growthCountsAgree_iff h0 he).mpr h1)

/-- **The assertion of `hash_resize` under a multimap.**  In a history from
`multimap_init`, with any size, hash function and comparisons, the counts agree at
every growth and the process does not abort exactly when no growth is preceded by
a deletion that emptied a node, with no growth in between. -/
theorem multimap_growth_counts_iff (f : HashEnv K) (compareVal : V → V → ℤ) (sz : ℕ)
    (ops : List (MultimapOp K V)) :
    (Runs.EachStep (multimapStep f compareVal) (GrowthCountsAgree f) (multimapInit sz) ops ∧
        Runs.run (multimapStep f compareVal) (multimapInit sz) ops ≠ .error .assertion) ↔
      NoStaleGrowth f compareVal 0 (multimapInit sz) ops := by
  refine growthCounts_iff_of_drift (tableSz_hashInit_pos sz) ?_
  show (hashInit sz).nEntries = UInt64.ofNat ((hashInit sz).stored + 0)
  exact (sane_fresh _).entries

/-- Keys that hash to themselves, with assertions compiled in. -/
def identityEnv : HashEnv UInt32 := ⟨id, fun a b => (a.toNat : ℤ) - b.toNat, true⟩

/-- **An assertion stops the process.**  In a table of two buckets a key is filled and emptied again, and then
both buckets are filled.  The counter of the entries still counts the node that was emptied: when the table grows
there are two nodes in it and the counter is three, and the assertion of `hash_resize` that compares them fails. -/
theorem multimap_aborts_after_emptying_delete :
    ¬ (Runs.EachStep (multimapStep identityEnv fun a b : ℤ => a - b)
          (GrowthCountsAgree identityEnv) (multimapInit 2)
          [.insert 0 7, .delete 0 7, .insert 1 7, .insert 0 7] ∧
        Runs.run (multimapStep identityEnv fun a b : ℤ => a - b) (multimapInit 2)
          [.insert 0 7, .delete 0 7, .insert 1 7, .insert 0 7] ≠ .error .assertion) := by
  rintro ⟨-, h⟩
  exact h (by rfl)

end NetCosm
