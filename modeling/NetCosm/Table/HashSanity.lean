import NetCosm.Table.Hash

/-!
# The counters of a hash table

`hash_dump` walks the table, counts its nodes and its used buckets, and compares
the two counts with `n_entries` and `used_buckets`: if they agree it prints `Map
is sane.`  This file settles when that is so.

`n_entries` always agrees.  `used_buckets` agrees after everything except one
thing: `hash_remove` counts a bucket as unused whenever it unlinks the head of a
chain, also when the chain goes on.  `UncountsBucket` is that step, and
`hashMap_sane_iff` says that a run leaves the map sane in every state it reaches
exactly when it takes no such step.  The undercount is not repaired until the
next resize, which counts afresh.

Nothing here depends on the hash function or on the comparison: the counters are
kept, or not, whatever the keys are compared by.
-/

namespace NetCosm

universe u v

variable {K : Type u} {D : Type v}

namespace HashMap

/-- The number of nodes the table really holds. -/
def stored (m : HashMap K D) : ℕ := m.nodes.length

/-- The number of buckets that really hold something. -/
def occupied (m : HashMap K D) : ℕ := Buckets.occupied m.table

/-- Both counters are right, as `size_t` values. -/
structure Sane (m : HashMap K D) : Prop where
  entries : m.nEntries = UInt64.ofNat m.stored
  buckets : m.usedBuckets = UInt64.ofNat m.occupied

end HashMap

open HashMap

/-! ## What `hash_dump` compares -/

/-- Counting a chain up one node at a time. -/
theorem foldl_count_chain (chain : List (HashNode K D)) (n : UInt64) :
    chain.foldl (fun n _ => n + 1) n = n + UInt64.ofNat chain.length := by
  induction chain generalizing n with
  | nil => simp
  | cons x chain ih =>
    rw [List.foldl_cons, ih, List.length_cons, UInt64.ofNat_add]
    grind

/-- The two counts of `hash_dump` are the number of nodes and the number of
occupied buckets: counting the empty buckets down from the size of the table is
counting the others up from `0`. -/
theorem hashDumpCounts_eq (m : HashMap K D) :
    hashDumpCounts m = (UInt64.ofNat m.stored, UInt64.ofNat m.occupied) := by
  suffices h : ∀ (t : List (List (HashNode K D))) (a c : UInt64),
      t.foldl (fun c chain => (chain.foldl (fun n _ => n + 1) c.1,
        if chain.isEmpty then c.2 - 1 else c.2)) (a, c + UInt64.ofNat t.length) =
      (a + UInt64.ofNat (Buckets.items t).length,
        c + UInt64.ofNat (Buckets.occupied t)) by
    simpa [hashDumpCounts, tableSz, stored, nodes, occupied] using h m.table 0 0
  intro t
  induction t with
  | nil => intro a c; simp [Buckets.items, Buckets.occupied]
  | cons d t ih =>
    intro a c
    rw [List.foldl_cons]
    dsimp only
    cases hd : d.isEmpty with
    | true =>
      have hnil : d = [] := List.isEmpty_iff.mp hd
      subst hnil
      have hc : c + UInt64.ofNat (([] : List (HashNode K D)) :: t).length - 1 =
          c + UInt64.ofNat t.length := by
        rw [List.length_cons, UInt64.ofNat_add]
        grind
      rw [if_pos rfl, List.foldl_nil, hc, ih]
      simp [Buckets.items, Buckets.occupied]
    | false =>
      have hc : c + UInt64.ofNat (d :: t).length = (c + 1) + UInt64.ofNat t.length := by
        rw [List.length_cons, UInt64.ofNat_add]
        grind
      rw [if_neg (by simp), foldl_count_chain, hc, ih]
      simp only [Buckets.items, Buckets.occupied, List.flatten_cons, List.length_append,
        List.countP_cons, hd, Bool.not_false, if_true, UInt64.ofNat_add, Prod.mk.injEq]
      constructor
      · grind
      · grind

/-- **Sane is what `hash_dump` prints.** -/
theorem hashDumpSane_iff (m : HashMap K D) : hashDumpSane m = true ↔ m.Sane := by
  rw [hashDumpSane, hashDumpCounts_eq]
  simp only [Bool.and_eq_true, beq_iff_eq]
  exact ⟨fun h => ⟨h.1.symm, h.2.symm⟩, fun h => ⟨h.entries.symm, h.buckets.symm⟩⟩

/-! ## The counts after each change of the table -/

/-- Replacing a chain, in terms of the two counts. -/
theorem stored_set (m m' : HashMap K D) {b : ℕ} {c : List (HashNode K D)}
    (hb : b < m.tableSz) (h : m'.table = m.table.set b c) :
    m'.stored + (m.chain b).length = m.stored + c.length := by
  rw [stored, nodes, h]
  exact Buckets.length_items_set hb c

theorem occupied_set (m m' : HashMap K D) {b : ℕ} {c : List (HashNode K D)}
    (hb : b < m.tableSz) (h : m'.table = m.table.set b c) :
    m'.occupied + (!(m.chain b).isEmpty).toNat = m.occupied + (!c.isEmpty).toNat := by
  rw [HashMap.occupied, h]
  exact Buckets.occupied_set hb c

theorem stored_appendNode {m : HashMap K D} {hash : ℕ} (hb : hash < m.tableSz) (key : K)
    (data : D) : (appendNode m key data hash).stored = m.stored + 1 := by
  have h := stored_set m (appendNode m key data hash) hb rfl
  rw [List.length_append, List.length_singleton] at h
  omega

theorem stored_unlink {m : HashMap K D} {b i : ℕ} (hi : i < (m.chain b).length) :
    (unlink m b i).stored + 1 = m.stored := by
  have hb : b < m.tableSz :=
    Buckets.lt_length_of_mem_chain (List.getElem_mem hi)
  have h := stored_set m (unlink m b i) hb rfl
  rw [List.length_eraseIdx_of_lt hi] at h
  omega

@[simp] theorem stored_fresh (sz : ℕ) : (fresh sz : HashMap K D).stored = 0 := by
  simp [stored]

theorem sane_fresh (sz : ℕ) : (fresh sz : HashMap K D).Sane where
  entries := by rw [stored_fresh]; rfl
  buckets := by rw [HashMap.occupied, fresh, Buckets.occupied_replicate_nil]; rfl

/-- Pushing or appending one node keeps both counters right: the bucket is newly
used exactly when it was empty. -/
theorem HashMap.Sane.add_node {m m' : HashMap K D} {b : ℕ} {c : List (HashNode K D)} (hm : m.Sane)
    (hb : b < m.tableSz) (htab : m'.table = m.table.set b c)
    (hc : c.length = (m.chain b).length + 1) (hent : m'.nEntries = m.nEntries + 1)
    (hused : m'.usedBuckets =
      if (m.chain b).isEmpty then m.usedBuckets + 1 else m.usedBuckets) : m'.Sane := by
  have hst := stored_set m m' hb htab
  have hocc := occupied_set m m' hb htab
  have hne : c.isEmpty = false := by
    cases c with
    | nil => simp at hc
    | cons x c => rfl
  constructor
  · have h1 : m'.stored = m.stored + 1 := by omega
    rw [hent, hm.entries, h1, UInt64.ofNat_add]
    rfl
  · rw [hused, hm.buckets]
    cases hchain : (m.chain b).isEmpty with
    | true =>
      have h1 : m'.occupied = m.occupied + 1 := by simpa [hne, hchain] using hocc
      rw [if_pos rfl, h1, UInt64.ofNat_add]
      rfl
    | false =>
      have h1 : m'.occupied = m.occupied := by simpa [hne, hchain] using hocc
      rw [if_neg (by simp), h1]

theorem sane_appendNode {m : HashMap K D} (hm : m.Sane) {hash : ℕ} (hb : hash < m.tableSz)
    (key : K) (data : D) : (appendNode m key data hash).Sane :=
  hm.add_node hb rfl (by simp) rfl rfl

theorem sane_relinkNode (f : HashEnv K) {m : HashMap K D} (hm : m.Sane) (hsz : 0 < m.tableSz)
    (n : HashNode K D) : (relinkNode f m n).Sane :=
  hm.add_node (f.bucket_lt n.key hsz) rfl (by simp) rfl rfl

/-- **A resize counts afresh**: whatever the counters of the old table said, those
of the relinked one are right. -/
theorem sane_relinkAll (f : HashEnv K) (m : HashMap K D) {newSz : ℕ} (hsz : 0 < newSz) :
    (relinkAll f m newSz).Sane := by
  suffices h : ∀ (ns : List (HashNode K D)) (m' : HashMap K D), m'.Sane → 0 < m'.tableSz →
      (ns.foldl (relinkNode f) m').Sane from
    h m.nodes (fresh newSz) (sane_fresh newSz) (by simpa using hsz)
  intro ns
  induction ns with
  | nil => intro m' h _; exact h
  | cons n ns ih =>
    intro m' h h0
    exact ih _ (sane_relinkNode f h h0 n) (by simpa using h0)

/-- Relinking keeps the number of nodes. -/
theorem stored_relinkAll (f : HashEnv K) (m : HashMap K D) {newSz : ℕ} (hsz : 0 < newSz) :
    (relinkAll f m newSz).stored = m.stored :=
  (perm_nodes_relinkAll f m hsz).length_eq

/-! ## The steps -/

/-- The operations on a map. -/
inductive HashOp (K : Type u) (D : Type v) where
  | insert (key : K) (data : D)
  | overwrite (key : K) (data : D)
  | remove (key : K)
  | resize (newSz : ℕ) (nonzero : newSz ≠ 0)
  /-- Go on with the copy `hash_dup` made. -/
  | dup (isNull : D → Bool) (dupData : D → D)

/-- One operation, keeping the map only. -/
def hashStep (f : HashEnv K) (m : HashMap K D) : HashOp K D → Except Fault (HashMap K D)
  | .insert key data => (hashInsert f m key data).map Prod.snd
  | .overwrite key data => (hashOverwrite f m key data).map Prod.snd
  | .remove key => .ok (hashRemove f m key).2
  | .resize newSz _ => (hashResize f m newSz).map Prod.snd
  | .dup isNull dupData => hashDup f isNull dupData m

/-- The step that miscounts: `hash_remove` of a key whose node heads a chain that
goes on. -/
def UncountsBucket (f : HashEnv K) (m : HashMap K D) : HashOp K D → Prop
  | .remove key => m.pos f key = some 0 ∧ 1 < (m.chain (f.bucket key m.tableSz)).length
  | _ => False

/-- A new node is counted, and so is the growth it may cause. -/
theorem insertNew_counts {f : HashEnv K} {m m' : HashMap K D} {key key' : K} {data : D}
    (h0 : 0 < m.tableSz)
    (h : hashInternalInsertNew f m key data (f.bucket key' m.tableSz) = .ok m') :
    0 < m'.tableSz ∧ (m.Sane → m'.Sane) := by
  rcases hashInternalInsertNew_ok h0 h with ⟨-, rfl⟩ | ⟨-, rfl⟩
  · exact ⟨by simpa using h0, fun hm => sane_appendNode hm (f.bucket_lt key' h0) key data⟩
  · have h2 : 0 < m.tableSz * 2 := by omega
    exact ⟨by simpa using h0, fun _ => sane_relinkAll f _ h2⟩

/-- Replacing a chain by one of the same length changes neither count. -/
theorem HashMap.Sane.set_same_length {m : HashMap K D} (hm : m.Sane) {b : ℕ}
    {c : List (HashNode K D)} (hb : b < m.tableSz) (hc : c.length = (m.chain b).length) :
    (m.setChain b c).Sane := by
  have hst := stored_set m (m.setChain b c) hb rfl
  have hocc := occupied_set m (m.setChain b c) hb rfl
  have hemp : c.isEmpty = (m.chain b).isEmpty := by
    rw [Bool.eq_iff_iff, List.isEmpty_iff_length_eq_zero, List.isEmpty_iff_length_eq_zero, hc]
  rw [hemp] at hocc
  constructor
  · rw [show (m.setChain b c).stored = m.stored by omega]
    exact hm.entries
  · rw [show (m.setChain b c).occupied = m.occupied by omega]
    exact hm.buckets

/-- **Removing a node keeps the counters right exactly when the node does not head
a longer chain.**  The count of the nodes is always right; the bucket is counted
as unused exactly when the head goes, and is unused exactly when the only node
goes. -/
theorem sane_remove_iff {m : HashMap K D} (hm : m.Sane) {b i : ℕ}
    (hi : i < (m.chain b).length) :
    ({ unlink m b i with nEntries := m.nEntries - 1 } : HashMap K D).Sane ↔
      ¬ (i = 0 ∧ 1 < (m.chain b).length) := by
  have hb : b < m.tableSz := Buckets.lt_length_of_mem_chain (List.getElem_mem hi)
  have hst : (unlink m b i).stored + 1 = m.stored := stored_unlink hi
  have hocc := occupied_set m (unlink m b i) hb rfl
  have hlen : ((m.chain b).eraseIdx i).length = (m.chain b).length - 1 :=
    List.length_eraseIdx_of_lt hi
  have hfull : (m.chain b).isEmpty = false := by
    rw [Bool.eq_false_iff, Ne, List.isEmpty_iff_length_eq_zero]
    omega
  have hent : m.nEntries - 1 = UInt64.ofNat (unlink m b i).stored := by
    rw [hm.entries, ← hst, UInt64.ofNat_add]
    grind
  have hused : (unlink m b i).usedBuckets =
      if i = 0 then m.usedBuckets - 1 else m.usedBuckets := rfl
  by_cases hlast : (m.chain b).length = 1
  · -- the only node: the bucket becomes empty, and the head is what goes
    have h0 : i = 0 := by omega
    have hemp : ((m.chain b).eraseIdx i).isEmpty = true := by
      rw [List.isEmpty_iff_length_eq_zero]
      omega
    have hocc' : (unlink m b i).occupied + 1 = m.occupied := by simpa [hemp, hfull] using hocc
    refine iff_of_true ⟨hent, ?_⟩ (by omega)
    rw [hused, if_pos h0, hm.buckets, ← hocc', UInt64.ofNat_add]
    show _ = UInt64.ofNat (unlink m b i).occupied
    grind
  · -- the chain goes on, and the bucket stays in use
    have hemp : ((m.chain b).eraseIdx i).isEmpty = false := by
      rw [Bool.eq_false_iff, Ne, List.isEmpty_iff_length_eq_zero]
      omega
    have hocc' : (unlink m b i).occupied = m.occupied := by simpa [hemp, hfull] using hocc
    by_cases h0 : i = 0
    · refine iff_of_false (fun h => ?_) (by omega)
      have hbad : (unlink m b i).usedBuckets = UInt64.ofNat (unlink m b i).occupied := h.buckets
      rw [hused, if_pos h0, hocc', ← hm.buckets] at hbad
      exact absurd hbad (by grind)
    · refine iff_of_true ⟨hent, ?_⟩ (by omega)
      show (unlink m b i).usedBuckets = UInt64.ofNat (unlink m b i).occupied
      rw [hused, if_neg h0, hocc', hm.buckets]

theorem hashInsert_counts {f : HashEnv K} {m m' : HashMap K D} {key : K} {data : D}
    {r : Option D} (h0 : 0 < m.tableSz) (h : hashInsert f m key data = .ok (r, m')) :
    0 < m'.tableSz ∧ (m.Sane → m'.Sane) := by
  rcases hashInsert_ok h with ⟨-, -, rfl⟩ | ⟨-, -, hnew⟩
  · exact ⟨h0, id⟩
  · exact insertNew_counts h0 hnew

/-- The copy is filled by insertions alone, and they are counted. -/
theorem hashDup_counts {f : HashEnv K} {m m' : HashMap K D} {isNull : D → Bool}
    {dupData : D → D} (h0 : 0 < m.tableSz) (h : hashDup f isNull dupData m = .ok m') :
    0 < m'.tableSz ∧ m'.Sane := by
  unfold hashDup at h
  split at h
  · exact absurd h (by simp)
  · refine Runs.invariant_run (I := fun m : HashMap K D => 0 < m.tableSz ∧ m.Sane) ?_
      ⟨by simpa using h0, sane_fresh _⟩ h
    rintro s n s' ⟨hs0, hs⟩ hstep
    obtain ⟨⟨r, s''⟩, hins, rfl⟩ := map_eq_ok hstep
    exact ⟨(hashInsert_counts hs0 hins).1, (hashInsert_counts hs0 hins).2 hs⟩

/-- Every step but one keeps the counters right. -/
theorem hashStep_counts {f : HashEnv K} {m m' : HashMap K D} {op : HashOp K D}
    (h0 : 0 < m.tableSz) (h : hashStep f m op = .ok m') :
    0 < m'.tableSz ∧ (m.Sane → ¬ UncountsBucket f m op → m'.Sane) := by
  cases op with
  | insert key data =>
    obtain ⟨⟨r, m''⟩, hins, rfl⟩ := map_eq_ok h
    exact ⟨(hashInsert_counts h0 hins).1, fun hm _ => (hashInsert_counts h0 hins).2 hm⟩
  | overwrite key data =>
    obtain ⟨⟨r, m''⟩, hover, rfl⟩ := map_eq_ok h
    rcases hashOverwrite_ok hover with ⟨i, -, -, rfl⟩ | ⟨-, -, hnew⟩
    · exact ⟨by simpa using h0, fun hm _ => hm.set_same_length (f.bucket_lt key h0) (by simp)⟩
    · exact ⟨(insertNew_counts h0 hnew).1, fun hm _ => (insertNew_counts h0 hnew).2 hm⟩
  | remove key =>
    have hm' : m' = (hashRemove f m key).2 := (Except.ok.inj h).symm
    cases hp : m.pos f key with
    | none => rw [hm', hashRemove, hp]; exact ⟨h0, fun hm _ => hm⟩
    | some i =>
      rw [hm', hashRemove, hp]
      refine ⟨(tableSz_unlink m _ i).symm ▸ h0, fun hm hop => ?_⟩
      refine (sane_remove_iff hm (pos_lt hp)).mpr ?_
      rintro ⟨rfl, hlen⟩
      exact hop ⟨hp, hlen⟩
  | resize newSz nonzero =>
    have hpos : 0 < newSz := Nat.pos_of_ne_zero nonzero
    obtain ⟨⟨b, m''⟩, hr, rfl⟩ := map_eq_ok h
    rcases hashResize_ok hr with ⟨-, rfl⟩ | ⟨-, rfl⟩
    · exact ⟨h0, fun hm _ => hm⟩
    · exact ⟨by simpa using hpos, fun _ _ => sane_relinkAll f m hpos⟩
  | dup isNull dupData =>
    exact ⟨(hashDup_counts h0 h).1, fun _ _ => (hashDup_counts h0 h).2⟩

/-- The step that miscounts leaves the map insane at once. -/
theorem not_sane_of_uncountsBucket {f : HashEnv K} {m : HashMap K D} {op : HashOp K D}
    (hm : m.Sane) (hop : UncountsBucket f m op) :
    ∃ m', hashStep f m op = .ok m' ∧ ¬ m'.Sane := by
  cases op with
  | remove key =>
    obtain ⟨hp, hlen⟩ := hop
    refine ⟨(hashRemove f m key).2, rfl, ?_⟩
    rw [hashRemove, hp]
    exact fun h => (sane_remove_iff hm (pos_lt hp)).mp h ⟨rfl, hlen⟩
  | insert key data => exact hop.elim
  | overwrite key data => exact hop.elim
  | resize newSz nonzero => exact hop.elim
  | dup isNull dupData => exact hop.elim

/-- **The counters of a hash table.**  Start from `hash_init` with any size, hash
function and comparison, and run any operations.  `n_entries` and `used_buckets`
are right in every state reached exactly when the run never removes the head of a
chain that goes on. -/
theorem hashMap_sane_iff (f : HashEnv K) (sz : ℕ) (ops : List (HashOp K D)) :
    Runs.Always (hashStep f) HashMap.Sane (hashInit sz) ops ↔
      Runs.EachStep (hashStep f) (fun m op => ¬ UncountsBucket f m op) (hashInit sz) ops := by
  refine Runs.always_iff_eachStep (J := fun m => 0 < m.tableSz) ?_ ?_ ?_
    (tableSz_hashInit_pos sz) (sane_fresh _)
  · exact fun m op m' h0 h => (hashStep_counts h0 h).1
  · exact fun m op m' h0 hm hop h => (hashStep_counts h0 h).2 hm hop
  · exact fun m op _ hm hop => not_sane_of_uncountsBucket hm (not_not.mp hop)

/-- A hash function that puts every key in one bucket, over integer keys. -/
def oneBucketEnv : HashEnv ℤ := ⟨fun _ => 0, fun a b => a - b, true⟩

/-- Two keys in one bucket, and the one at the head removed: the bucket is in use
and `used_buckets` is `0`.  Keys that compare equal hash equally here. -/
theorem hashMap_not_sane_after_head_removal :
    (∀ a b, oneBucketEnv.Same a b → oneBucketEnv.hash a = oneBucketEnv.hash b) ∧
      ¬ Runs.Always (hashStep oneBucketEnv) HashMap.Sane
        (hashInit 4 : HashMap ℤ ℕ) [.insert 1 10, .insert 2 20, .remove 1] := by
  refine ⟨fun _ _ _ => rfl, fun h => ?_⟩
  have hlast := h.last (t := ⟨[[⟨2, 20⟩], [], [], []], 1, 0⟩) (by rfl)
  exact absurd hlast.buckets (by decide)

end NetCosm
