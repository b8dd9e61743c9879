import NetCosm.Table.Hash

/-!
# Where the nodes of a table lie

A walk along one chain finds the key it looks for if two things hold of the table,
and they are the two fields of `WellPlaced`: every node lies in the bucket its key
hashes to, and no chain holds two keys that compare equal.

Nothing is asked of keys in different buckets.  Two keys that compare equal but
hash differently may both be in the table, in different buckets or, after the
table has grown, even in buckets that used to be one; this is what happens to keys
compared up to case and hashed as they are spelled.  `hashLookup_eq_some_iff` is
therefore about the nodes of one bucket only.

Every operation keeps a table well placed.  For a growth this needs that the new
size is a multiple of the old one, as doubling is: nodes that meet in a bucket of
the grown table had met in a bucket before.
-/

namespace NetCosm

universe u v

variable {K : Type u} {D : Type v}

/-- Every node is where its key hashes to, and a chain holds a key once. -/
structure HashMap.WellPlaced (f : HashEnv K) (m : HashMap K D) : Prop where
  size_pos : 0 < m.tableSz
  placed : ∀ b, ∀ n ∈ m.chain b, f.bucket n.key m.tableSz = b
  distinct : ∀ b, (m.chain b).Pairwise fun n n' => ¬ f.Same n.key n'.key

/-! ## Reading a well placed table -/

/-- A node is in the table exactly when it is in the bucket of its key. -/
theorem HashMap.WellPlaced.mem_nodes_iff {f : HashEnv K} {m : HashMap K D}
    (hm : m.WellPlaced f) {n : HashNode K D} :
    n ∈ m.nodes ↔ n ∈ m.chain (f.bucket n.key m.tableSz) := by
  rw [HashMap.nodes, Buckets.mem_items_iff]
  constructor
  · rintro ⟨b, hb⟩
    rw [hm.placed b n hb]
    exact hb
  · exact fun h => ⟨_, h⟩

/-- In a chain without repetitions the only node compared equal is the first. -/
theorem find?_eq_of_pairwise {f : HashEnv K} (hf : Equivalence f.Same)
    {c : List (HashNode K D)} (hc : c.Pairwise fun n n' => ¬ f.Same n.key n'.key) {key : K}
    {n : HashNode K D} (hn : n ∈ c) (hs : f.Same key n.key) :
    (c.find? fun n => f.Same key n.key) = some n := by
  induction c with
  | nil => exact absurd hn (by simp)
  | cons a c ih =>
    rcases List.mem_cons.mp hn with rfl | hn'
    · rw [List.find?_cons_of_pos (by simpa using hs)]
    · have ha : ¬ f.Same key a.key := fun h =>
        (List.pairwise_cons.mp hc).1 n hn' (hf.trans (hf.symm h) hs)
      rw [List.find?_cons_of_neg (by simpa using ha)]
      exact ih (List.pairwise_cons.mp hc).2 hn'

/-- **What a lookup finds in a well placed table**: the datum of the node in the
key's bucket whose key compares equal. -/
theorem hashLookup_eq_some_iff {f : HashEnv K} (hf : Equivalence f.Same) {m : HashMap K D}
    (hm : m.WellPlaced f) {key : K} {d : D} :
    hashLookup f m key = some d ↔
      ∃ n ∈ m.chain (f.bucket key m.tableSz), f.Same key n.key ∧ n.data = d := by
  rw [hashLookup, Option.map_eq_some_iff]
  constructor
  · rintro ⟨n, hn, hd⟩
    exact ⟨n, List.mem_of_find?_eq_some hn, by simpa using List.find?_some hn, hd⟩
  · rintro ⟨n, hn, hs, hd⟩
    exact ⟨n, find?_eq_of_pairwise hf (hm.distinct _) hn hs, hd⟩

/-- Nothing is found exactly when no node of the bucket compares equal; this needs
nothing of the table. -/
theorem hashLookup_eq_none {f : HashEnv K} {m : HashMap K D} {key : K}
    (h : hashLookup f m key = none) {n : HashNode K D}
    (hn : n ∈ m.chain (f.bucket key m.tableSz)) : ¬ f.Same key n.key := by
  rw [hashLookup, Option.map_eq_none_iff, List.find?_eq_none] at h
  simpa using h n hn

/-! ## Keeping a table well placed -/

theorem wellPlaced_fresh (f : HashEnv K) {sz : ℕ} (h : 0 < sz) :
    (HashMap.fresh sz : HashMap K D).WellPlaced f where
  size_pos := by simpa using h
  placed := by simp
  distinct := by simp

theorem wellPlaced_hashInit (f : HashEnv K) (sz : ℕ) :
    (hashInit sz : HashMap K D).WellPlaced f :=
  wellPlaced_fresh f (by split <;> omega)

/-- Replacing one chain keeps the table well placed if the new chain is. -/
theorem HashMap.WellPlaced.set {f : HashEnv K} {m m' : HashMap K D} (hm : m.WellPlaced f) {b : ℕ}
    {c : List (HashNode K D)} (hb : b < m.tableSz) (htab : m'.table = m.table.set b c)
    (hplaced : ∀ n ∈ c, f.bucket n.key m.tableSz = b)
    (hdistinct : c.Pairwise fun n n' => ¬ f.Same n.key n'.key) : m'.WellPlaced f := by
  have hsz : m'.tableSz = m.tableSz := by rw [HashMap.tableSz, htab, List.length_set]; rfl
  have hchain : ∀ b', m'.chain b' = if b' = b then c else m.chain b' := by
    intro b'
    rw [HashMap.chain, htab]
    by_cases h : b' = b
    · rw [h, Buckets.chain_set_self hb, if_pos rfl]
    · rw [Buckets.chain_set_ne h, if_neg h]
      rfl
  refine ⟨hsz ▸ hm.size_pos, fun b' n hn => ?_, fun b' => ?_⟩
  · rw [hchain] at hn
    rw [hsz]
    by_cases h : b' = b
    · rw [if_pos h] at hn
      rw [h]
      exact hplaced n hn
    · rw [if_neg h] at hn
      exact hm.placed b' n hn
  · rw [hchain]
    by_cases h : b' = b
    · rwa [if_pos h]
    · rw [if_neg h]
      exact hm.distinct b'

theorem wellPlaced_appendNode {f : HashEnv K} (hf : Equivalence f.Same) {m : HashMap K D}
    (hm : m.WellPlaced f) {key : K} (hnew : hashLookup f m key = none) (data : D) :
    (appendNode m key data (f.bucket key m.tableSz)).WellPlaced f := by
  refine hm.set (f.bucket_lt key hm.size_pos) rfl ?_ ?_
  · intro n hn
    rcases List.mem_append.mp hn with h | h
    · exact hm.placed _ n h
    · rw [List.mem_singleton.mp h]
  · rw [List.pairwise_append]
    refine ⟨hm.distinct _, List.pairwise_singleton _ _, fun n hn n' hn' hs => ?_⟩
    rw [List.mem_singleton.mp hn'] at hs
    exact hashLookup_eq_none hnew hn (hf.symm hs)

theorem HashMap.WellPlaced.unlink {f : HashEnv K} {m : HashMap K D} (hm : m.WellPlaced f)
    {b i : ℕ} (hb : b < m.tableSz) : (unlink m b i).WellPlaced f := by
  refine hm.set hb rfl (fun n hn => hm.placed b n ?_) ?_
  · exact (List.eraseIdx_sublist _ _).mem hn
  · exact (hm.distinct b).sublist (List.eraseIdx_sublist _ _)

/-- The counters have no say in where a node is. -/
theorem HashMap.WellPlaced.of_table_eq {f : HashEnv K} {m m' : HashMap K D}
    (hm : m.WellPlaced f) (h : m'.table = m.table) : m'.WellPlaced f := by
  obtain ⟨h1, h2, h3⟩ := hm
  constructor
  · simpa only [HashMap.tableSz, h] using h1
  · simpa only [HashMap.tableSz, HashMap.chain, h] using h2
  · simpa only [HashMap.chain, h] using h3

theorem HashMap.WellPlaced.hashSetData {f : HashEnv K} {m : HashMap K D} (hm : m.WellPlaced f)
    (key : K) (data : D) : (hashSetData f m key data).WellPlaced f := by
  unfold NetCosm.hashSetData
  cases hp : m.pos f key with
  | none => exact hm
  | some i =>
    -- the keys of the chain are the same as before, and only they matter
    have hkeys : ((m.chain (f.bucket key m.tableSz)).modify i
        fun n => { n with data := data }).map HashNode.key =
          (m.chain (f.bucket key m.tableSz)).map HashNode.key := by
      refine List.ext_getElem? fun j => ?_
      simp only [List.getElem?_map, List.getElem?_modify]
      by_cases hij : i = j
      · simp [hij, Function.comp_def]
      · simp [hij]
    refine hm.set (f.bucket_lt key hm.size_pos) rfl ?_ ?_
    · intro n hn
      have hk := List.mem_map_of_mem (f := HashNode.key) hn
      rw [hkeys, List.mem_map] at hk
      obtain ⟨n', hn', heq⟩ := hk
      rw [← heq]
      exact hm.placed _ n' hn'
    · have h := hm.distinct (f.bucket key m.tableSz)
      rw [← List.pairwise_map (f := HashNode.key) (R := fun a b => ¬ f.Same a b)] at h ⊢
      rwa [hkeys]

/-- After a resize a node is where its key hashes to, whatever was the case
before. -/
theorem placed_relinkAll (f : HashEnv K) (m : HashMap K D) (newSz b : ℕ) :
    ∀ n ∈ (relinkAll f m newSz).chain b, f.bucket n.key newSz = b := by
  intro n hn
  have hb : b < newSz := by
    have := Buckets.lt_length_of_mem_chain hn
    rwa [table_relinkAll, Buckets.length_redistribute] at this
  rw [HashMap.chain, table_relinkAll, Buckets.chain_redistribute _ _ hb, List.mem_reverse,
    List.mem_filter] at hn
  simpa using hn.2

/-- **Growing keeps a table well placed.** -/
theorem wellPlaced_relinkAll {f : HashEnv K} (hf : Equivalence f.Same) {m : HashMap K D}
    (hm : m.WellPlaced f) {newSz : ℕ} (h : 0 < newSz) (hdvd : m.tableSz ∣ newSz) :
    (relinkAll f m newSz).WellPlaced f := by
  refine ⟨by simpa using h, ?_, fun b => ?_⟩
  · rw [tableSz_relinkAll]
    exact placed_relinkAll f m newSz
  · by_cases hb : b < newSz
    · -- the nodes dealt into bucket `b` all come from one old bucket
      have hold : (m.nodes.filter fun n => f.bucket n.key newSz == b) =
          (m.chain (b % m.tableSz)).filter fun n => f.bucket n.key newSz == b := by
        have hitems : (m.nodes.filter fun n => f.bucket n.key m.tableSz == b % m.tableSz) =
            m.chain (b % m.tableSz) := Buckets.filter_items hm.placed
        rw [← hitems, List.filter_filter]
        refine List.filter_congr fun n _ => ?_
        by_cases hn : f.bucket n.key newSz = b
        · have : f.bucket n.key m.tableSz = b % m.tableSz := by
            rw [← hn, HashEnv.bucket, HashEnv.bucket, Nat.mod_mod_of_dvd _ hdvd]
          simp [hn, this]
        · simp [hn]
      rw [HashMap.chain, table_relinkAll, Buckets.chain_redistribute _ _ hb, hold,
        List.pairwise_reverse]
      refine ((hm.distinct _).sublist List.filter_sublist).imp fun hne hs => hne (hf.symm hs)
    · rw [HashMap.chain, Buckets.chain_eq_nil]
      · exact List.Pairwise.nil
      · rw [table_relinkAll, Buckets.length_redistribute]
        exact Nat.le_of_not_lt hb

end NetCosm
