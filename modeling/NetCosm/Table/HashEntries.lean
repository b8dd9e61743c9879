import NetCosm.Table.HashPlacement

/-!
# The entries of a table whose hash function suits its comparison

When keys that compare equal hash equally, the bucket of a key says nothing that the
key's class does not: `hashEntry f m key`, the key and datum stored in the class of
`key`, is then determined by which nodes are in the table, wherever they are
(`hashEntry_eq_some_iff`).

So it is enough to know what an operation does to the set of the nodes.  The file
says it of each of them: `hashEntry_insertNew`, `hashEntry_unlink`,
`hashEntry_setData`, `hashEntry_setNode` and `hashEntry_relinkAll`.  None of them
looks at the counters of the table, which may be off.
-/

namespace NetCosm

universe u v

variable {K : Type u} {D : Type v}

/-- Comparing keys is an equivalence, and keys that compare equal hash equally. -/
structure HashEnv.Compatible (f : HashEnv K) : Prop where
  equiv : Equivalence f.Same
  hash_eq : ∀ a b, f.Same a b → f.hash a = f.hash b

/-- The classes of keys that compare equal. -/
def HashEnv.Compatible.classes {f : HashEnv K} (hf : f.Compatible) : Setoid K := ⟨f.Same, hf.equiv⟩

theorem HashEnv.Compatible.bucket_eq {f : HashEnv K} (hf : f.Compatible) {a b : K}
    (h : f.Same a b) (sz : ℕ) : f.bucket a sz = f.bucket b sz := by
  rw [bucket, bucket, hf.hash_eq a b h]

/-- The key and the datum of the node the key is compared equal to. -/
def hashEntry (f : HashEnv K) (m : HashMap K D) (key : K) : Option (K × D) :=
  ((m.chain (f.bucket key m.tableSz)).find? fun n => f.Same key n.key).map
    fun n => (n.key, n.data)

theorem hashLookup_eq_map (f : HashEnv K) (m : HashMap K D) (key : K) :
    hashLookup f m key = (hashEntry f m key).map Prod.snd := by
  rw [hashLookup, hashEntry, Option.map_map]
  rfl

theorem hashGetkeyptr_eq_map (f : HashEnv K) (m : HashMap K D) (key : K) :
    hashGetkeyptr f m key = (hashEntry f m key).map Prod.fst := by
  rw [hashGetkeyptr, hashEntry, Option.map_map]
  rfl

@[simp] theorem hashEntry_fresh (f : HashEnv K) (sz : ℕ) (key : K) :
    hashEntry f (HashMap.fresh sz : HashMap K D) key = none := by
  simp [hashEntry]

theorem hashLookup_hashInit (f : HashEnv K) (sz : ℕ) (key : K) :
    hashLookup f (hashInit sz : HashMap K D) key = none := by
  rw [hashLookup_eq_map, hashInit, hashEntry_fresh]
  rfl

theorem hashEntry_eq_none_iff_pos {f : HashEnv K} {m : HashMap K D} {key : K} :
    hashEntry f m key = none ↔ m.pos f key = none := by
  rw [← hashLookup_eq_none_iff, hashLookup_eq_map, Option.map_eq_none_iff]

/-- At the position of a key is its entry. -/
theorem hashEntry_of_pos {f : HashEnv K} {m : HashMap K D} {key : K} {i : ℕ}
    (h : m.pos f key = some i) :
    hashEntry f m key = some ((HashMap.nodeAt h).key, (HashMap.nodeAt h).data) := by
  obtain ⟨hi, hs, hbefore⟩ := List.findIdx?_eq_some_iff_getElem.mp h
  have hfind : ((m.chain (f.bucket key m.tableSz)).find? fun n => f.Same key n.key) =
      some (HashMap.nodeAt h) := by
    rw [List.find?_eq_some_iff_getElem]
    exact ⟨hs, i, hi, rfl, fun j hj => by simpa using hbefore j hj⟩
  rw [hashEntry, hfind]
  rfl

/-! ## The entries are determined by the nodes -/

/-- **No two nodes of a well placed table have keys that compare equal.** -/
theorem HashMap.WellPlaced.distinct_nodes {f : HashEnv K} (hf : f.Compatible) {m : HashMap K D}
    (hm : m.WellPlaced f) : m.nodes.Pairwise fun n n' => ¬ f.Same n.key n'.key := by
  rw [HashMap.nodes, Buckets.items, List.pairwise_flatten]
  constructor
  · intro c hc
    obtain ⟨b, hb, rfl⟩ := List.mem_iff_getElem.mp hc
    rw [← Buckets.chain_eq_getElem hb]
    exact hm.distinct b
  · rw [List.pairwise_iff_getElem]
    intro i j hi hj hij n hn n' hn' hs
    -- keys of different buckets hash differently, so they do not compare equal
    rw [← Buckets.chain_eq_getElem hi] at hn
    rw [← Buckets.chain_eq_getElem hj] at hn'
    have hi' := hm.placed i n hn
    have hj' := hm.placed j n' hn'
    rw [hf.bucket_eq hs] at hi'
    omega

/-- **What is stored in the class of a key**: the node, anywhere in the table, whose key
compares equal. -/
theorem hashEntry_eq_some_iff {f : HashEnv K} (hf : f.Compatible) {m : HashMap K D}
    (hm : m.WellPlaced f) {key : K} {e : K × D} :
    hashEntry f m key = some e ↔ ∃ n ∈ m.nodes, f.Same key n.key ∧ (n.key, n.data) = e := by
  rw [hashEntry, Option.map_eq_some_iff]
  constructor
  · rintro ⟨n, hn, he⟩
    exact ⟨n, Buckets.mem_items_iff.mpr ⟨_, List.mem_of_find?_eq_some hn⟩,
      by simpa using List.find?_some hn, he⟩
  · rintro ⟨n, hn, hs, he⟩
    have hchain := hm.mem_nodes_iff.mp hn
    rw [← hf.bucket_eq hs] at hchain
    exact ⟨n, find?_eq_of_pairwise hf.equiv (hm.distinct _) hchain hs, he⟩

theorem hashEntry_eq_none_iff {f : HashEnv K} (hf : f.Compatible) {m : HashMap K D}
    (hm : m.WellPlaced f) {key : K} :
    hashEntry f m key = none ↔ ∀ n ∈ m.nodes, ¬ f.Same key n.key := by
  rw [Option.eq_none_iff_forall_ne_some]
  constructor
  · intro h n hn hs
    exact h (n.key, n.data) ((hashEntry_eq_some_iff hf hm).mpr ⟨n, hn, hs, rfl⟩)
  · rintro h e he
    obtain ⟨n, hn, hs, -⟩ := (hashEntry_eq_some_iff hf hm).mp he
    exact h n hn hs

/-- Two keys of one class have the same entry. -/
theorem hashEntry_congr {f : HashEnv K} (hf : f.Compatible) {m : HashMap K D}
    (hm : m.WellPlaced f) {a b : K} (h : f.Same a b) : hashEntry f m a = hashEntry f m b := by
  refine Option.ext fun e => ?_
  rw [hashEntry_eq_some_iff hf hm, hashEntry_eq_some_iff hf hm]
  have hiff : ∀ k, f.Same a k ↔ f.Same b k := fun k =>
    ⟨fun ha => hf.equiv.trans (hf.equiv.symm h) ha, fun hb => hf.equiv.trans h hb⟩
  simp only [hiff]

/-- A table with the nodes of another, `a` put in the place of its class. -/
theorem hashEntry_put {f : HashEnv K} (hf : f.Compatible) {m m' : HashMap K D}
    (hm : m.WellPlaced f) (hm' : m'.WellPlaced f) {a : HashNode K D}
    (h : ∀ n, n ∈ m'.nodes ↔ n = a ∨ n ∈ m.nodes ∧ ¬ f.Same a.key n.key) (k : K) :
    hashEntry f m' k = if f.Same a.key k then some (a.key, a.data) else hashEntry f m k := by
  refine Option.ext fun e => ?_
  rw [hashEntry_eq_some_iff hf hm']
  split
  · rename_i hk
    constructor
    · rintro ⟨n, hn, hs, rfl⟩
      rcases (h n).mp hn with rfl | ⟨-, hne⟩
      · rfl
      · exact absurd (hf.equiv.trans hk hs) hne
    · rintro he
      obtain rfl := Option.some.inj he
      exact ⟨a, (h a).mpr (Or.inl rfl), hf.equiv.symm hk, rfl⟩
  · rename_i hk
    rw [hashEntry_eq_some_iff hf hm]
    constructor
    · rintro ⟨n, hn, hs, he⟩
      rcases (h n).mp hn with rfl | ⟨hold, -⟩
      · exact absurd (hf.equiv.symm hs) hk
      · exact ⟨n, hold, hs, he⟩
    · rintro ⟨n, hn, hs, he⟩
      exact ⟨n, (h n).mpr (Or.inr ⟨hn, fun ha => hk (hf.equiv.trans ha (hf.equiv.symm hs))⟩),
        hs, he⟩

/-- A table with the nodes of another, a class taken out. -/
theorem hashEntry_erase {f : HashEnv K} (hf : f.Compatible) {m m' : HashMap K D}
    (hm : m.WellPlaced f) (hm' : m'.WellPlaced f) {key : K}
    (h : ∀ n, n ∈ m'.nodes ↔ n ∈ m.nodes ∧ ¬ f.Same key n.key) (k : K) :
    hashEntry f m' k = if f.Same key k then none else hashEntry f m k := by
  refine Option.ext fun e => ?_
  rw [hashEntry_eq_some_iff hf hm']
  split
  · rename_i hk
    refine iff_of_false ?_ (by simp)
    rintro ⟨n, hn, hs, -⟩
    exact ((h n).mp hn).2 (hf.equiv.trans hk hs)
  · rename_i hk
    rw [hashEntry_eq_some_iff hf hm]
    constructor
    · rintro ⟨n, hn, hs, he⟩
      exact ⟨n, ((h n).mp hn).1, hs, he⟩
    · rintro ⟨n, hn, hs, he⟩
      exact ⟨n, (h n).mpr ⟨hn, fun ha => hk (hf.equiv.trans ha (hf.equiv.symm hs))⟩, hs, he⟩

/-- A table with the nodes of another. -/
theorem hashEntry_of_nodes {f : HashEnv K} (hf : f.Compatible) {m m' : HashMap K D}
    (hm : m.WellPlaced f) (hm' : m'.WellPlaced f) (h : ∀ n, n ∈ m'.nodes ↔ n ∈ m.nodes) (k : K) :
    hashEntry f m' k = hashEntry f m k := by
  refine Option.ext fun e => ?_
  rw [hashEntry_eq_some_iff hf hm', hashEntry_eq_some_iff hf hm]
  simp only [h]

/-! ## What the operations do to the entries -/

/-- Relinking keeps a table well placed whatever the new size, if the hash function suits
the comparison. -/
theorem HashMap.WellPlaced.relinkAll {f : HashEnv K} (hf : f.Compatible) {m : HashMap K D}
    (hm : m.WellPlaced f) {newSz : ℕ} (h : 0 < newSz) : (relinkAll f m newSz).WellPlaced f := by
  refine ⟨by simpa using h, ?_, fun b => ?_⟩
  · rw [tableSz_relinkAll]
    exact placed_relinkAll f m newSz
  · by_cases hb : b < newSz
    · rw [HashMap.chain, table_relinkAll, Buckets.chain_redistribute _ _ hb, List.pairwise_reverse]
      exact ((hm.distinct_nodes hf).sublist List.filter_sublist).imp
        fun hne hs => hne (hf.equiv.symm hs)
    · rw [HashMap.chain, Buckets.chain_eq_nil]
      · exact List.Pairwise.nil
      · rw [table_relinkAll, Buckets.length_redistribute]
        exact Nat.le_of_not_lt hb

/-- **Relinking changes no entry.** -/
theorem hashEntry_relinkAll {f : HashEnv K} (hf : f.Compatible) {m : HashMap K D}
    (hm : m.WellPlaced f) {newSz : ℕ} (h : 0 < newSz) (k : K) :
    hashEntry f (relinkAll f m newSz) k = hashEntry f m k :=
  hashEntry_of_nodes hf hm (hm.relinkAll hf h) (fun _ => mem_nodes_relinkAll h) k

/-- **Inserting a new node** puts its class in, whether or not the table grows. -/
theorem hashEntry_insertNew {f : HashEnv K} (hf : f.Compatible) {m m' : HashMap K D} {key : K}
    {data : D} (hm : m.WellPlaced f) (hnew : hashEntry f m key = none)
    (h : hashInternalInsertNew f m key data (f.bucket key m.tableSz) = .ok m') :
    m'.WellPlaced f ∧
      ∀ k, hashEntry f m' k = if f.Same key k then some (key, data) else hashEntry f m k := by
  have hplaced := wellPlaced_appendNode hf.equiv hm
    (by rw [hashLookup_eq_map, hnew]; rfl) data
  have hnodes : ∀ n, n ∈ (appendNode m key data (f.bucket key m.tableSz)).nodes ↔
      n = ⟨key, data⟩ ∨ n ∈ m.nodes ∧ ¬ f.Same key n.key := by
    intro n
    rw [mem_nodes_appendNode (f.bucket_lt key hm.size_pos)]
    refine or_congr_right ⟨fun hn => ⟨hn, ?_⟩, And.left⟩
    exact (hashEntry_eq_none_iff hf hm).mp hnew n hn
  have hentry := hashEntry_put hf hm hplaced hnodes
  rcases hashInternalInsertNew_ok hm.size_pos h with ⟨-, rfl⟩ | ⟨-, rfl⟩
  · exact ⟨hplaced, hentry⟩
  · have hpos : 0 < m.tableSz * 2 := Nat.mul_pos hm.size_pos (by decide)
    refine ⟨hplaced.relinkAll hf hpos, fun k => ?_⟩
    rw [hashEntry_relinkAll hf hplaced hpos, hentry]

/-- The nodes that are left when the node of a key is unlinked are those of the other
classes. -/
theorem mem_nodes_unlink_iff {f : HashEnv K} (hf : f.Compatible) {m : HashMap K D}
    (hm : m.WellPlaced f) {key : K} {i : ℕ} (hp : m.pos f key = some i) {n : HashNode K D} :
    n ∈ (unlink m (f.bucket key m.tableSz) i).nodes ↔ n ∈ m.nodes ∧ ¬ f.Same key n.key := by
  have hpair : (HashMap.nodeAt hp :: (unlink m (f.bucket key m.tableSz) i).nodes).Pairwise
      fun n n' => ¬ f.Same n.key n'.key :=
    ((perm_nodes_unlink m (pos_lt hp)).pairwise_iff
      fun h hs => h (hf.equiv.symm hs)).mpr (hm.distinct_nodes hf)
  have hkey := (nodeAt_spec hp).2
  rw [mem_nodes_iff_unlink hp]
  constructor
  · intro hn
    refine ⟨Or.inr hn, fun hs => ?_⟩
    exact (List.pairwise_cons.mp hpair).1 n hn (hf.equiv.trans (hf.equiv.symm hkey) hs)
  · rintro ⟨rfl | hn, hs⟩
    · exact absurd hkey hs
    · exact hn

/-- **Unlinking the node of a key** takes its class out. -/
theorem hashEntry_unlink {f : HashEnv K} (hf : f.Compatible) {m : HashMap K D}
    (hm : m.WellPlaced f) {key : K} {i : ℕ} (hp : m.pos f key = some i) (k : K) :
    hashEntry f (unlink m (f.bucket key m.tableSz) i) k =
      if f.Same key k then none else hashEntry f m k :=
  hashEntry_erase hf hm (hm.unlink (bucket_lt_of_pos hp))
    (fun _ => mem_nodes_unlink_iff hf hm hp) k

/-- **Writing to the datum of a key** changes the datum of its class. -/
theorem hashEntry_setData {f : HashEnv K} (hf : f.Compatible) {m : HashMap K D}
    (hm : m.WellPlaced f) {key : K} {i : ℕ} (hp : m.pos f key = some i) (data : D) (k : K) :
    hashEntry f (hashSetData f m key data) k =
      if f.Same key k then some ((HashMap.nodeAt hp).key, data) else hashEntry f m k := by
  have hkey := (nodeAt_spec hp).2
  have hiff : ∀ k', f.Same (HashMap.nodeAt hp).key k' ↔ f.Same key k' := fun k' =>
    ⟨fun h => hf.equiv.trans hkey h, fun h => hf.equiv.trans (hf.equiv.symm hkey) h⟩
  have hnodes : ∀ n, n ∈ (hashSetData f m key data).nodes ↔
      n = ⟨(HashMap.nodeAt hp).key, data⟩ ∨
        n ∈ m.nodes ∧ ¬ f.Same (HashMap.nodeAt hp).key n.key := by
    intro n
    rw [mem_nodes_hashSetData hp, mem_nodes_unlink_iff hf hm hp, hiff]
  rw [hashEntry_put hf hm (hm.hashSetData key data) hnodes]
  simp only [hiff]

/-- Replacing the node of a key by another of its class keeps a table well placed. -/
theorem HashMap.WellPlaced.setNode {f : HashEnv K} (hf : f.Compatible) {m : HashMap K D}
    (hm : m.WellPlaced f) {key : K} {i : ℕ} (hp : m.pos f key = some i) (data : D) :
    (m.setChain (f.bucket key m.tableSz)
      ((m.chain (f.bucket key m.tableSz)).set i ⟨key, data⟩)).WellPlaced f := by
  have hi := pos_lt hp
  have hkey := (nodeAt_spec hp).2
  refine hm.set (bucket_lt_of_pos hp) rfl ?_ ?_
  · intro n hn
    rcases List.mem_or_eq_of_mem_set hn with hold | rfl
    · exact hm.placed _ n hold
    · rfl
  · -- the chain with one node moved to the front, before and after
    have hsymm : ∀ {n n' : HashNode K D}, ¬ f.Same n.key n'.key → ¬ f.Same n'.key n.key :=
      fun h hs => h (hf.equiv.symm hs)
    have hold := ((List.getElem_cons_eraseIdx_perm hi).pairwise_iff hsymm).mpr (hm.distinct _)
    refine ((List.set_perm_cons_eraseIdx hi _).pairwise_iff hsymm).mpr ?_
    rw [List.pairwise_cons] at hold ⊢
    refine ⟨fun n hn hs => hold.1 n hn ?_, hold.2⟩
    exact hf.equiv.trans (hf.equiv.symm hkey) hs

/-- **Replacing the node of a key** changes both the key and the datum of its class. -/
theorem hashEntry_setNode {f : HashEnv K} (hf : f.Compatible) {m : HashMap K D}
    (hm : m.WellPlaced f) {key : K} {i : ℕ} (hp : m.pos f key = some i) (data : D) (k : K) :
    hashEntry f (m.setChain (f.bucket key m.tableSz)
        ((m.chain (f.bucket key m.tableSz)).set i ⟨key, data⟩)) k =
      if f.Same key k then some (key, data) else hashEntry f m k := by
  refine hashEntry_put hf hm (hm.setNode hf hp data) (a := ⟨key, data⟩) (fun n => ?_) k
  rw [(perm_nodes_setNode m (pos_lt hp) ⟨key, data⟩).mem_iff, List.mem_cons,
    mem_nodes_unlink_iff hf hm hp]

/-! ## What the calls do to the entries -/

section Calls

variable {f : HashEnv K} {m m' : HashMap K D}

/-- **`hash_insert`** puts a class in if it is not there, and returns what is there. -/
theorem hashInsert_entries (hf : f.Compatible) (hm : m.WellPlaced f) {key : K} {data : D}
    {old : Option D} (h : hashInsert f m key data = .ok (old, m')) :
    old = hashLookup f m key ∧ m'.WellPlaced f ∧
      ∀ k, hashEntry f m' k =
        if f.Same key k ∧ hashEntry f m k = none then some (key, data) else hashEntry f m k := by
  rcases hashInsert_ok h with ⟨hold, hne, rfl⟩ | ⟨hold, hnone, hins⟩
  · refine ⟨hold, hm, fun k => ?_⟩
    rw [if_neg]
    rintro ⟨hs, hk⟩
    rw [hold, hashLookup_eq_map, hashEntry_congr hf hm hs, hk] at hne
    exact hne rfl
  · have hentry : hashEntry f m key = none := by
      rwa [hashLookup_eq_map, Option.map_eq_none_iff] at hnone
    obtain ⟨hplaced, hentries⟩ := hashEntry_insertNew hf hm hentry hins
    refine ⟨hold.trans hnone.symm, hplaced, fun k => ?_⟩
    rw [hentries]
    by_cases hs : f.Same key k
    · rw [if_pos hs, if_pos ⟨hs, (hashEntry_congr hf hm hs).symm.trans hentry⟩]
    · rw [if_neg hs, if_neg fun h => hs h.1]

/-- **`hash_overwrite`** puts a class in, and lets go of what was there. -/
theorem hashOverwrite_entries (hf : f.Compatible) (hm : m.WellPlaced f) {key : K} {data : D}
    {old : Option (HashNode K D)} (h : hashOverwrite f m key data = .ok (old, m')) :
    (old.map fun n => (n.key, n.data)) = hashEntry f m key ∧ m'.WellPlaced f ∧
      ∀ k, hashEntry f m' k = if f.Same key k then some (key, data) else hashEntry f m k := by
  cases hp : m.pos f key with
  | some i =>
    rw [hashOverwrite, hp] at h
    obtain ⟨rfl, rfl⟩ := Prod.mk.inj (Except.ok.inj h)
    refine ⟨?_, hm.setNode hf hp data, hashEntry_setNode hf hm hp data⟩
    rw [hashEntry_of_pos hp, List.getElem?_eq_getElem (pos_lt hp)]
    rfl
  | none =>
    have hnone := hashEntry_eq_none_iff_pos.mpr hp
    rw [hashOverwrite, hp] at h
    obtain ⟨m₁, hins, heq⟩ := map_eq_ok h
    obtain ⟨rfl, rfl⟩ := Prod.mk.inj heq
    obtain ⟨hplaced, hentries⟩ := hashEntry_insertNew hf hm hnone hins
    exact ⟨hnone.symm, hplaced, hentries⟩

/-- Overwriting what is there never stops. -/
theorem hashOverwrite_of_entry {key : K} {e : K × D} (h : hashEntry f m key = some e) (data : D) :
    ∃ m', hashOverwrite f m key data = .ok (some ⟨e.1, e.2⟩, m') := by
  cases hp : m.pos f key with
  | none =>
    rw [hashEntry_eq_none_iff_pos.mpr hp] at h
    exact absurd h (by simp)
  | some i =>
    obtain rfl := Option.some.inj ((hashEntry_of_pos hp).symm.trans h)
    refine ⟨m.setChain (f.bucket key m.tableSz)
      ((m.chain (f.bucket key m.tableSz)).set i ⟨key, data⟩), ?_⟩
    rw [hashOverwrite, hp]
    exact congrArg (fun n => Except.ok (n, _)) (List.getElem?_eq_getElem (pos_lt hp))

/-- **`hash_remove`** takes a class out. -/
theorem hashRemove_entries (hf : f.Compatible) (hm : m.WellPlaced f) (key : K) :
    (hashRemove f m key).1.isSome = (hashLookup f m key).isSome ∧
      (hashRemove f m key).2.WellPlaced f ∧
      ∀ k, hashEntry f (hashRemove f m key).2 k =
        if f.Same key k then none else hashEntry f m k := by
  cases hp : m.pos f key with
  | some i =>
    have hrem : hashRemove f m key = ((m.chain (f.bucket key m.tableSz))[i]?,
        { unlink m (f.bucket key m.tableSz) i with nEntries := m.nEntries - 1 }) := by
      rw [hashRemove, hp]
    rw [hrem]
    refine ⟨?_, (hm.unlink (bucket_lt_of_pos hp)).of_table_eq rfl,
      hashEntry_unlink hf hm hp⟩
    rw [hashLookup_eq_map, hashEntry_of_pos hp, List.getElem?_eq_getElem (pos_lt hp)]
    rfl
  | none =>
    have hrem : hashRemove f m key = (none, m) := by rw [hashRemove, hp]
    have hentry := hashEntry_eq_none_iff_pos.mpr hp
    rw [hrem]
    refine ⟨by rw [hashLookup_eq_map, hentry]; rfl, hm, fun k => ?_⟩
    split
    · rename_i hs
      rw [← hashEntry_congr hf hm hs, hentry]
    · rfl

/-- **Writing through the pointer `hash_lookup` returned** changes one datum. -/
theorem hashSetData_entries (hf : f.Compatible) (hm : m.WellPlaced f) {key : K} {e : K × D}
    (h : hashEntry f m key = some e) (data : D) (k : K) :
    hashEntry f (hashSetData f m key data) k =
      if f.Same key k then some (e.1, data) else hashEntry f m k := by
  cases hp : m.pos f key with
  | none =>
    rw [hashEntry_eq_none_iff_pos.mpr hp] at h
    exact absurd h (by simp)
  | some i =>
    obtain rfl := Option.some.inj ((hashEntry_of_pos hp).symm.trans h)
    exact hashEntry_setData hf hm hp data k

end Calls

end NetCosm
