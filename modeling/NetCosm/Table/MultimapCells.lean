import NetCosm.Table.HashPlacement
import NetCosm.Table.Multimap

/-!
# The cells of a multimap

This file follows the cells of a multimap through its operations: which nodes
there are afterwards, and what has become of a list that somebody is still
walking.

`Regular` is what every operation keeps, whatever the hash function does to keys
that compare equal: nodes are well placed, the keys of a list compare equal to the
key of its node, and no two cells have one address.

`HasRest m l` says that `l` is what remains of some list of `m` from a cell on:
the cells a caller still has to visit.  An insertion keeps it, since new cells go
to the front (`hasRest_insert`); a deletion keeps it as long as it frees none of
these cells (`hasRest_delete`).  `suffixAt` is the reading of a cell by its
address, and `suffixAt_of_hasRest` says that a caller who stands on the first of
the remaining cells reads exactly them.
-/

namespace NetCosm

universe u v

variable {K : Type u} {V : Type v}

/-! ## The nodes after an operation -/

theorem mem_pairs_iff {m : Multimap K V} {p : MultimapPair K V} :
    p ∈ m.pairs ↔ ∃ n ∈ m.hashTab.nodes, p ∈ n.pairs := by
  rw [Multimap.pairs, HashMap.pairs, List.mem_flatMap]

/-- **The nodes after an insertion**: those there were, one of them perhaps with
the new cell in front, or a new node with the new cell alone. -/
theorem mem_nodes_insert {f : HashEnv K} {m m' : Multimap K V} {key : K} {val : V} {r : Bool}
    (h0 : 0 < m.hashTab.tableSz) (h : multimapInsert f m key val = .ok (r, m'))
    {n' : HashNode K (MultimapNode K V)} (hn' : n' ∈ m'.hashTab.nodes) :
    n' ∈ m.hashTab.nodes ∨ n' = ⟨key, MultimapNode.single (m.newPair key val)⟩ ∨
      ∃ n ∈ m.hashTab.chain (f.bucket key m.hashTab.tableSz), f.Same key n.key ∧
        n' = ⟨n.key, n.data.push (m.newPair key val)⟩ := by
  rcases multimapInsert_ok h with ⟨node, hl, -, rfl⟩ | ⟨tab, -, -, hnew, rfl⟩
  · obtain ⟨i, hp, rfl⟩ := hashLookup_eq_some hl
    rcases (mem_nodes_hashSetData hp).mp hn' with rfl | hrest
    · exact Or.inr (Or.inr ⟨_, (nodeAt_spec hp).1, (nodeAt_spec hp).2, rfl⟩)
    · exact Or.inl ((mem_nodes_iff_unlink hp).mpr (Or.inr hrest))
  · have hb := f.bucket_lt key h0
    have happ : n' ∈ (m.inserted f key val).nodes := by
      rcases hashInternalInsertNew_ok h0 hnew with ⟨-, rfl⟩ | ⟨-, rfl⟩
      · exact hn'
      · exact (mem_nodes_relinkAll (by omega)).mp hn'
    rcases (mem_nodes_appendNode hb).mp happ with rfl | hold
    · exact Or.inr (Or.inl rfl)
    · exact Or.inl hold

/-- A node is still there after an insertion, its list perhaps with a new cell in
front. -/
theorem exists_node_insert {f : HashEnv K} {m m' : Multimap K V} {key : K} {val : V} {r : Bool}
    (h0 : 0 < m.hashTab.tableSz) (h : multimapInsert f m key val = .ok (r, m'))
    {n : HashNode K (MultimapNode K V)} (hn : n ∈ m.hashTab.nodes) :
    ∃ n' ∈ m'.hashTab.nodes, n'.key = n.key ∧ n.pairs <:+ n'.pairs := by
  rcases multimapInsert_ok h with ⟨node, hl, -, rfl⟩ | ⟨tab, -, -, hnew, rfl⟩
  · obtain ⟨i, hp, rfl⟩ := hashLookup_eq_some hl
    rcases (mem_nodes_iff_unlink hp).mp hn with rfl | hrest
    · exact ⟨_, (mem_nodes_hashSetData hp).mpr (Or.inl rfl), rfl, List.suffix_cons _ _⟩
    · exact ⟨n, (mem_nodes_hashSetData hp).mpr (Or.inr hrest), rfl, List.suffix_rfl⟩
  · have hb := f.bucket_lt key h0
    have happ : n ∈ (m.inserted f key val).nodes := (mem_nodes_appendNode hb).mpr (Or.inr hn)
    refine ⟨n, ?_, rfl, List.suffix_rfl⟩
    rcases hashInternalInsertNew_ok h0 hnew with ⟨-, rfl⟩ | ⟨-, rfl⟩
    · exact happ
    · exact (mem_nodes_relinkAll (by omega)).mpr happ

/-- **The nodes after a deletion**: those there were, one of them perhaps with the
cells it kept. -/
theorem mem_nodes_delete {f : HashEnv K} {compareVal : V → V → ℤ} {m : Multimap K V} {key : K}
    {val : V} {n' : HashNode K (MultimapNode K V)}
    (hn' : n' ∈ (multimapDelete f compareVal m key val).2.hashTab.nodes) :
    n' ∈ m.hashTab.nodes ∨
      ∃ n ∈ m.hashTab.nodes, n' = ⟨n.key, n.data.kept compareVal val⟩ := by
  rcases multimapDelete_cases f compareVal m key val with
    ⟨-, hd⟩ | ⟨node, i, -, hp, -, hd⟩ | ⟨node, i, hl, -, -, hd⟩
  · rw [hd] at hn'
    exact Or.inl hn'
  · rw [hd] at hn'
    exact Or.inl ((mem_nodes_iff_unlink hp).mpr (Or.inr hn'))
  · rw [hd] at hn'
    obtain ⟨i, hp, rfl⟩ := hashLookup_eq_some hl
    rcases (mem_nodes_hashSetData hp).mp hn' with rfl | hrest
    · exact Or.inr ⟨_, (mem_nodes_iff_unlink hp).mpr (Or.inl rfl), rfl⟩
    · exact Or.inl ((mem_nodes_iff_unlink hp).mpr (Or.inr hrest))

theorem mem_nodes_deleteAll {f : HashEnv K} {m : Multimap K V} {key : K}
    {n' : HashNode K (MultimapNode K V)}
    (hn' : n' ∈ (multimapDeleteAll f m key).2.hashTab.nodes) : n' ∈ m.hashTab.nodes := by
  rcases multimapDeleteAll_cases f m key with ⟨-, hd⟩ | ⟨node, i, -, hp, hd⟩
  · rwa [hd] at hn'
  · rw [hd] at hn'
    exact (mem_nodes_iff_unlink hp).mpr (Or.inr hn')

/-! ## What every operation keeps -/

/-- A map as the operations build it. -/
structure Multimap.Regular (f : HashEnv K) (m : Multimap K V) : Prop where
  placed : m.hashTab.WellPlaced f
  same : ∀ n ∈ m.hashTab.nodes, ∀ p ∈ n.pairs, f.Same n.key p.key
  nodup : (m.pairs.map MultimapPair.addr).Nodup
  below : ∀ p ∈ m.pairs, p.addr < m.fresh

theorem regular_init (f : HashEnv K) (sz : ℕ) : (multimapInit sz : Multimap K V).Regular f where
  placed := wellPlaced_hashInit f sz
  same := by simp [multimapInit, hashInit]
  nodup := by simp
  below := by simp

theorem regular_insert {f : HashEnv K} (hf : Equivalence f.Same) {m m' : Multimap K V} {key : K}
    {val : V} {r : Bool} (hm : m.Regular f) (h : multimapInsert f m key val = .ok (r, m')) :
    m'.Regular f := by
  have h0 := hm.placed.size_pos
  obtain ⟨hperm, hfresh⟩ := perm_pairs_insert h0 h
  refine ⟨?_, fun n' hn' p hp => ?_, ?_, fun p hp => ?_⟩
  · rcases multimapInsert_ok h with ⟨node, -, -, rfl⟩ | ⟨tab, hl, -, hnew, rfl⟩
    · exact hm.placed.hashSetData key _
    · have hplaced := wellPlaced_appendNode hf hm.placed hl
        (MultimapNode.single (m.newPair key val))
      rcases hashInternalInsertNew_ok h0 hnew with ⟨-, rfl⟩ | ⟨-, rfl⟩
      · exact hplaced
      · exact wellPlaced_relinkAll hf hplaced (by omega) (by simp)
  · rcases mem_nodes_insert h0 h hn' with hold | rfl | ⟨n, hn, hs, rfl⟩
    · exact hm.same n' hold p hp
    · rw [List.mem_singleton.mp hp]
      exact hf.refl _
    · rcases List.mem_cons.mp hp with rfl | hp'
      · exact hf.symm hs
      · exact hm.same n (Buckets.mem_items_iff.mpr ⟨_, hn⟩) p hp'
  · rw [(hperm.map _).nodup_iff, List.map_cons, List.nodup_cons]
    refine ⟨fun hmem => ?_, hm.nodup⟩
    obtain ⟨p, hp, heq⟩ := List.mem_map.mp hmem
    exact absurd (hm.below p hp) (by rw [heq]; exact Nat.lt_irrefl _)
  · rw [hfresh]
    rcases List.mem_cons.mp (hperm.mem_iff.mp hp) with rfl | hp'
    · exact Nat.lt_succ_self _
    · exact Nat.lt_succ_of_lt (hm.below p hp')

/-- What taking cells away keeps. -/
theorem Multimap.Regular.of_perm {f : HashEnv K} {m m' : Multimap K V} (hm : m.Regular f)
    {freed : List (MultimapPair K V)} (hperm : (freed ++ m'.pairs).Perm m.pairs)
    (hfresh : m'.fresh = m.fresh) (hplaced : m'.hashTab.WellPlaced f)
    (hsame : ∀ n ∈ m'.hashTab.nodes, ∀ p ∈ n.pairs, f.Same n.key p.key) : m'.Regular f := by
  refine ⟨hplaced, hsame, ?_, fun p hp => ?_⟩
  · have hnodup := (hperm.map MultimapPair.addr).nodup_iff.mpr hm.nodup
    rw [List.map_append] at hnodup
    exact hnodup.of_append_right
  · rw [hfresh]
    exact hm.below p (hperm.mem_iff.mp (List.mem_append_right _ hp))

theorem regular_delete {f : HashEnv K} {m : Multimap K V} (hm : m.Regular f)
    (compareVal : V → V → ℤ) (key : K) (val : V) :
    (multimapDelete f compareVal m key val).2.Regular f := by
  obtain ⟨hperm, hfresh⟩ := perm_pairs_delete f compareVal m key val
  refine hm.of_perm hperm hfresh ?_ fun n' hn' p hp => ?_
  · rcases multimapDelete_cases f compareVal m key val with
      ⟨-, hd⟩ | ⟨node, i, -, hp, -, hd⟩ | ⟨node, i, -, -, -, hd⟩
    · rw [hd]
      exact hm.placed
    · rw [hd]
      exact hm.placed.unlink (bucket_lt_of_pos hp)
    · rw [hd]
      exact hm.placed.hashSetData key _
  · rcases mem_nodes_delete hn' with hold | ⟨n, hn, rfl⟩
    · exact hm.same n' hold p hp
    · exact hm.same n hn p (List.mem_of_mem_filter hp)

theorem regular_deleteAll {f : HashEnv K} {m : Multimap K V} (hm : m.Regular f) (key : K) :
    (multimapDeleteAll f m key).2.Regular f := by
  obtain ⟨hperm, hfresh⟩ := perm_pairs_deleteAll f m key
  refine hm.of_perm hperm hfresh ?_ fun n' hn' => hm.same n' (mem_nodes_deleteAll hn')
  rcases multimapDeleteAll_cases f m key with ⟨-, hd⟩ | ⟨node, i, -, hp, hd⟩
  · rw [hd]
    exact hm.placed
  · rw [hd]
    exact (hm.placed.unlink (bucket_lt_of_pos hp)).of_table_eq rfl

/-- **Every operation keeps a map regular.** -/
theorem regular_step {f : HashEnv K} (hf : Equivalence f.Same) {compareVal : V → V → ℤ}
    {m m' : Multimap K V} {op : MultimapOp K V} (hm : m.Regular f)
    (h : multimapStep f compareVal m op = .ok m') : m'.Regular f := by
  cases op with
  | insert key val =>
    obtain ⟨⟨r, m''⟩, hins, rfl⟩ := map_eq_ok h
    exact regular_insert hf hm hins
  | delete key val => exact Except.ok.inj h ▸ regular_delete hm compareVal key val
  | deleteAll key => exact Except.ok.inj h ▸ regular_deleteAll hm key

/-- The key of a node was the key of a node before, or has been inserted. -/
theorem nodeKey_step {f : HashEnv K} {compareVal : V → V → ℤ} {m m' : Multimap K V}
    {op : MultimapOp K V} (h0 : 0 < m.hashTab.tableSz)
    (h : multimapStep f compareVal m op = .ok m') {n' : HashNode K (MultimapNode K V)}
    (hn' : n' ∈ m'.hashTab.nodes) :
    (∃ n ∈ m.hashTab.nodes, n.key = n'.key) ∨ ∃ val, op = .insert n'.key val := by
  cases op with
  | insert key val =>
    obtain ⟨⟨r, m''⟩, hins, rfl⟩ := map_eq_ok h
    rcases mem_nodes_insert h0 hins hn' with hold | rfl | ⟨n, hn, -, rfl⟩
    · exact Or.inl ⟨n', hold, rfl⟩
    · exact Or.inr ⟨val, rfl⟩
    · exact Or.inl ⟨n, Buckets.mem_items_iff.mpr ⟨_, hn⟩, rfl⟩
  | delete key val =>
    obtain rfl := Except.ok.inj h
    rcases mem_nodes_delete hn' with hold | ⟨n, hn, rfl⟩
    · exact Or.inl ⟨n', hold, rfl⟩
    · exact Or.inl ⟨n, hn, rfl⟩
  | deleteAll key =>
    obtain rfl := Except.ok.inj h
    exact Or.inl ⟨n', mem_nodes_deleteAll hn', rfl⟩

/-- A cell is under one node only. -/
theorem Multimap.Regular.node_unique {f : HashEnv K} {m : Multimap K V} (hm : m.Regular f)
    {n n' : HashNode K (MultimapNode K V)} (hn : n ∈ m.hashTab.nodes)
    (hn' : n' ∈ m.hashTab.nodes) {p : MultimapPair K V} (hp : p ∈ n.pairs) (hp' : p ∈ n'.pairs) :
    n = n' := by
  by_contra hne
  have hnodup : m.pairs.Nodup := hm.nodup.of_map _
  rw [Multimap.pairs, HashMap.pairs, List.nodup_flatMap] at hnodup
  have hsymm : Std.Symm (Function.onFun List.Disjoint
      (HashNode.pairs : HashNode K (MultimapNode K V) → _)) := ⟨fun a b h => h.symm⟩
  exact hnodup.2.forall hn hn' hne hp hp'

/-! ## What a lookup and a deletion return -/

/-- A cell found under a key is in the map, in the bucket of the key. -/
theorem mem_lookup {f : HashEnv K} {m : Multimap K V} {key : K} {p : MultimapPair K V}
    (h : p ∈ (multimapLookup f m key).1) :
    ∃ n ∈ m.hashTab.chain (f.bucket key m.hashTab.tableSz), p ∈ n.pairs ∧ f.Same key n.key := by
  unfold multimapLookup at h
  cases hl : hashLookup f m.hashTab key with
  | none => rw [hl] at h; exact absurd h (by simp)
  | some node =>
    rw [hl] at h
    obtain ⟨n, hn, rfl⟩ := Option.map_eq_some_iff.mp hl
    exact ⟨n, List.mem_of_find?_eq_some hn, h, by simpa using List.find?_some hn⟩

theorem mem_pairs_of_mem_lookup {f : HashEnv K} {m : Multimap K V} {key : K}
    {p : MultimapPair K V} (h : p ∈ (multimapLookup f m key).1) : p ∈ m.pairs := by
  obtain ⟨n, hn, hp, -⟩ := mem_lookup h
  exact mem_pairs_iff.mpr ⟨n, Buckets.mem_items_iff.mpr ⟨_, hn⟩, hp⟩

/-- **A deletion frees the cells a lookup finds**, those whose value compares
equal. -/
theorem multimapDelete_fst (f : HashEnv K) (compareVal : V → V → ℤ) (m : Multimap K V) (key : K)
    (val : V) :
    (multimapDelete f compareVal m key val).1 =
      (multimapLookup f m key).1.filter fun p => compareVal val p.val == 0 := by
  rcases multimapDelete_cases f compareVal m key val with
    ⟨hl, hd⟩ | ⟨node, i, hl, -, -, hd⟩ | ⟨node, i, hl, -, -, hd⟩
  · rw [hd, multimapLookup, hl]
    rfl
  · rw [hd, multimapLookup, hl]
    rfl
  · rw [hd, multimapLookup, hl]
    rfl

/-- The nodes after a deletion have the keys and, of the cells, some that they had. -/
theorem exists_node_of_mem_delete {f : HashEnv K} {compareVal : V → V → ℤ} {m : Multimap K V}
    {key : K} {val : V} {n' : HashNode K (MultimapNode K V)}
    (hn' : n' ∈ (multimapDelete f compareVal m key val).2.hashTab.nodes) :
    ∃ n ∈ m.hashTab.nodes, n.key = n'.key ∧ ∀ p ∈ n'.pairs, p ∈ n.pairs := by
  rcases mem_nodes_delete hn' with hold | ⟨n, hn, rfl⟩
  · exact ⟨n', hold, rfl, fun _ hp => hp⟩
  · exact ⟨n, hn, rfl, fun p hp => List.mem_of_mem_filter hp⟩

theorem tableSz_multimapDelete (f : HashEnv K) (compareVal : V → V → ℤ) (m : Multimap K V)
    (key : K) (val : V) :
    (multimapDelete f compareVal m key val).2.hashTab.tableSz = m.hashTab.tableSz := by
  rcases multimapDelete_cases f compareVal m key val with
    ⟨-, hd⟩ | ⟨node, i, -, -, -, hd⟩ | ⟨node, i, -, -, -, hd⟩ <;> rw [hd] <;> simp

/-- **A deletion does not change what is found**, but for the cells it frees. -/
theorem mem_lookup_delete_iff {f : HashEnv K} (hf : Equivalence f.Same)
    {compareVal : V → V → ℤ} {m : Multimap K V} (hm : m.Regular f) {key key' : K} {val : V}
    {p : MultimapPair K V} :
    p ∈ (multimapLookup f (multimapDelete f compareVal m key val).2 key').1 ↔
      p ∈ (multimapLookup f m key').1 ∧ p ∈ (multimapDelete f compareVal m key val).2.pairs := by
  have hm' := regular_delete hm compareVal key val
  have hsz := tableSz_multimapDelete f compareVal m key val
  constructor
  · intro h
    refine ⟨?_, mem_pairs_of_mem_lookup h⟩
    obtain ⟨n', hn', hp, hs⟩ := mem_lookup h
    rw [hsz] at hn'
    obtain ⟨n, hn, hkey, hsub⟩ := exists_node_of_mem_delete (Buckets.mem_items_iff.mpr ⟨_, hn'⟩)
    have hchain : n ∈ m.hashTab.chain (f.bucket key' m.hashTab.tableSz) := by
      have hplace := hm'.placed.placed _ n' hn'
      rw [hsz, ← hkey] at hplace
      exact hplace ▸ hm.placed.mem_nodes_iff.mp hn
    rw [multimapLookup,
      (hashLookup_eq_some_iff hf hm.placed).mpr ⟨n, hchain, hkey ▸ hs, rfl⟩]
    exact hsub p hp
  · rintro ⟨h, hrest⟩
    obtain ⟨n, hn, hp, hs⟩ := mem_lookup h
    obtain ⟨n', hn', hp'⟩ := mem_pairs_iff.mp hrest
    obtain ⟨n₀, hn₀, hkey, hsub⟩ := exists_node_of_mem_delete hn'
    obtain rfl : n₀ = n :=
      hm.node_unique hn₀ (Buckets.mem_items_iff.mpr ⟨_, hn⟩) (hsub p hp') hp
    have hchain : n' ∈ (multimapDelete f compareVal m key val).2.hashTab.chain
        (f.bucket key' (multimapDelete f compareVal m key val).2.hashTab.tableSz) := by
      have hplace := hm'.placed.mem_nodes_iff.mp hn'
      rwa [← hkey, hsz, hm.placed.placed _ n₀ hn, ← hsz] at hplace
    rw [multimapLookup,
      (hashLookup_eq_some_iff hf hm'.placed).mpr ⟨n', hchain, hkey ▸ hs, rfl⟩]
    exact hp'

/-! ## Lists somebody is walking -/

/-- The cells from address `a` on, as a read of that address finds them; nothing
if no list of the map has a cell there. -/
def Multimap.suffixAt (m : Multimap K V) (a : ℕ) : List (MultimapPair K V) :=
  match m.hashTab.nodes.find? fun n => n.pairs.any fun p => p.addr == a with
  | some n => n.pairs.dropWhile fun p => p.addr != a
  | none => []

/-- `l` is what remains of a list of the map from some cell on. -/
def Multimap.HasRest (m : Multimap K V) (l : List (MultimapPair K V)) : Prop :=
  ∃ n ∈ m.hashTab.nodes, l <:+ n.pairs

theorem hasRest_lookup {f : HashEnv K} {m : Multimap K V} {key : K} {p : MultimapPair K V}
    {l : List (MultimapPair K V)} (h : (multimapLookup f m key).1 = p :: l) :
    m.HasRest (p :: l) := by
  unfold multimapLookup at h
  cases hl : hashLookup f m.hashTab key with
  | none => rw [hl] at h; exact absurd h (by simp)
  | some node =>
    rw [hl] at h
    obtain ⟨n, hn, rfl⟩ := Option.map_eq_some_iff.mp hl
    refine ⟨n, Buckets.mem_items_iff.mpr ⟨_, List.mem_of_find?_eq_some hn⟩, ?_⟩
    rw [← show n.pairs = p :: l from h]

theorem Multimap.HasRest.tail {m : Multimap K V} {p : MultimapPair K V}
    {l : List (MultimapPair K V)} (h : m.HasRest (p :: l)) : m.HasRest l := by
  obtain ⟨n, hn, hsuf⟩ := h
  exact ⟨n, hn, (List.suffix_cons p l).trans hsuf⟩

/-- **Whoever stands on a cell of a list reads that cell and the cells behind it.** -/
theorem suffixAt_of_hasRest {f : HashEnv K} {m : Multimap K V} (hm : m.Regular f)
    {p : MultimapPair K V} {l : List (MultimapPair K V)} (h : m.HasRest (p :: l)) :
    m.suffixAt p.addr = p :: l := by
  obtain ⟨n, hn, pre, hpre⟩ := h
  have hp : p ∈ n.pairs := hpre ▸ List.mem_append_right _ (List.mem_cons_self ..)
  have hinj : ∀ q ∈ m.pairs, q.addr = p.addr → q = p := fun q hq heq =>
    List.inj_on_of_nodup_map hm.nodup hq (mem_pairs_iff.mpr ⟨n, hn, hp⟩) heq
  have hfind : (m.hashTab.nodes.find? fun n => n.pairs.any fun q => q.addr == p.addr) =
      some n := by
    cases hf : m.hashTab.nodes.find? fun n => n.pairs.any fun q => q.addr == p.addr with
    | none =>
      have hno := List.find?_eq_none.mp hf n hn
      exact absurd (List.any_eq_true.mpr ⟨p, hp, by simp⟩) hno
    | some n' =>
      have hn' := List.mem_of_find?_eq_some hf
      have hany := List.find?_some hf
      obtain ⟨q, hq, heq⟩ := List.any_eq_true.mp hany
      have hqp : q = p := hinj q (mem_pairs_iff.mpr ⟨n', hn', hq⟩) (by simpa using heq)
      rw [hm.node_unique hn' hn (hqp ▸ hq) hp]
  have hnodup : (n.pairs.map MultimapPair.addr).Nodup := by
    refine hm.nodup.sublist (List.Sublist.map _ ?_)
    rw [Multimap.pairs, HashMap.pairs, List.flatMap_def]
    exact List.sublist_flatten_of_mem (List.mem_map_of_mem hn)
  rw [Multimap.suffixAt, hfind]
  show (n.pairs.dropWhile fun q => q.addr != p.addr) = p :: l
  rw [← hpre, List.dropWhile_append_of_pos, List.dropWhile_cons_of_neg (by simp)]
  intro q hq
  rw [← hpre, List.map_append, List.nodup_append] at hnodup
  have hne := hnodup.2.2 q.addr (List.mem_map_of_mem hq) p.addr (by simp)
  simpa using hne

/-- New cells go to the front: what remains of a list remains. -/
theorem hasRest_insert {f : HashEnv K} {m m' : Multimap K V} {key : K} {val : V} {r : Bool}
    (h0 : 0 < m.hashTab.tableSz) (h : multimapInsert f m key val = .ok (r, m'))
    {l : List (MultimapPair K V)} (hl : m.HasRest l) : m'.HasRest l := by
  obtain ⟨n, hn, hsuf⟩ := hl
  obtain ⟨n', hn', -, hsuf'⟩ := exists_node_insert h0 h hn
  exact ⟨n', hn', hsuf.trans hsuf'⟩

/-- **What remains of a list after a deletion**: all of it, or what is left when the
cells of the value are taken out. -/
theorem hasRest_delete {f : HashEnv K} {compareVal : V → V → ℤ} {m : Multimap K V} {key : K}
    {val : V} {l : List (MultimapPair K V)}
    (hne : (l.filter fun p => !(compareVal val p.val == 0)) ≠ []) (hl : m.HasRest l) :
    (multimapDelete f compareVal m key val).2.HasRest l ∨
      (multimapDelete f compareVal m key val).2.HasRest
        (l.filter fun p => !(compareVal val p.val == 0)) := by
  obtain ⟨n, hn, hsuf⟩ := hl
  have hfilter : (l.filter fun p => !(compareVal val p.val == 0)) <:+
      (n.data.kept compareVal val).list := hsuf.filter _
  rcases multimapDelete_cases f compareVal m key val with
    ⟨-, hd⟩ | ⟨node, i, hl, hp, hk, hd⟩ | ⟨node, i, hl, hp, -, hd⟩
  · rw [hd]
    exact Or.inl ⟨n, hn, hsuf⟩
  · obtain ⟨j, hj, rfl⟩ := hashLookup_eq_some hl
    obtain rfl : j = i := Option.some.inj (hj.symm.trans hp)
    rw [hd]
    rcases (mem_nodes_iff_unlink hp).mp hn with rfl | hrest
    · rw [hk] at hfilter
      exact absurd (List.suffix_nil.mp hfilter) hne
    · exact Or.inl ⟨n, hrest, hsuf⟩
  · obtain ⟨j, hj, rfl⟩ := hashLookup_eq_some hl
    obtain rfl : j = i := Option.some.inj (hj.symm.trans hp)
    rw [hd]
    rcases (mem_nodes_iff_unlink hp).mp hn with rfl | hrest
    · exact Or.inr ⟨_, (mem_nodes_hashSetData hp).mpr (Or.inl rfl), hfilter⟩
    · exact Or.inl ⟨n, (mem_nodes_hashSetData hp).mpr (Or.inr hrest), hsuf⟩

/-! ## Runs of operations about one value -/

/-- The operation stores or deletes the value `val`. -/
def MultimapOp.OnValue (val : V) : MultimapOp K V → Prop
  | .insert _ v => v = val
  | .delete _ v => v = val
  | .deleteAll _ => False

/-- **What remains of a list after operations about one value**: all of it, or what
is left when the cells of the value are taken out. -/
theorem hasRest_run {f : HashEnv K} (hf : Equivalence f.Same) {compareVal : V → V → ℤ}
    {m m' : Multimap K V} {ops : List (MultimapOp K V)} {val : V}
    (hops : ∀ op ∈ ops, op.OnValue val) {l : List (MultimapPair K V)}
    (hne : (l.filter fun p => !(compareVal val p.val == 0)) ≠ []) (hm : m.Regular f)
    (hl : m.HasRest l ∨ m.HasRest (l.filter fun p => !(compareVal val p.val == 0)))
    (h : Runs.run (multimapStep f compareVal) m ops = .ok m') :
    m'.HasRest l ∨ m'.HasRest (l.filter fun p => !(compareVal val p.val == 0)) := by
  induction ops generalizing m with
  | nil =>
    rw [Runs.run_nil] at h
    exact Except.ok.inj h ▸ hl
  | cons op ops ih =>
    cases hstep : multimapStep f compareVal m op with
    | error e =>
      rw [Runs.run_cons_error hstep] at h
      exact absurd h (by simp)
    | ok m₁ =>
      rw [Runs.run_cons_ok hstep] at h
      refine ih (fun o ho => hops o (List.mem_cons_of_mem _ ho)) (regular_step hf hm hstep) ?_ h
      have hop := hops op (List.mem_cons_self ..)
      cases op with
      | insert key v =>
        obtain ⟨⟨r, m''⟩, hins, rfl⟩ := map_eq_ok hstep
        exact hl.imp (hasRest_insert hm.placed.size_pos hins)
          (hasRest_insert hm.placed.size_pos hins)
      | delete key v =>
        obtain rfl := Except.ok.inj hstep
        obtain rfl : v = val := hop
        rcases hl with hl | hl
        · exact hasRest_delete hne hl
        · have hidem : ((l.filter fun p => !(compareVal v p.val == 0)).filter
              fun p => !(compareVal v p.val == 0)) =
              l.filter fun p => !(compareVal v p.val == 0) := by simp [List.filter_filter]
          exact Or.inr ((hasRest_delete (by rwa [hidem]) hl).elim id fun hrest => hidem ▸ hrest)
      | deleteAll key => exact hop.elim

/-- An operation fails only in a growth. -/
theorem multimapStep_error {f : HashEnv K} {compareVal : V → V → ℤ} {m : Multimap K V}
    {op : MultimapOp K V} {e : Fault} (h : multimapStep f compareVal m op = .error e) :
    e = .assertion ∨ e = .endlessLoop := by
  cases op with
  | insert key val => exact hashResize_error (multimapInsert_error (map_eq_error h)).2
  | delete key val => exact absurd h (by simp [multimapStep])
  | deleteAll key => exact absurd h (by simp [multimapStep])

end NetCosm
