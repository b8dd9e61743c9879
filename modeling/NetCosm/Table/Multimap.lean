import NetCosm.Table.Hash

/-!
# The multimap of `multimap.c`

A multimap is a hash table whose data are nodes, and a node is the list of the
pairs stored under one key together with their number.  All pairs whose keys
compare equal share a node; the key of the node is the key of the pair that was
inserted first, whether or not that pair is still there.

## Cells have addresses

A caller of `multimap_lookup` holds a pointer into the list and goes on using it
while it inserts and deletes.  Whether such a pointer is still good cannot be read
off the keys and values, so every cell carries the address it was allocated at.
Addresses are handed out in order and never twice: `free` followed by `calloc` may
hand out a number again, but not the identity of the cell, and it is the identity
that a stale pointer is about.

## What is returned

`n_pairs` is a field of the node, and the node says that it is right: the
functions that change a list have to prove that they keep it so.  The callbacks
that free data are not called here.  Deletions return the cells they free, in the
order they free them, and a caller with callbacks installed applies them.
-/

namespace NetCosm

universe u v

variable {K : Type u} {V : Type v}

/-- `struct multimap_list`, one cell of a list; `next` is the cell behind it. -/
structure MultimapPair (K : Type u) (V : Type v) where
  addr : ℕ
  key : K
  val : V
  deriving DecidableEq, Repr

/-- `struct multimap_node`: the pairs under one key, and their number. -/
structure MultimapNode (K : Type u) (V : Type v) where
  list : List (MultimapPair K V)
  nPairs : ℕ
  /-- `n_pairs` is the number of pairs. -/
  counted : nPairs = list.length
  deriving DecidableEq

/-- `struct multimap_t`. -/
structure Multimap (K : Type u) (V : Type v) where
  hashTab : HashMap K (MultimapNode K V)
  totalPairs : ℕ
  refcount : UInt32
  /-- The next address a cell is allocated at. -/
  fresh : ℕ
  deriving DecidableEq

/-- The node of a key inserted for the first time. -/
def MultimapNode.single (p : MultimapPair K V) : MultimapNode K V := ⟨[p], 1, rfl⟩

/-- The node with a cell in front. -/
def MultimapNode.push (p : MultimapPair K V) (node : MultimapNode K V) : MultimapNode K V :=
  ⟨p :: node.list, node.nPairs + 1, by rw [node.counted, List.length_cons]⟩

/-- The cells the loop of `multimap_delete` frees. -/
def MultimapNode.deleted (compareVal : V → V → ℤ) (val : V) (node : MultimapNode K V) :
    List (MultimapPair K V) :=
  node.list.filter fun p => compareVal val p.val == 0

/-- The node the loop of `multimap_delete` leaves: the other cells, in their order,
and `n_pairs` counted down once for every cell freed. -/
def MultimapNode.kept (compareVal : V → V → ℤ) (val : V) (node : MultimapNode K V) :
    MultimapNode K V where
  list := node.list.filter fun p => !(compareVal val p.val == 0)
  nPairs := node.nPairs - (node.deleted compareVal val).length
  counted := by
    have h := List.length_eq_length_filter_add (l := node.list)
      fun p => compareVal val p.val == 0
    rw [node.counted, MultimapNode.deleted]
    omega

/-- `multimap_init`. -/
def multimapInit (sz : ℕ) : Multimap K V where
  hashTab := hashInit sz
  totalPairs := 0
  refcount := 1
  fresh := 0

/-- `multimap_lookup`: the list of the key's node and the number of its pairs. -/
def multimapLookup (f : HashEnv K) (m : Multimap K V) (key : K) :
    List (MultimapPair K V) × ℕ :=
  match hashLookup f m.hashTab key with
  | some node => (node.list, node.nPairs)
  | none => ([], 0)

/-- `multimap_insert`: whether there was no other pair with the key, and the map
with the pair in front. -/
def multimapInsert (f : HashEnv K) (m : Multimap K V) (key : K) (val : V) :
    Except Fault (Bool × Multimap K V) :=
  let p : MultimapPair K V := ⟨m.fresh, key, val⟩
  let m' := { m with totalPairs := m.totalPairs + 1, fresh := m.fresh + 1 }
  match hashLookup f m.hashTab key with
  | none =>
      (hashInsert f m.hashTab key (MultimapNode.single p)).map fun r =>
        (true, { m' with hashTab := r.2 })
  | some node => .ok (false, { m' with hashTab := hashSetData f m.hashTab key (node.push p) })

/-- `multimap_delete`: the cells freed.  A node left without pairs is taken out of
the table through the pointers `hash_get_internal_node` found before the loop. -/
def multimapDelete (f : HashEnv K) (compareVal : V → V → ℤ) (m : Multimap K V) (key : K)
    (val : V) : List (MultimapPair K V) × Multimap K V :=
  match hashLookup f m.hashTab key with
  | none => ([], m)
  | some node =>
      let freed := node.deleted compareVal val
      let node' := node.kept compareVal val
      let m' := { m with totalPairs := m.totalPairs - freed.length }
      match hashGetInternalNode f m.hashTab key with
      | some internal =>
          if node'.nPairs = 0 then
            (freed, { m' with hashTab := hashDelInternalNode m.hashTab internal })
          else (freed, { m' with hashTab := hashSetData f m.hashTab key node' })
      | none => (freed, m')

/-- `multimap_delete_all`: the cells `free_node` frees. -/
def multimapDeleteAll (f : HashEnv K) (m : Multimap K V) (key : K) :
    List (MultimapPair K V) × Multimap K V :=
  match hashLookup f m.hashTab key with
  | none => ([], m)
  | some node =>
      (node.list, { m with
        totalPairs := m.totalPairs - node.nPairs
        hashTab := (hashRemove f m.hashTab key).2 })

/-- `multimap_size`. -/
def multimapSize (m : Multimap K V) : ℕ := m.totalPairs

/-- The operations on a multimap. -/
inductive MultimapOp (K : Type u) (V : Type v) where
  | insert (key : K) (val : V)
  | delete (key : K) (val : V)
  | deleteAll (key : K)

/-- One operation, keeping the map only. -/
def multimapStep (f : HashEnv K) (compareVal : V → V → ℤ) (m : Multimap K V) :
    MultimapOp K V → Except Fault (Multimap K V)
  | .insert key val => (multimapInsert f m key val).map Prod.snd
  | .delete key val => .ok (multimapDelete f compareVal m key val).2
  | .deleteAll key => .ok (multimapDeleteAll f m key).2

/-- The pairs under one node. -/
def HashNode.pairs (n : HashNode K (MultimapNode K V)) : List (MultimapPair K V) := n.data.list

@[simp] theorem HashNode.pairs_mk (key : K) (node : MultimapNode K V) :
    HashNode.pairs ⟨key, node⟩ = node.list := rfl

/-- Every pair in a table of lists. -/
def HashMap.pairs (m : HashMap K (MultimapNode K V)) : List (MultimapPair K V) :=
  m.nodes.flatMap HashNode.pairs

namespace Multimap

/-- Every pair in the map. -/
def pairs (m : Multimap K V) : List (MultimapPair K V) := m.hashTab.pairs

/-- The cell the next insertion allocates. -/
def newPair (m : Multimap K V) (key : K) (val : V) : MultimapPair K V := ⟨m.fresh, key, val⟩

/-- The table with the node of a new key in it, before `hash_internal_insert_new`
considers growing. -/
def inserted (f : HashEnv K) (m : Multimap K V) (key : K) (val : V) :
    HashMap K (MultimapNode K V) :=
  appendNode m.hashTab key (MultimapNode.single (m.newPair key val))
    (f.bucket key m.hashTab.tableSz)

/-- The operation makes the table grow: it inserts a new key in an empty bucket of
a table that is then overloaded. -/
def grows (f : HashEnv K) (m : Multimap K V) : MultimapOp K V → Bool
  | .insert key val =>
      (hashLookup f m.hashTab key).isNone &&
        growsAt m.hashTab key (MultimapNode.single (m.newPair key val))
          (f.bucket key m.hashTab.tableSz)
  | _ => false

end Multimap

/-! ## What the operations can do to the table -/

/-- A lookup finds the datum at the key's position. -/
theorem hashLookup_eq_some {D : Type v} {f : HashEnv K} {m : HashMap K D} {key : K} {d : D}
    (h : hashLookup f m key = some d) :
    ∃ i, ∃ hp : m.pos f key = some i, (HashMap.nodeAt hp).data = d := by
  obtain ⟨n, hn, rfl⟩ := Option.map_eq_some_iff.mp h
  obtain ⟨hs, i, hi, heq, hbefore⟩ := List.find?_eq_some_iff_getElem.mp hn
  subst heq
  refine ⟨i, ?_, rfl⟩
  rw [HashMap.pos, List.findIdx?_eq_some_iff_getElem]
  exact ⟨hi, hs, fun j hj => by simpa using hbefore j hj⟩

/-- **What an insertion does to the table.**  It either puts the new cell in front
of the list it finds, or inserts a new node with this one cell. -/
theorem multimapInsert_ok {f : HashEnv K} {m m' : Multimap K V} {key : K} {val : V} {r : Bool}
    (h : multimapInsert f m key val = .ok (r, m')) :
    (∃ node, hashLookup f m.hashTab key = some node ∧ r = false ∧
        m' = { m with
          totalPairs := m.totalPairs + 1
          fresh := m.fresh + 1
          hashTab := hashSetData f m.hashTab key (node.push (m.newPair key val)) }) ∨
      (∃ tab, hashLookup f m.hashTab key = none ∧ r = true ∧
        hashInternalInsertNew f m.hashTab key (MultimapNode.single (m.newPair key val))
          (f.bucket key m.hashTab.tableSz) = .ok tab ∧
        m' = { m with
          totalPairs := m.totalPairs + 1
          fresh := m.fresh + 1
          hashTab := tab }) := by
  unfold multimapInsert at h
  cases hl : hashLookup f m.hashTab key with
  | some node =>
    rw [hl] at h
    obtain ⟨rfl, rfl⟩ := Prod.mk.inj (Except.ok.inj h)
    exact Or.inl ⟨node, rfl, rfl, rfl⟩
  | none =>
    rw [hl] at h
    obtain ⟨⟨d, tab⟩, hins, heq⟩ := map_eq_ok h
    obtain ⟨rfl, rfl⟩ := Prod.mk.inj heq
    rcases hashInsert_ok hins with ⟨hd, hne, -⟩ | ⟨-, -, hnew⟩
    · exact absurd (hd.trans hl) hne
    · exact Or.inr ⟨tab, rfl, rfl, hnew, rfl⟩

/-- An insertion fails only in a growth of the table. -/
theorem multimapInsert_error {f : HashEnv K} {m : Multimap K V} {key : K} {val : V} {e : Fault}
    (h : multimapInsert f m key val = .error e) :
    m.grows f (.insert key val) = true ∧
      hashResize f (m.inserted f key val) (m.hashTab.tableSz * 2) = .error e := by
  unfold multimapInsert at h
  cases hl : hashLookup f m.hashTab key with
  | some node => rw [hl] at h; exact absurd h (by simp)
  | none =>
    rw [hl] at h
    have h1 := map_eq_error h
    rw [hashInsert, hl] at h1
    have h2 := map_eq_error h1
    unfold hashInternalInsertNew at h2
    dsimp only at h2
    split at h2
    · rename_i hg
      rw [tableSz_appendNode] at h2
      refine ⟨?_, map_eq_error h2⟩
      rw [Multimap.grows, hl]
      exact hg
    · exact absurd h2 (by simp)

/-- **What a deletion does to the table.**  Nothing when the key is not there;
otherwise the cells whose value compares equal are freed, and the node goes when
none is left. -/
theorem multimapDelete_cases (f : HashEnv K) (compareVal : V → V → ℤ) (m : Multimap K V)
    (key : K) (val : V) :
    (hashLookup f m.hashTab key = none ∧ multimapDelete f compareVal m key val = ([], m)) ∨
      (∃ node i, hashLookup f m.hashTab key = some node ∧ m.hashTab.pos f key = some i ∧
        (node.kept compareVal val).list = [] ∧
        multimapDelete f compareVal m key val = (node.deleted compareVal val, { m with
          totalPairs := m.totalPairs - (node.deleted compareVal val).length
          hashTab := unlink m.hashTab (f.bucket key m.hashTab.tableSz) i })) ∨
      (∃ node i, hashLookup f m.hashTab key = some node ∧ m.hashTab.pos f key = some i ∧
        (node.kept compareVal val).list ≠ [] ∧
        multimapDelete f compareVal m key val = (node.deleted compareVal val, { m with
          totalPairs := m.totalPairs - (node.deleted compareVal val).length
          hashTab := hashSetData f m.hashTab key (node.kept compareVal val) })) := by
  cases hl : hashLookup f m.hashTab key with
  | none => exact Or.inl ⟨rfl, by simp [multimapDelete, hl]⟩
  | some node =>
    obtain ⟨i, hp, -⟩ := hashLookup_eq_some hl
    have hint : hashGetInternalNode f m.hashTab key =
        some ⟨f.bucket key m.hashTab.tableSz, i⟩ := by rw [hashGetInternalNode, hp]; rfl
    have hz : (node.kept compareVal val).nPairs = 0 ↔ (node.kept compareVal val).list = [] := by
      rw [(node.kept compareVal val).counted, List.length_eq_zero_iff]
    by_cases hk : (node.kept compareVal val).list = []
    · refine Or.inr (Or.inl ⟨node, i, rfl, hp, hk, ?_⟩)
      simp only [multimapDelete, hl, hint, if_pos (hz.mpr hk)]
      rfl
    · refine Or.inr (Or.inr ⟨node, i, rfl, hp, hk, ?_⟩)
      simp only [multimapDelete, hl, hint, if_neg (fun h => hk (hz.mp h))]

/-- What deleting a whole key does to the table. -/
theorem multimapDeleteAll_cases (f : HashEnv K) (m : Multimap K V) (key : K) :
    (hashLookup f m.hashTab key = none ∧ multimapDeleteAll f m key = ([], m)) ∨
      (∃ node i, hashLookup f m.hashTab key = some node ∧ m.hashTab.pos f key = some i ∧
        multimapDeleteAll f m key = (node.list, { m with
          totalPairs := m.totalPairs - node.nPairs
          hashTab := { unlink m.hashTab (f.bucket key m.hashTab.tableSz) i with
            nEntries := m.hashTab.nEntries - 1 } })) := by
  cases hl : hashLookup f m.hashTab key with
  | none => exact Or.inl ⟨rfl, by simp [multimapDeleteAll, hl]⟩
  | some node =>
    obtain ⟨i, hp, -⟩ := hashLookup_eq_some hl
    refine Or.inr ⟨node, i, rfl, hp, ?_⟩
    simp only [multimapDeleteAll, hl, hashRemove, hp]

/-! ## What happens to the pairs

Up to their order: an insertion adds one cell, at a fresh address, and a deletion
takes away the cells it returns.  This holds of every table, sound or not. -/

@[simp] theorem Multimap.pairs_init (sz : ℕ) : (multimapInit sz : Multimap K V).pairs = [] := by
  simp [Multimap.pairs, HashMap.pairs, multimapInit, hashInit]

/-- The pairs of a table, one node taken apart. -/
theorem perm_pairs_unlink {f : HashEnv K} {m : HashMap K (MultimapNode K V)} {key : K} {i : ℕ}
    {node : MultimapNode K V} (hl : hashLookup f m key = some node)
    (hp : m.pos f key = some i) :
    (node.list ++ (unlink m (f.bucket key m.tableSz) i).pairs).Perm m.pairs := by
  obtain ⟨j, hj, rfl⟩ := hashLookup_eq_some hl
  obtain rfl : j = i := Option.some.inj (hj.symm.trans hp)
  exact (perm_nodes_unlink m (pos_lt hp)).flatMap_right HashNode.pairs

/-- The pairs of a table in which one node has been written to. -/
theorem perm_pairs_hashSetData {f : HashEnv K} {m : HashMap K (MultimapNode K V)} {key : K} {i : ℕ}
    (hp : m.pos f key = some i) (node : MultimapNode K V) :
    (hashSetData f m key node).pairs.Perm
      (node.list ++ (unlink m (f.bucket key m.tableSz) i).pairs) :=
  (perm_nodes_hashSetData hp node).flatMap_right HashNode.pairs

/-- **The pairs after an insertion.** -/
theorem perm_pairs_insert {f : HashEnv K} {m m' : Multimap K V} {key : K} {val : V} {r : Bool}
    (h0 : 0 < m.hashTab.tableSz) (h : multimapInsert f m key val = .ok (r, m')) :
    m'.pairs.Perm (m.newPair key val :: m.pairs) ∧ m'.fresh = m.fresh + 1 := by
  rcases multimapInsert_ok h with ⟨node, hl, -, rfl⟩ | ⟨tab, -, -, hnew, rfl⟩
  · obtain ⟨i, hp, -⟩ := hashLookup_eq_some hl
    refine ⟨(perm_pairs_hashSetData hp _).trans ?_, rfl⟩
    exact (perm_pairs_unlink hl hp).cons _
  · have hb := f.bucket_lt key h0
    refine ⟨?_, rfl⟩
    rcases hashInternalInsertNew_ok h0 hnew with ⟨-, rfl⟩ | ⟨-, rfl⟩
    · exact (perm_nodes_appendNode m.hashTab hb key _).flatMap_right HashNode.pairs
    · have h2 : 0 < m.hashTab.tableSz * 2 := by omega
      have hrelink := perm_nodes_relinkAll f (appendNode m.hashTab key
        (MultimapNode.single (m.newPair key val)) (f.bucket key m.hashTab.tableSz)) h2
      exact (hrelink.trans (perm_nodes_appendNode m.hashTab hb key _)).flatMap_right HashNode.pairs

/-- **The pairs after a deletion.** -/
theorem perm_pairs_delete (f : HashEnv K) (compareVal : V → V → ℤ) (m : Multimap K V) (key : K)
    (val : V) :
    ((multimapDelete f compareVal m key val).1 ++
        (multimapDelete f compareVal m key val).2.pairs).Perm m.pairs ∧
      (multimapDelete f compareVal m key val).2.fresh = m.fresh := by
  have hsplit : ∀ node : MultimapNode K V,
      (node.deleted compareVal val ++ (node.kept compareVal val).list).Perm node.list :=
    fun node => List.filter_append_perm _ _
  rcases multimapDelete_cases f compareVal m key val with
    ⟨-, hd⟩ | ⟨node, i, hl, hp, hk, hd⟩ | ⟨node, i, hl, hp, -, hd⟩
  · rw [hd]
    exact ⟨List.Perm.refl _, rfl⟩
  · rw [hd]
    refine ⟨List.Perm.trans ?_ (perm_pairs_unlink hl hp), rfl⟩
    have h := hsplit node
    rw [hk, List.append_nil] at h
    exact h.append_right _
  · rw [hd]
    refine ⟨List.Perm.trans ?_ (perm_pairs_unlink hl hp), rfl⟩
    refine ((perm_pairs_hashSetData hp _).append_left _).trans ?_
    rw [← List.append_assoc]
    exact (hsplit node).append_right _

/-- The pairs after deleting a whole key. -/
theorem perm_pairs_deleteAll (f : HashEnv K) (m : Multimap K V) (key : K) :
    ((multimapDeleteAll f m key).1 ++ (multimapDeleteAll f m key).2.pairs).Perm m.pairs ∧
      (multimapDeleteAll f m key).2.fresh = m.fresh := by
  rcases multimapDeleteAll_cases f m key with ⟨-, hd⟩ | ⟨node, i, hl, hp, hd⟩
  · rw [hd]
    exact ⟨List.Perm.refl _, rfl⟩
  · rw [hd]
    exact ⟨perm_pairs_unlink hl hp, rfl⟩

end NetCosm
