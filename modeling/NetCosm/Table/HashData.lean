import NetCosm.Table.HashRefinement

/-!
# Tables do not look at their data

No operation of `hash.c` looks at a datum.  So if two tables differ only in that the
data of one are the images of the data of the other, under any function `g`, then so
do the tables after any operation: `m.mapData g` is the table with the images, and
each operation commutes with it.

This is what lets a table whose data are lists and a table whose data are pointers to
those lists be followed together.
-/

namespace NetCosm

universe u v w

variable {K : Type u} {D : Type v} {D' : Type w}

/-- The node with the image of its datum. -/
def HashNode.mapData (g : D → D') (n : HashNode K D) : HashNode K D' := ⟨n.key, g n.data⟩

/-- The table with the images of its data. -/
def HashMap.mapData (g : D → D') (m : HashMap K D) : HashMap K D' where
  table := m.table.map (List.map (HashNode.mapData g))
  nEntries := m.nEntries
  usedBuckets := m.usedBuckets

variable (f : HashEnv K) (g : D → D') (m : HashMap K D)

@[simp] theorem tableSz_mapData : (m.mapData g).tableSz = m.tableSz := List.length_map ..

@[simp] theorem chain_mapData (b : ℕ) :
    (m.mapData g).chain b = (m.chain b).map (HashNode.mapData g) := by
  simp only [HashMap.chain, Buckets.chain, HashMap.mapData, List.getD_eq_getElem?_getD,
    List.getElem?_map]
  cases m.table[b]? <;> rfl

@[simp] theorem nodes_mapData : (m.mapData g).nodes = m.nodes.map (HashNode.mapData g) :=
  List.map_flatten.symm

@[simp] theorem mapData_fresh (sz : ℕ) :
    (HashMap.fresh sz : HashMap K D).mapData g = HashMap.fresh sz := by
  simp [HashMap.mapData, HashMap.fresh]

@[simp] theorem pos_mapData (key : K) : (m.mapData g).pos f key = m.pos f key := by
  rw [HashMap.pos, HashMap.pos, tableSz_mapData, chain_mapData, List.findIdx?_map]
  rfl

@[simp] theorem hashLookup_mapData (key : K) :
    hashLookup f (m.mapData g) key = (hashLookup f m key).map g := by
  rw [hashLookup, hashLookup, tableSz_mapData, chain_mapData, List.find?_map, Option.map_map,
    Option.map_map]
  rfl

@[simp] theorem stored_mapData : (m.mapData g).stored = m.stored := by
  rw [HashMap.stored, nodes_mapData, List.length_map, HashMap.stored]

variable {f m} in
theorem HashMap.WellPlaced.mapData (hm : m.WellPlaced f) : (m.mapData g).WellPlaced f where
  size_pos := (tableSz_mapData g m).symm ▸ hm.size_pos
  placed b n hn := by
    rw [chain_mapData] at hn
    obtain ⟨n', hn', rfl⟩ := List.mem_map.mp hn
    rw [tableSz_mapData]
    exact hm.placed b n' hn'
  distinct b := by
    rw [chain_mapData]
    exact List.pairwise_map.mpr (hm.distinct b)

theorem setChain_mapData (b : ℕ) (c : List (HashNode K D)) :
    (m.mapData g).setChain b (c.map (HashNode.mapData g)) = (m.setChain b c).mapData g := by
  simp only [HashMap.setChain, HashMap.mapData, List.map_set]

theorem hashSetData_mapData (key : K) (d : D) :
    hashSetData f (m.mapData g) key (g d) = (hashSetData f m key d).mapData g := by
  unfold hashSetData
  dsimp only
  rw [pos_mapData, tableSz_mapData, chain_mapData]
  cases m.pos f key with
  | none => rfl
  | some i =>
    dsimp only
    rw [← setChain_mapData]
    congr 1
    refine List.ext_getElem? fun j => ?_
    simp only [List.getElem?_modify, List.getElem?_map]
    by_cases hij : i = j <;> cases (m.chain (f.bucket key m.tableSz))[j]? <;>
      simp [hij, HashNode.mapData]

theorem unlink_mapData (b i : ℕ) : unlink (m.mapData g) b i = (unlink m b i).mapData g := by
  rw [unlink, chain_mapData, List.eraseIdx_map, setChain_mapData]
  rfl

theorem hashRemove_mapData (key : K) :
    hashRemove f (m.mapData g) key =
      ((hashRemove f m key).1.map (HashNode.mapData g), (hashRemove f m key).2.mapData g) := by
  unfold hashRemove
  dsimp only
  rw [pos_mapData, tableSz_mapData, chain_mapData]
  cases m.pos f key with
  | none => rfl
  | some i =>
    dsimp only
    rw [List.getElem?_map, unlink_mapData]
    rfl

/-! ## Insertion and growth -/

theorem appendNode_mapData (key : K) (d : D) (hash : ℕ) :
    appendNode (m.mapData g) key (g d) hash = (appendNode m key d hash).mapData g := by
  rw [appendNode, chain_mapData, List.isEmpty_map]
  simp only [HashMap.mapData, appendNode, List.map_set, List.map_append]
  rfl

theorem growsAt_mapData (key : K) (d : D) (hash : ℕ) :
    growsAt (m.mapData g) key (g d) hash = growsAt m key d hash := by
  rw [growsAt, growsAt, appendNode_mapData, chain_mapData, List.isEmpty_map, overloaded,
    overloaded, tableSz_mapData]
  rfl

theorem relinkNode_mapData (n : HashNode K D) :
    relinkNode f (m.mapData g) (n.mapData g) = (relinkNode f m n).mapData g := by
  simp only [relinkNode, tableSz_mapData, chain_mapData, List.isEmpty_map]
  simp only [HashMap.mapData, List.map_set, List.map_cons]
  rfl

theorem relinkAll_mapData (newSz : ℕ) :
    relinkAll f (m.mapData g) newSz = (relinkAll f m newSz).mapData g := by
  suffices h : ∀ (ns : List (HashNode K D)) (m : HashMap K D),
      (ns.map (HashNode.mapData g)).foldl (relinkNode f) (m.mapData g) =
        (ns.foldl (relinkNode f) m).mapData g by
    rw [relinkAll, nodes_mapData, ← mapData_fresh g newSz, h]
    rfl
  intro ns
  induction ns with
  | nil => intro m; rfl
  | cons n ns ih =>
    intro m
    rw [List.map_cons, List.foldl_cons, List.foldl_cons, relinkNode_mapData, ih]

theorem hashResize_mapData (newSz : ℕ) :
    hashResize f (m.mapData g) newSz =
      (hashResize f m newSz).map fun r => (r.1, r.2.mapData g) := by
  unfold hashResize
  dsimp only
  rw [tableSz_mapData, relinkAll_mapData]
  split
  · rfl
  · split
    · rfl
    · show (if f.asserts && m.nEntries != (relinkAll f m newSz).nEntries then _ else _) = _
      split <;> rfl

theorem hashInternalInsertNew_mapData (key : K) (d : D) (hash : ℕ) :
    hashInternalInsertNew f (m.mapData g) key (g d) hash =
      (hashInternalInsertNew f m key d hash).map (HashMap.mapData g) := by
  rw [hashInternalInsertNew_eq, hashInternalInsertNew_eq, growsAt_mapData, appendNode_mapData,
    hashResize_mapData, tableSz_mapData]
  split
  · cases hashResize f (appendNode m key d hash) (m.tableSz * 2) <;> rfl
  · rfl

/-- **An insertion commutes with taking images.** -/
theorem hashInsert_mapData (key : K) (d : D) :
    hashInsert f (m.mapData g) key (g d) =
      (hashInsert f m key d).map fun r => (r.1.map g, r.2.mapData g) := by
  unfold hashInsert
  rw [hashLookup_mapData, tableSz_mapData, hashInternalInsertNew_mapData]
  cases hashLookup f m key with
  | some d' => rfl
  | none => cases hashInternalInsertNew f m key d (f.bucket key m.tableSz) <;> rfl

end NetCosm
