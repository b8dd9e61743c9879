import NetCosm.Library.LinkedCells
import NetCosm.Table.HashData
import NetCosm.Table.MultimapCells

/-!
# Multimaps whose lists lie in a store

Here a node of a multimap is what it is in `multimap.c`: a pointer to the first cell of its
list, and the number of pairs.  The cells lie in a store that several maps may share, and
the functions walk them pointer by pointer: `freeList` is the loop of `free_node`,
`deleteLoop` that of `multimap_delete`, `dupLoop` that of `dup_node`.  Following a
pointer to a cell that has been freed is `Fault.useAfterFree`.

The loops run with a bound on their rounds, and the bound they are given is the number of
addresses the store has handed out.  A list without a cycle is never longer than that.

## Two levels

`Multimap` has its lists as values.  `m.stored` is the map with pointers in place of these
lists, and `LaidOut σ m` says that the store holds the lists of `m` where the pointers
say.  The theorems `storedInsert_refines`, `storedDelete_refines` and
`storedDeleteAll_refines` say that on laid out maps the functions on the store do what the
functions on values do, and which cells of the store they touch.
-/

namespace NetCosm

universe u v

variable {K : Type u} {V : Type v}

/-- The cells of lists of pairs. -/
abbrev PairStore (K : Type u) (V : Type v) := Cells (K × V)

/-- `struct multimap_node`, its list a pointer. -/
structure StoredNode where
  list : Option ℕ
  nPairs : ℕ
  deriving DecidableEq, Repr

/-- `struct multimap_t`, its lists in a store. -/
structure StoredMap (K : Type u) where
  hashTab : HashMap K StoredNode
  totalPairs : ℕ
  refcount : UInt32
  deriving DecidableEq

/-! ## The loops over a list -/

/-- What a caller reads who walks a list. -/
def readList (σ : PairStore K V) : ℕ → Option ℕ → Except Fault (List (ℕ × K × V))
  | _, none => .ok []
  | 0, some _ => .error .endlessLoop
  | n + 1, some a =>
      match σ.cell a with
      | none => .error .useAfterFree
      | some c => (readList σ n c.2).map fun l => (a, c.1) :: l

/-- The loop of `free_node`. -/
def freeList : ℕ → PairStore K V → Option ℕ → Except Fault (PairStore K V)
  | _, σ, none => .ok σ
  | 0, _, some _ => .error .endlessLoop
  | n + 1, σ, some a =>
      match σ.cell a with
      | none => .error .useAfterFree
      | some c => freeList n (σ.free a) c.2

/-- `free_node`. -/
def freeNode (σ : PairStore K V) (node : StoredNode) : Except Fault (PairStore K V) :=
  freeList σ.fresh σ node.list

/-- The loop of `multimap_delete`: the store, the node, and the number of pairs deleted. -/
def deleteLoop (compareVal : V → V → ℤ) (val : V) :
    ℕ → PairStore K V → StoredNode → Option ℕ → Option ℕ → ℕ →
      Except Fault (PairStore K V × StoredNode × ℕ)
  | _, σ, node, _, none, deleted => .ok (σ, node, deleted)
  | 0, _, _, _, some _, _ => .error .endlessLoop
  | n + 1, σ, node, last, some iter, deleted =>
      match σ.cell iter with
      | none => .error .useAfterFree
      | some c =>
          if compareVal val c.1.2 = 0 then
            match last with
            | some l =>
                deleteLoop compareVal val n ((σ.link l c.2).free iter)
                  ⟨node.list, node.nPairs - 1⟩ last c.2 (deleted + 1)
            | none =>
                deleteLoop compareVal val n (σ.free iter) ⟨c.2, node.nPairs - 1⟩ none c.2
                  (deleted + 1)
          else deleteLoop compareVal val n σ node (some iter) c.2 deleted

/-- The loop of `dup_node`: the store, and the list of the new node.  Each round allocates a
copy of the cell it visits; the pointers that are written, that of the new node and those
of the copies, are set to the cell visited and not to its copy. -/
def dupLoop :
    ℕ → PairStore K V → Option ℕ → Option ℕ → Option ℕ → Except Fault (PairStore K V × Option ℕ)
  | _, σ, list, _, none => .ok (σ, list)
  | 0, _, _, _, some _ => .error .endlessLoop
  | n + 1, σ, list, last, some iter =>
      match σ.cell iter with
      | none => .error .useAfterFree
      | some c =>
          match last with
          | none => dupLoop n (σ.alloc c.1 c.2) (some iter) (some σ.fresh) c.2
          | some l => dupLoop n ((σ.alloc c.1 c.2).link l (some iter)) list (some σ.fresh) c.2

/-- `dup_node`. -/
def dupNode (σ : PairStore K V) (node : StoredNode) :
    Except Fault (PairStore K V × StoredNode) :=
  (dupLoop σ.fresh σ node.list none node.list).map fun r => (r.1, ⟨r.2, node.nPairs⟩)

/-! ## The functions of `multimap.c` -/

/-- `multimap_lookup`, and the list a caller reads from the pointer it gets. -/
def lookupView (f : HashEnv K) (σ : PairStore K V) (m : StoredMap K) (key : K) :
    Except Fault (List (ℕ × K × V) × ℕ) :=
  match hashLookup f m.hashTab key with
  | some node => (readList σ σ.fresh node.list).map fun l => (l, node.nPairs)
  | none => .ok ([], 0)

/-- The lists and numbers of pairs that the calls of `multimap_iterate` return. -/
def iterateView (σ : PairStore K V) (m : StoredMap K) :
    Except Fault (List (List (ℕ × K × V) × ℕ)) :=
  m.hashTab.nodes.mapM fun n => (readList σ σ.fresh n.data.list).map fun l => (l, n.data.nPairs)

/-- `multimap_insert`. -/
def storedInsert (f : HashEnv K) (m : StoredMap K) (σ : PairStore K V) (key : K) (val : V) :
    Except Fault (Bool × StoredMap K × PairStore K V) :=
  let m' := { m with totalPairs := m.totalPairs + 1 }
  match hashLookup f m.hashTab key with
  | none =>
      (hashInsert f m.hashTab key ⟨some σ.fresh, 1⟩).map fun r =>
        (true, { m' with hashTab := r.2 }, σ.alloc (key, val) none)
  | some node =>
      .ok (false, { m' with
        hashTab := hashSetData f m.hashTab key ⟨some σ.fresh, node.nPairs + 1⟩ },
        σ.alloc (key, val) node.list)

/-- `multimap_delete`.  A node left without pairs is taken out of the table, and
`free_node` is called on it. -/
def storedDelete (f : HashEnv K) (compareVal : V → V → ℤ) (m : StoredMap K) (σ : PairStore K V)
    (key : K) (val : V) : Except Fault (ℕ × StoredMap K × PairStore K V) :=
  match hashLookup f m.hashTab key with
  | none => .ok (0, m, σ)
  | some node => do
      let r ← deleteLoop compareVal val σ.fresh σ node none node.list 0
      let m' := { m with totalPairs := m.totalPairs - r.2.2 }
      match hashGetInternalNode f m.hashTab key with
      | some internal =>
          if r.2.1.nPairs = 0 then do
            let σ' ← freeNode r.1 r.2.1
            return (r.2.2, { m' with hashTab := hashDelInternalNode m.hashTab internal }, σ')
          else
            return (r.2.2, { m' with hashTab := hashSetData f m.hashTab key r.2.1 }, r.1)
      | none => return (r.2.2, m', r.1)

/-- `multimap_delete_all`. -/
def storedDeleteAll (f : HashEnv K) (m : StoredMap K) (σ : PairStore K V) (key : K) :
    Except Fault (ℕ × StoredMap K × PairStore K V) :=
  match hashLookup f m.hashTab key with
  | none => .ok (0, m, σ)
  | some node =>
      (freeNode σ node).map fun σ' => (node.nPairs, { m with
        totalPairs := m.totalPairs - node.nPairs
        hashTab := (hashRemove f m.hashTab key).2 }, σ')

/-- `multimap_dup`. -/
def storedDup (m : StoredMap K) : StoredMap K := { m with refcount := m.refcount + 1 }

/-- `multimap_free`: nothing is left of the map when its last reference goes.  The loop of
`hash_free` comes around to buckets it has freed when there are too many. -/
def storedFree (m : StoredMap K) (σ : PairStore K V) :
    Except Fault (Option (StoredMap K) × PairStore K V) :=
  if m.refcount - 1 = 0 then
    if unsignedRange ≤ m.hashTab.tableSz then
      .error (if m.hashTab.nodes.isEmpty then .endlessLoop else .useAfterFree)
    else ((hashFree m.hashTab).foldlM (fun σ n => freeNode σ n.data) σ).map fun σ' => (none, σ')
  else .ok (some { m with refcount := m.refcount - 1 }, σ)

/-- One round of the loop of `hash_dup`, called by `multimap_copy`. -/
def copyNodeInto (f : HashEnv K) (s : HashMap K StoredNode × PairStore K V)
    (n : HashNode K StoredNode) : Except Fault (HashMap K StoredNode × PairStore K V) := do
  let r ← dupNode s.2 n.data
  (hashInsert f s.1 n.key r.2).map fun t => (t.2, r.1)

/-- `multimap_copy`.  The pass over the copy that sets the back pointers of its nodes ends,
like that over the original, only if there are not too many buckets. -/
def storedCopy (f : HashEnv K) (m : StoredMap K) (σ : PairStore K V) :
    Except Fault (StoredMap K × PairStore K V) :=
  if unsignedRange ≤ m.hashTab.tableSz then .error .endlessLoop
  else do
    let r ← Runs.run (copyNodeInto f) (HashMap.fresh m.hashTab.tableSz, σ) m.hashTab.nodes
    if unsignedRange ≤ r.1.tableSz then .error .endlessLoop
    else return (⟨r.1, m.totalPairs, 1⟩, r.2)

/-! ## What the loops do -/

open Cells

theorem readList_of_seg {σ : PairStore K V} {p : Option ℕ} {l : List (ℕ × K × V)}
    (h : Seg σ p l none) {n : ℕ} (hn : l.length ≤ n) : readList σ n p = .ok l := by
  induction l generalizing p n with
  | nil =>
    obtain rfl : p = none := h
    cases n <;> rfl
  | cons x l ih =>
    obtain ⟨rfl, next, hcell, hrest⟩ := h
    cases n with
    | zero => exact absurd hn (by simp)
    | succ n =>
      rw [readList, hcell]
      dsimp only
      rw [ih hrest (by simpa using hn)]
      rfl

/-- Whoever reads a list to its end has met live cells only. -/
theorem live_of_readList {σ : PairStore K V} {n : ℕ} {p : Option ℕ} {l : List (ℕ × K × V)}
    (h : readList σ n p = .ok l) {x : ℕ × K × V} (hx : x ∈ l) : σ.cell x.1 ≠ none := by
  induction n generalizing p l with
  | zero =>
    cases p with
    | none =>
      obtain rfl : [] = l := Except.ok.inj h
      exact absurd hx (by simp)
    | some a => exact absurd h (by simp [readList])
  | succ n ih =>
    cases p with
    | none =>
      obtain rfl : [] = l := Except.ok.inj h
      exact absurd hx (by simp)
    | some a =>
      rw [readList] at h
      cases hcell : σ.cell a with
      | none => exact absurd h (by simp [hcell])
      | some c =>
        rw [hcell] at h
        obtain ⟨rest, hrest, rfl⟩ := map_eq_ok h
        rcases List.mem_cons.mp hx with rfl | hx'
        · simp [hcell]
        · exact ih hrest hx'

/-- **`free_node` frees the cells of the list** and nothing else. -/
theorem freeList_of_seg {σ : PairStore K V} {p : Option ℕ} {l : List (ℕ × K × V)}
    (h : Seg σ p l none) (hnodup : (l.map Prod.fst).Nodup) {n : ℕ} (hn : l.length ≤ n) :
    ∃ σ', freeList n σ p = .ok σ' ∧ σ'.fresh = σ.fresh ∧
      ∀ a, σ'.cell a = if a ∈ l.map Prod.fst then none else σ.cell a := by
  induction l generalizing p n σ with
  | nil =>
    obtain rfl : p = none := h
    exact ⟨σ, by cases n <;> rfl, rfl, fun a => by simp⟩
  | cons x l ih =>
    obtain ⟨rfl, next, hcell, hrest⟩ := h
    rw [List.map_cons, List.nodup_cons] at hnodup
    cases n with
    | zero => exact absurd hn (by simp)
    | succ n =>
      have hrest' : Seg (σ.free x.1) next l none := hrest.congr fun y hy =>
        cell_free_ne fun heq => hnodup.1 (List.mem_map.mpr ⟨y, hy, heq⟩)
      obtain ⟨σ', hfree, hfresh, hcells⟩ := ih hrest' hnodup.2 (by simpa using hn)
      refine ⟨σ', ?_, hfresh, fun a => ?_⟩
      · rw [freeList, hcell]
        exact hfree
      · rw [hcells, List.map_cons]
        by_cases hax : a = x.1
        · subst hax
          simp [cell_free_self]
        · rw [cell_free_ne hax]
          simp only [List.mem_cons, hax, false_or]

/-- Freeing a list whose cells are not all live is not possible. -/
theorem freeList_of_dead {σ : PairStore K V} {a : ℕ} (h : σ.cell a = none) (n : ℕ)
    (σ' : PairStore K V) : freeList n σ (some a) ≠ .ok σ' := by
  cases n with
  | zero => simp [freeList]
  | succ n => simp [freeList, h]

/-- A list begins where its first cell is. -/
theorem Cells.Seg.head {σ : PairStore K V} {p : Option ℕ} {l : List (ℕ × K × V)}
    (h : Seg σ p l none) : p = l.head?.map Prod.fst := by
  cases l with
  | nil => exact h
  | cons x l => exact h.1

/-- What the loop of `multimap_delete` leaves, for a list `l` of which the cells that
satisfy `q` go. -/
structure Unlinked (q : V → Bool) (σ σ' : PairStore K V) (l : List (ℕ × K × V)) : Prop where
  fresh : σ'.fresh = σ.fresh
  other : ∀ a, a ∉ l.map Prod.fst → σ'.cell a = σ.cell a
  freed : ∀ x ∈ l, q x.2.2 = true → σ'.cell x.1 = none
  /-- A set of cells that holds, with a cell of the list, all cells behind it, is not touched
  if none of them is freed. -/
  spared : ∀ S : Set ℕ, l.Pairwise (fun x y => x.1 ∈ S → y.1 ∈ S) →
    (∀ x ∈ l, q x.2.2 = true → x.1 ∉ S) → ∀ a ∈ S, σ'.cell a = σ.cell a

/-- **The round of `multimap_delete` that frees a cell.**  `pre` are the cells kept so far,
and `x` is the cell visited. -/
theorem deleteLoop_frees {compareVal : V → V → ℤ} {val : V} {σ : PairStore K V}
    {node : StoredNode} {pre : List (ℕ × K × V)} {x : ℕ × K × V} {next : Option ℕ}
    (hpre : Seg σ node.list pre (some x.1)) (hcell : σ.cell x.1 = some (x.2, next))
    (hnodup : (pre.map Prod.fst).Nodup) (hxpre : ∀ y ∈ pre, y.1 ≠ x.1)
    (hq : compareVal val x.2.2 = 0) (n deleted : ℕ) :
    ∃ σ₁ head₁,
      deleteLoop compareVal val (n + 1) σ node (pre.getLast?.map Prod.fst) (some x.1) deleted =
        deleteLoop compareVal val n σ₁ ⟨head₁, node.nPairs - 1⟩ (pre.getLast?.map Prod.fst) next
          (deleted + 1) ∧
      Seg σ₁ head₁ pre next ∧ σ₁.fresh = σ.fresh ∧ σ₁.cell x.1 = none ∧
      (∀ a, a ∉ pre.map Prod.fst → a ≠ x.1 → σ₁.cell a = σ.cell a) ∧
      (∀ S : Set ℕ, (∀ y ∈ pre, y.1 ∈ S → x.1 ∈ S) → x.1 ∉ S →
        ∀ a ∈ S, σ₁.cell a = σ.cell a) := by
  rcases List.eq_nil_or_concat pre with rfl | ⟨pre', y, rfl⟩
  · -- the head of the list
    refine ⟨σ.free x.1, next, ?_, rfl, rfl, cell_free_self σ _, fun a _ ha => cell_free_ne ha,
      fun S _ hx a ha => cell_free_ne ?_⟩
    · simp only [List.getLast?_nil, Option.map_none, deleteLoop, hcell, if_pos hq]
    · exact fun heq => hx (heq ▸ ha)
  · rw [List.concat_eq_append] at hpre hxpre hnodup ⊢
    have hy : y.1 ∉ pre'.map Prod.fst := by
      rw [List.map_append, List.nodup_append] at hnodup
      exact fun hmem => hnodup.2.2 y.1 hmem y.1 (by simp) rfl
    refine ⟨(σ.link y.1 next).free x.1, node.list, ?_, ?_, rfl, cell_free_self _ _,
      fun a ha hax => ?_, fun S hS hx a ha => ?_⟩
    · simp only [List.getLast?_concat, Option.map_some, deleteLoop, hcell, if_pos hq]
    · exact (hpre.relink hy next).congr fun z hz => cell_free_ne (hxpre z hz)
    · rw [cell_free_ne hax, cell_link_ne]
      rintro rfl
      exact ha (by simp)
    · have hay : a ≠ y.1 := fun heq => hx (hS y (by simp) (heq ▸ ha))
      have hax : a ≠ x.1 := fun heq => hx (heq ▸ ha)
      rw [cell_free_ne hax, cell_link_ne hay]

/-- The rounds that are left of the loop of `multimap_delete`, when it has kept the cells
`pre` and still has to visit `rest`. -/
theorem deleteLoop_of_seg (compareVal : V → V → ℤ) (val : V) {σ : PairStore K V}
    (node : StoredNode) (deleted : ℕ) (pre : List (ℕ × K × V)) {rest : List (ℕ × K × V)}
    {iter : Option ℕ} {n : ℕ}
    (hpre : Seg σ node.list pre iter) (hrest : Seg σ iter rest none)
    (hnodup : ((pre ++ rest).map Prod.fst).Nodup)
    (hkept : ∀ x ∈ pre, (compareVal val x.2.2 == 0) = false) (hn : rest.length ≤ n) :
    ∃ σ' head,
      deleteLoop compareVal val n σ node (pre.getLast?.map Prod.fst) iter deleted =
        .ok (σ', ⟨head, node.nPairs - (rest.filter fun x => compareVal val x.2.2 == 0).length⟩,
          deleted + (rest.filter fun x => compareVal val x.2.2 == 0).length) ∧
      Seg σ' head (pre ++ rest.filter fun x => !(compareVal val x.2.2 == 0)) none ∧
      Unlinked (fun v => compareVal val v == 0) σ σ' (pre ++ rest) := by
  induction rest generalizing σ node deleted pre iter n with
  | nil =>
    obtain rfl : iter = none := hrest
    refine ⟨σ, node.list, ?_, by simpa using hpre, rfl, fun _ _ => rfl, fun x hx hq => ?_,
      fun _ _ _ _ _ => rfl⟩
    · cases n <;> simp [deleteLoop]
    · rw [List.append_nil] at hx
      exact absurd hq (by simp [hkept x hx])
  | cons x rest ih =>
    obtain ⟨rfl, next, hcell, hrest⟩ := hrest
    have hxpre : ∀ y ∈ pre, y.1 ≠ x.1 := by
      intro y hy heq
      rw [List.map_append, List.nodup_append] at hnodup
      exact hnodup.2.2 y.1 (List.mem_map_of_mem hy) x.1 (by simp) heq
    have hxrest : ∀ y ∈ rest, y.1 ≠ x.1 := by
      intro y hy heq
      rw [List.map_append, List.map_cons, List.nodup_append, List.nodup_cons] at hnodup
      exact hnodup.2.1.1 (List.mem_map.mpr ⟨y, hy, heq⟩)
    cases n with
    | zero => exact absurd hn (by simp)
    | succ n =>
      have hn' : rest.length ≤ n := by simpa using hn
      have hnodup' : ((pre ++ rest).map Prod.fst).Nodup := by
        refine hnodup.sublist ?_
        exact ((List.Sublist.refl pre).append (List.sublist_cons_self x rest)).map Prod.fst
      by_cases hq : compareVal val x.2.2 = 0
      · -- the cell goes; what is left is described by a store without it
        have hnodup₀ : (pre.map Prod.fst).Nodup := by
          rw [List.map_append, List.nodup_append] at hnodup'
          exact hnodup'.1
        obtain ⟨σ₁, head₁, hloop, hseg₁, hfresh₁, hdead, hother₁, hspared₁⟩ :=
          deleteLoop_frees hpre hcell hnodup₀ hxpre hq n deleted
        have hrest₁ : Seg σ₁ next rest none := by
          refine hrest.congr fun y hy => hother₁ y.1 (fun hmem => ?_) (hxrest y hy)
          rw [List.map_append, List.nodup_append] at hnodup'
          exact hnodup'.2.2 y.1 hmem y.1 (List.mem_map_of_mem hy) rfl
        obtain ⟨σ', head, hrun, hseg, hunlinked⟩ := ih
          ⟨head₁, node.nPairs - 1⟩ (deleted + 1) pre hseg₁ hrest₁ hnodup' hkept hn'
        have hfilter : (x :: rest).filter (fun x => compareVal val x.2.2 == 0) =
            x :: rest.filter fun x => compareVal val x.2.2 == 0 :=
          List.filter_cons_of_pos (by simp [hq])
        have hfilter' : (x :: rest).filter (fun x => !(compareVal val x.2.2 == 0)) =
            rest.filter fun x => !(compareVal val x.2.2 == 0) :=
          List.filter_cons_of_neg (by simp [hq])
        refine ⟨σ', head, ?_, by rwa [hfilter'], hunlinked.fresh.trans hfresh₁, fun a ha => ?_,
          fun y hy hqy => ?_, fun S hS hfree a ha => ?_⟩
        · rw [hloop, hrun, hfilter, List.length_cons, Nat.sub_sub, Nat.add_comm 1, Nat.add_assoc,
            Nat.add_comm 1]
        · simp only [List.map_append, List.map_cons, List.mem_append, List.mem_cons, not_or] at ha
          rw [hunlinked.other a (by simp [ha.1, ha.2.2]), hother₁ a ha.1 ha.2.1]
        · rcases List.mem_append.mp hy with hy | hy
          · exact hunlinked.freed y (List.mem_append_left _ hy) hqy
          · rcases List.mem_cons.mp hy with rfl | hy
            · rw [hunlinked.other y.1, hdead]
              rw [List.map_append, List.mem_append, not_or]
              refine ⟨fun hmem => ?_, fun hmem => ?_⟩
              · obtain ⟨z, hz, heq⟩ := List.mem_map.mp hmem
                exact hxpre z hz heq
              · obtain ⟨z, hz, heq⟩ := List.mem_map.mp hmem
                exact hxrest z hz heq
            · exact hunlinked.freed y (List.mem_append_right _ hy) hqy
        · have hpairs := List.pairwise_append.mp hS
          have hxS : x.1 ∉ S := hfree x (by simp) (by simp [hq])
          have hS' : (pre ++ rest).Pairwise fun x y => x.1 ∈ S → y.1 ∈ S :=
            hS.sublist ((List.Sublist.refl pre).append (List.sublist_cons_self x rest))
          rw [hunlinked.spared S hS' (fun y hy => hfree y ?_) a ha,
            hspared₁ S (fun y hy => hpairs.2.2 y hy x (by simp)) hxS a ha]
          rcases List.mem_append.mp hy with hy | hy
          · exact List.mem_append_left _ hy
          · exact List.mem_append_right _ (List.mem_cons_of_mem _ hy)
      · -- the cell stays, and is the last one kept
        have hseg' : Seg σ node.list (pre ++ [x]) next :=
          seg_append.mpr ⟨some x.1, hpre, rfl, next, hcell, rfl⟩
        have hassoc : pre ++ x :: rest = (pre ++ [x]) ++ rest := by simp
        obtain ⟨σ', head, hrun, hseg, hunlinked⟩ := ih node deleted (pre ++ [x])
          hseg' hrest (by rwa [← hassoc])
          (fun y hy => by
            rcases List.mem_append.mp hy with hy | hy
            · exact hkept y hy
            · rw [List.mem_singleton.mp hy]
              simpa using hq) hn'
        have hfilter : (x :: rest).filter (fun x => compareVal val x.2.2 == 0) =
            rest.filter fun x => compareVal val x.2.2 == 0 :=
          List.filter_cons_of_neg (by simp [hq])
        have hfilter' : (x :: rest).filter (fun x => !(compareVal val x.2.2 == 0)) =
            x :: rest.filter fun x => !(compareVal val x.2.2 == 0) :=
          List.filter_cons_of_pos (by simp [hq])
        refine ⟨σ', head, ?_, ?_, by rwa [hassoc]⟩
        · rw [hfilter, ← hrun, List.getLast?_concat]
          simp only [Option.map_some, deleteLoop, hcell, if_neg hq]
        · rw [hfilter']
          simpa using hseg

/-! ## The two levels -/

/-- A cell with its address, as the store has it. -/
def MultimapPair.item (p : MultimapPair K V) : ℕ × K × V := (p.addr, p.key, p.val)

/-- The node with a pointer to its list. -/
def MultimapNode.stored (node : MultimapNode K V) : StoredNode :=
  ⟨node.list.head?.map MultimapPair.addr, node.nPairs⟩

/-- The map with pointers to its lists. -/
def Multimap.stored (m : Multimap K V) : StoredMap K :=
  ⟨m.hashTab.mapData MultimapNode.stored, m.totalPairs, m.refcount⟩

/-- The store holds the lists of the map. -/
def Multimap.LaidOut (σ : PairStore K V) (m : Multimap K V) : Prop :=
  ∀ n ∈ m.hashTab.nodes, Seg σ n.data.stored.list (n.pairs.map MultimapPair.item) none

section TwoLevels

variable {f : HashEnv K} {m : Multimap K V} {σ : PairStore K V} {key : K} {val : V}

theorem map_fst_item (l : List (MultimapPair K V)) :
    (l.map MultimapPair.item).map Prod.fst = l.map MultimapPair.addr := by
  rw [List.map_map]
  rfl

theorem nodup_node_addrs (hm : m.Regular f) {n : HashNode K (MultimapNode K V)}
    (hn : n ∈ m.hashTab.nodes) : ((n.pairs.map MultimapPair.item).map Prod.fst).Nodup := by
  rw [map_fst_item]
  refine hm.nodup.sublist (List.Sublist.map _ ?_)
  rw [Multimap.pairs, HashMap.pairs, List.flatMap_def]
  exact List.sublist_flatten_of_mem (List.mem_map_of_mem hn)

/-- A list of a laid out map can be read. -/
theorem readList_of_node (hm : m.Regular f) (hl : m.LaidOut σ)
    {n : HashNode K (MultimapNode K V)} (hn : n ∈ m.hashTab.nodes) :
    readList σ σ.fresh n.data.stored.list = .ok (n.pairs.map MultimapPair.item) :=
  readList_of_seg (hl n hn) ((hl n hn).length_le_fresh (nodup_node_addrs hm hn))

theorem lookupView_stored (hm : m.Regular f) (hl : m.LaidOut σ) (key : K) :
    lookupView f σ m.stored key =
      .ok ((multimapLookup f m key).1.map MultimapPair.item, (multimapLookup f m key).2) := by
  have htab : m.stored.hashTab = m.hashTab.mapData MultimapNode.stored := rfl
  rw [lookupView, htab, hashLookup_mapData, multimapLookup]
  cases hlook : hashLookup f m.hashTab key with
  | none => rfl
  | some node =>
    obtain ⟨i, hp, rfl⟩ := hashLookup_eq_some hlook
    have hread := readList_of_node hm hl ((mem_nodes_iff_unlink hp).mpr (Or.inl rfl))
    simp only [Option.map_some, hread]
    rfl

/-- A loop that never fails collects what its rounds return. -/
theorem mapM_eq_ok {α β : Type*} {g : α → Except Fault β} {h : α → β} {l : List α}
    (hg : ∀ x ∈ l, g x = .ok (h x)) : l.mapM g = .ok (l.map h) := by
  induction l with
  | nil => rfl
  | cons x l ih =>
    rw [List.mapM_cons, hg x (List.mem_cons_self ..),
      ih fun y hy => hg y (List.mem_cons_of_mem x hy)]
    rfl

/-- What a loop collects comes from its rounds. -/
theorem exists_of_mapM_eq_ok {α : Type*} {β : Type u} {g : α → Except Fault β} {l : List α}
    {r : List β} (h : l.mapM g = .ok r) {y : β} (hy : y ∈ r) : ∃ x ∈ l, g x = .ok y := by
  induction l generalizing r with
  | nil =>
    obtain rfl : [] = r := Except.ok.inj h
    exact absurd hy (by simp)
  | cons x l ih =>
    rw [List.mapM_cons] at h
    obtain ⟨z, hz, h⟩ := bind_eq_ok h
    obtain ⟨r', hr', h⟩ := bind_eq_ok h
    obtain rfl := Except.ok.inj h
    rcases List.mem_cons.mp hy with rfl | hy'
    · exact ⟨x, List.mem_cons_self .., hz⟩
    · obtain ⟨x', hx', hg⟩ := ih hr' hy'
      exact ⟨x', List.mem_cons_of_mem _ hx', hg⟩

theorem iterateView_stored (hm : m.Regular f) (hl : m.LaidOut σ) :
    iterateView σ m.stored =
      .ok (m.hashTab.nodes.map fun n => (n.pairs.map MultimapPair.item, n.data.nPairs)) := by
  have hnodes : m.stored.hashTab.nodes =
      m.hashTab.nodes.map (HashNode.mapData MultimapNode.stored) := nodes_mapData ..
  rw [iterateView, hnodes, mapM_eq_ok (h := fun n : HashNode K StoredNode =>
    ((readList σ σ.fresh n.data.list).toOption.getD [], n.data.nPairs))]
  · rw [List.map_map]
    refine congrArg Except.ok (List.map_congr_left fun n hn => ?_)
    have hread := readList_of_node hm hl hn
    simp only [Function.comp, HashNode.mapData, hread]
    rfl
  · intro n' hn'
    obtain ⟨n, hn, rfl⟩ := List.mem_map.mp hn'
    have hread := readList_of_node hm hl hn
    simp only [HashNode.mapData, hread]
    rfl

/-- The map stays laid out if its cells do not change. -/
theorem Multimap.LaidOut.congr {σ' : PairStore K V} (hl : m.LaidOut σ)
    (h : ∀ p ∈ m.pairs, σ'.cell p.addr = σ.cell p.addr) : m.LaidOut σ' := by
  refine fun n hn => (hl n hn).congr fun x hx => ?_
  obtain ⟨p, hp, rfl⟩ := List.mem_map.mp hx
  exact h p (mem_pairs_iff.mpr ⟨n, hn, hp⟩)

/-- The pointer a lookup returns. -/
def Multimap.listPtr (f : HashEnv K) (m : Multimap K V) (key : K) : Option ℕ :=
  (multimapLookup f m key).1.head?.map MultimapPair.addr

variable (key val) in
/-- **`multimap_insert` on the store** does what it does on values, and allocates one
cell. -/
theorem storedInsert_refines (hfresh : m.fresh = σ.fresh) (hm : m.Regular f)
    (hl : m.LaidOut σ) :
    storedInsert f m.stored σ key val =
        (multimapInsert f m key val).map (fun r =>
          (r.1, r.2.stored, σ.alloc (key, val) (m.listPtr f key))) ∧
      ∀ r m', multimapInsert f m key val = .ok (r, m') →
        m'.LaidOut (σ.alloc (key, val) (m.listPtr f key)) := by
  have htab : m.stored.hashTab = m.hashTab.mapData MultimapNode.stored := rfl
  have hsingle : (MultimapNode.single (m.newPair key val)).stored = ⟨some σ.fresh, 1⟩ := by
    rw [← hfresh]
    rfl
  have hold : ∀ n ∈ m.hashTab.nodes, Seg (σ.alloc (key, val) (m.listPtr f key))
      n.data.stored.list (n.pairs.map MultimapPair.item) none :=
    hl.congr fun p hp => cell_alloc_of_lt (hfresh ▸ hm.below p hp)
  constructor
  · rw [storedInsert, htab, hashLookup_mapData, multimapInsert, Multimap.listPtr, multimapLookup]
    cases hlook : hashLookup f m.hashTab key with
    | none =>
      simp only [Option.map_none]
      rw [← hsingle, hashInsert_mapData]
      simp only [Multimap.newPair]
      cases hashInsert f m.hashTab key (MultimapNode.single ⟨m.fresh, key, val⟩) <;> rfl
    | some node =>
      simp only [Option.map_some]
      have hpush : (⟨some σ.fresh, node.stored.nPairs + 1⟩ : StoredNode) =
          (node.push (m.newPair key val)).stored := by
        rw [← hfresh]
        rfl
      rw [hpush, hashSetData_mapData]
      rfl
  · intro r m' hins n' hn'
    rcases multimapInsert_ok hins with ⟨node, hlook, -, rfl⟩ | ⟨tab, hlook, -, hnew, rfl⟩
    · obtain ⟨i, hp, rfl⟩ := hashLookup_eq_some hlook
      have hptr : m.listPtr f key = (HashMap.nodeAt hp).data.stored.list := by
        rw [Multimap.listPtr, multimapLookup, hlook]
        rfl
      rcases (mem_nodes_hashSetData hp).mp hn' with rfl | hrest
      · refine ⟨rfl, m.listPtr f key, ?_, ?_⟩
        · rw [MultimapPair.item, Multimap.newPair]
          simp only [hfresh]
          exact cell_alloc_self ..
        · rw [hptr]
          exact hptr ▸ hold _ ((mem_nodes_iff_unlink hp).mpr (Or.inl rfl))
      · exact hold n' ((mem_nodes_iff_unlink hp).mpr (Or.inr hrest))
    · have hptr : m.listPtr f key = none := by
        rw [Multimap.listPtr, multimapLookup, hlook]
        rfl
      rcases mem_nodes_insert hm.placed.size_pos hins hn' with hmem | rfl | ⟨n, hn, hs, rfl⟩
      · exact hold n' hmem
      · refine ⟨rfl, none, ?_, rfl⟩
        rw [MultimapPair.item, Multimap.newPair, hptr]
        simp only [hfresh]
        exact cell_alloc_self ..
      · exact absurd hs (hashLookup_eq_none hlook hn)

/-- The nodes that are left when the node of a key is unlinked stay laid out, if only cells
of that node change. -/
theorem laidOut_unlink {i : ℕ} (hm : m.Regular f) (hl : m.LaidOut σ)
    (hp : m.hashTab.pos f key = some i) (σ' : PairStore K V)
    (hcell : ∀ a, a ∉ (HashMap.nodeAt hp).pairs.map MultimapPair.addr → σ'.cell a = σ.cell a) :
    ∀ n ∈ (unlink m.hashTab (f.bucket key m.hashTab.tableSz) i).nodes,
      Seg σ' n.data.stored.list (n.pairs.map MultimapPair.item) none := by
  intro n hn
  refine (hl n ((mem_nodes_iff_unlink hp).mpr (Or.inr hn))).congr fun x hx => hcell x.1 ?_
  obtain ⟨p, hpn, rfl⟩ := List.mem_map.mp hx
  intro hmem
  have hperm : (HashMap.nodeAt hp :: (unlink m.hashTab (f.bucket key m.hashTab.tableSz) i).nodes).Perm
      m.hashTab.nodes := perm_nodes_unlink m.hashTab (pos_lt hp)
  have hnodup := (((hperm.flatMap_right HashNode.pairs).map MultimapPair.addr).nodup_iff).mpr
    hm.nodup
  rw [List.flatMap_cons, List.map_append, List.nodup_append] at hnodup
  exact hnodup.2.2 _ hmem p.addr
    (List.mem_map_of_mem (List.mem_flatMap.mpr ⟨n, hn, hpn⟩)) rfl

/-- The loop of `multimap_delete` on the node of a laid out map. -/
theorem deleteLoop_stored {i : ℕ} {node : MultimapNode K V} (hm : m.Regular f)
    (hl : m.LaidOut σ) (compareVal : V → V → ℤ) (val : V) (hp : m.hashTab.pos f key = some i)
    (hnode : (HashMap.nodeAt hp).data = node) :
    ∃ σ', deleteLoop compareVal val σ.fresh σ node.stored none node.stored.list 0 =
        .ok (σ', (node.kept compareVal val).stored, (node.deleted compareVal val).length) ∧
      Seg σ' (node.kept compareVal val).stored.list
        ((node.kept compareVal val).list.map MultimapPair.item) none ∧
      Unlinked (fun v => compareVal val v == 0) σ σ' (node.list.map MultimapPair.item) := by
  have hn : HashMap.nodeAt hp ∈ m.hashTab.nodes := (mem_nodes_iff_unlink hp).mpr (Or.inl rfl)
  have hseg := hl _ hn
  have hnodup := nodup_node_addrs hm hn
  rw [HashNode.pairs, hnode] at hseg hnodup
  obtain ⟨σ', head, hloop, hseg', hunlinked⟩ := deleteLoop_of_seg compareVal val
    node.stored 0 [] rfl hseg hnodup (by simp)
    (hseg.length_le_fresh hnodup)
  have hfreed : ((node.list.map MultimapPair.item).filter
      fun x => compareVal val x.2.2 == 0).length = (node.deleted compareVal val).length := by
    rw [List.filter_map, List.length_map]
    rfl
  have hkept : ((node.list.map MultimapPair.item).filter
      fun x => !(compareVal val x.2.2 == 0)) =
        (node.kept compareVal val).list.map MultimapPair.item := by
    rw [List.filter_map]
    rfl
  rw [List.nil_append, hkept] at hseg'
  have hhead : head = (node.kept compareVal val).stored.list := by
    rw [hseg'.head, List.head?_map, Option.map_map]
    rfl
  refine ⟨σ', ?_, hhead ▸ hseg', hunlinked⟩
  rw [hfreed, Nat.zero_add, hhead] at hloop
  exact hloop

variable (key val) in
/-- **`multimap_delete` on the store** does what it does on values, and unlinks the cells
that go. -/
theorem storedDelete_refines (hm : m.Regular f) (hl : m.LaidOut σ) (compareVal : V → V → ℤ) :
    ∃ σ', storedDelete f compareVal m.stored σ key val =
        .ok ((multimapDelete f compareVal m key val).1.length,
          (multimapDelete f compareVal m key val).2.stored, σ') ∧
      (multimapDelete f compareVal m key val).2.LaidOut σ' ∧
      Unlinked (fun v => compareVal val v == 0) σ σ'
        ((multimapLookup f m key).1.map MultimapPair.item) := by
  have htab : m.stored.hashTab = m.hashTab.mapData MultimapNode.stored := rfl
  cases hlook : hashLookup f m.hashTab key with
  | none =>
    have hlist : (multimapLookup f m key).1 = [] := by rw [multimapLookup, hlook]
    refine ⟨σ, ?_, ?_, ?_⟩
    · rw [storedDelete, htab, hashLookup_mapData, multimapDelete, hlook]
      rfl
    · rw [multimapDelete, hlook]
      exact hl
    · rw [hlist]
      exact ⟨rfl, fun _ _ => rfl, fun x hx => absurd hx (by simp), fun _ _ _ _ _ => rfl⟩
  | some node =>
    obtain ⟨i, hp, hnode⟩ := hashLookup_eq_some hlook
    have hlist : (multimapLookup f m key).1 = node.list := by rw [multimapLookup, hlook]
    obtain ⟨σ', hloop, hseg, hunlinked⟩ := deleteLoop_stored hm hl compareVal val hp hnode
    have hint : hashGetInternalNode f m.hashTab key =
        some ⟨f.bucket key m.hashTab.tableSz, i⟩ := by rw [hashGetInternalNode, hp]; rfl
    have hint' : hashGetInternalNode f m.stored.hashTab key =
        some ⟨f.bucket key m.hashTab.tableSz, i⟩ := by
      rw [hashGetInternalNode, htab, pos_mapData, tableSz_mapData, hp]
      rfl
    have hrest := laidOut_unlink hm hl hp σ' fun a ha =>
      hunlinked.other a (by rwa [map_fst_item, ← hnode])
    by_cases hz : (node.kept compareVal val).nPairs = 0
    · -- no pair is left, and the node goes
      have hnil : (node.kept compareVal val).list = [] := by
        rwa [(node.kept compareVal val).counted, List.length_eq_zero_iff] at hz
      have hdel : multimapDelete f compareVal m key val = (node.deleted compareVal val, { m with
          totalPairs := m.totalPairs - (node.deleted compareVal val).length
          hashTab := unlink m.hashTab (f.bucket key m.hashTab.tableSz) i }) := by
        simp only [multimapDelete, hlook, hint, if_pos hz]
        rfl
      have hfree : freeNode σ' (node.kept compareVal val).stored = .ok σ' := by
        rw [freeNode, MultimapNode.stored, hnil]
        cases σ'.fresh <;> rfl
      refine ⟨σ', ?_, ?_, by rwa [hlist]⟩
      · rw [hdel, storedDelete, htab, hashLookup_mapData, hlook, ← htab]
        simp only [Option.map_some, hloop, hint', bind, Except.bind, pure, Except.pure]
        rw [if_pos (by exact hz), hfree]
        simp only [hashDelInternalNode, htab, unlink_mapData]
        rfl
      · rw [hdel]
        exact hrest
    · -- the node keeps some pairs
      have hdel : multimapDelete f compareVal m key val = (node.deleted compareVal val, { m with
          totalPairs := m.totalPairs - (node.deleted compareVal val).length
          hashTab := hashSetData f m.hashTab key (node.kept compareVal val) }) := by
        simp only [multimapDelete, hlook, hint, if_neg hz]
      refine ⟨σ', ?_, ?_, by rwa [hlist]⟩
      · rw [hdel, storedDelete, htab, hashLookup_mapData, hlook, ← htab]
        simp only [Option.map_some, hloop, hint', bind, Except.bind, pure, Except.pure]
        rw [if_neg (by exact hz)]
        simp only [htab, hashSetData_mapData]
        rfl
      · rw [hdel]
        intro n' hn'
        rcases (mem_nodes_hashSetData hp).mp hn' with rfl | hmem
        · exact hseg
        · exact hrest n' hmem

variable (key) in
/-- **`multimap_delete_all` on the store** does what it does on values, and frees the cells
of the list. -/
theorem storedDeleteAll_refines (hm : m.Regular f) (hl : m.LaidOut σ) :
    ∃ σ', storedDeleteAll f m.stored σ key =
        .ok ((multimapDeleteAll f m key).1.length, (multimapDeleteAll f m key).2.stored, σ') ∧
      (multimapDeleteAll f m key).2.LaidOut σ' ∧ σ'.fresh = σ.fresh ∧
      ∀ a, σ'.cell a =
        if a ∈ (multimapLookup f m key).1.map MultimapPair.addr then none else σ.cell a := by
  have htab : m.stored.hashTab = m.hashTab.mapData MultimapNode.stored := rfl
  cases hlook : hashLookup f m.hashTab key with
  | none =>
    have hlist : (multimapLookup f m key).1 = [] := by rw [multimapLookup, hlook]
    refine ⟨σ, ?_, ?_, rfl, fun a => by simp [hlist]⟩
    · rw [storedDeleteAll, htab, hashLookup_mapData, multimapDeleteAll, hlook]
      rfl
    · rw [multimapDeleteAll, hlook]
      exact hl
  | some node =>
    obtain ⟨i, hp, hnode⟩ := hashLookup_eq_some hlook
    have hn : HashMap.nodeAt hp ∈ m.hashTab.nodes := (mem_nodes_iff_unlink hp).mpr (Or.inl rfl)
    have hlist : (multimapLookup f m key).1 = node.list := by rw [multimapLookup, hlook]
    have hseg := hl _ hn
    have hnodup := nodup_node_addrs hm hn
    rw [HashNode.pairs, hnode] at hseg hnodup
    obtain ⟨σ', hfree, hfresh, hcell⟩ :=
      freeList_of_seg hseg hnodup (hseg.length_le_fresh hnodup)
    rw [map_fst_item] at hcell
    have hdel : multimapDeleteAll f m key = (node.list, { m with
        totalPairs := m.totalPairs - node.nPairs
        hashTab := { unlink m.hashTab (f.bucket key m.hashTab.tableSz) i with
          nEntries := m.hashTab.nEntries - 1 } }) := by
      simp only [multimapDeleteAll, hlook, hashRemove, hp]
    refine ⟨σ', ?_, ?_, hfresh, by rwa [hlist]⟩
    · rw [storedDeleteAll, htab, hashLookup_mapData, hlook, hashRemove_mapData]
      simp only [Option.map_some, freeNode, hfree]
      rw [hdel, ← node.counted, hashRemove, hp]
      rfl
    · rw [hdel]
      exact laidOut_unlink hm hl hp _ fun a ha => by
        rw [hcell, if_neg (by rwa [HashNode.pairs, hnode] at ha)]

/-- **`multimap_free` on the store**, the last reference: all cells of the map are freed. -/
theorem freeNodes_stored {ns : List (HashNode K (MultimapNode K V))}
    (hl : ∀ n ∈ ns, Seg σ n.data.stored.list (n.pairs.map MultimapPair.item) none)
    (hnodup : ((ns.flatMap HashNode.pairs).map MultimapPair.addr).Nodup) :
    ∃ σ', (ns.map (HashNode.mapData MultimapNode.stored)).foldlM
        (fun σ n => freeNode σ n.data) σ = .ok σ' ∧ σ'.fresh = σ.fresh ∧
      ∀ a, σ'.cell a =
        if a ∈ (ns.flatMap HashNode.pairs).map MultimapPair.addr then none else σ.cell a := by
  induction ns generalizing σ with
  | nil => exact ⟨σ, rfl, rfl, fun a => by simp⟩
  | cons n ns ih =>
    rw [List.flatMap_cons, List.map_append, List.nodup_append] at hnodup
    have hseg := hl n (List.mem_cons_self ..)
    have hnodup' : ((n.pairs.map MultimapPair.item).map Prod.fst).Nodup := by
      rw [map_fst_item]
      exact hnodup.1
    obtain ⟨σ₁, hfree, hfresh₁, hcell₁⟩ :=
      freeList_of_seg hseg hnodup' (hseg.length_le_fresh hnodup')
    rw [map_fst_item] at hcell₁
    have hl₁ : ∀ n' ∈ ns, Seg σ₁ n'.data.stored.list (n'.pairs.map MultimapPair.item) none := by
      intro n' hn'
      refine (hl n' (List.mem_cons_of_mem n hn')).congr fun x hx => ?_
      obtain ⟨p, hp, rfl⟩ := List.mem_map.mp hx
      rw [hcell₁, if_neg]
      exact fun hmem => hnodup.2.2 _ hmem p.addr
        (List.mem_map_of_mem (List.mem_flatMap.mpr ⟨n', hn', hp⟩)) rfl
    obtain ⟨σ', hrun, hfresh, hcell⟩ := ih hl₁ hnodup.2.1
    refine ⟨σ', ?_, hfresh.trans hfresh₁, fun a => ?_⟩
    · rw [List.map_cons, List.foldlM_cons]
      have hstep : freeNode σ (n.mapData MultimapNode.stored).data = .ok σ₁ := hfree
      rw [hstep]
      exact hrun
    · rw [hcell, hcell₁, List.flatMap_cons, List.map_append]
      by_cases h₁ : a ∈ (ns.flatMap HashNode.pairs).map MultimapPair.addr
      · rw [if_pos h₁, if_pos (List.mem_append_right _ h₁)]
      · rw [if_neg h₁]
        simp only [List.mem_append, h₁, or_false]

end TwoLevels

end NetCosm
