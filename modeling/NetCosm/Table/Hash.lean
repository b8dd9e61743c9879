import NetCosm.Library.Buckets
import NetCosm.Library.Runs
import NetCosm.Machine

/-!
# The chained hash table of `hash.c`

A table is an array of chains and two counters, `n_entries` and `used_buckets`.
The counters are `size_t` and wrap; nothing ties them to the chains but the code
that updates them, so here they are fields of their own and not functions of the
table.

Chains are lists of nodes by value.  A C pointer to a node is the bucket of the
node and its position in the chain, and a pointer to the node before it is null
exactly when that position is `0`; this is how `hash_remove` and
`hash_del_internal_node` decide whether they are unlinking the head.

The two function pointers of a map never change after `hash_init`, so they are a
parameter (`HashEnv`) and not a field.  The callbacks that free keys and data are
not called here.  Instead each operation that lets go of a node returns it, and a
caller that has installed callbacks applies them to what it gets back.

## Tables with `2 ^ 32` buckets

`hash_resize`, `hash_iterate` and `hash_dump` walk the buckets with an `unsigned`
while the size of the table is a `size_t`.  With `2 ^ 32` buckets or more the walk of
`hash_resize` cannot reach its end: the model says so with `Fault.endlessLoop`,
rather than by bounding the size of a table.
-/

namespace NetCosm

universe u v

variable {K : Type u} {D : Type v}

/-- What a map is compiled and created with: its two function pointers, and
whether `assert` is compiled in. -/
structure HashEnv (K : Type u) where
  /-- `map->hash`. -/
  hash : K → UInt32
  /-- `map->compare`; the keys are the same exactly when the result is `0`. -/
  compare : K → K → ℤ
  /-- Whether `assert` is compiled in. -/
  asserts : Bool

namespace HashEnv

/-- The bucket of a key in a table with `sz` buckets. -/
def bucket (f : HashEnv K) (key : K) (sz : ℕ) : ℕ := (f.hash key).toNat % sz

/-- `compare` says the two keys are the same. -/
def Same (f : HashEnv K) (a b : K) : Prop := f.compare a b = 0

instance (f : HashEnv K) (a b : K) : Decidable (f.Same a b) :=
  inferInstanceAs (Decidable (_ = _))

theorem bucket_lt (f : HashEnv K) (key : K) {sz : ℕ} (h : 0 < sz) : f.bucket key sz < sz :=
  Nat.mod_lt _ h

end HashEnv

/-- A node of a chain. -/
structure HashNode (K : Type u) (D : Type v) where
  key : K
  data : D
  deriving DecidableEq, Repr

/-- A hash table: its buckets and the two counters. -/
structure HashMap (K : Type u) (D : Type v) where
  table : List (List (HashNode K D))
  nEntries : UInt64
  usedBuckets : UInt64
  deriving DecidableEq

namespace HashMap

/-- `table_sz`, the number of buckets. -/
def tableSz (m : HashMap K D) : ℕ := m.table.length

/-- The chain in bucket `b`. -/
def chain (m : HashMap K D) (b : ℕ) : List (HashNode K D) := Buckets.chain m.table b

/-- The table with the chain `c` in bucket `b`; the counters do not notice. -/
def setChain (m : HashMap K D) (b : ℕ) (c : List (HashNode K D)) : HashMap K D :=
  { m with table := m.table.set b c }

/-- Every node in the table, in the order `hash_iterate` hands them out. -/
def nodes (m : HashMap K D) : List (HashNode K D) := Buckets.items m.table

/-- The position in its bucket of the node `key` is compared equal to: the first
one the walk along the chain meets. -/
def pos (f : HashEnv K) (m : HashMap K D) (key : K) : Option ℕ :=
  (m.chain (f.bucket key m.tableSz)).findIdx? fun n => f.Same key n.key

/-- The keys the walk to `key` compares: those of the chain up to the first that is
the same. -/
def walked (f : HashEnv K) (m : HashMap K D) (key : K) : List K :=
  let c := (m.chain (f.bucket key m.tableSz)).map HashNode.key
  match m.pos f key with
  | some i => c.take (i + 1)
  | none => c

end HashMap

/-- A freshly allocated table of `sz` empty buckets. -/
def HashMap.fresh (sz : ℕ) : HashMap K D where
  table := List.replicate sz []
  nEntries := 0
  usedBuckets := 0

/-- `hash_init`: a size of `0` is taken to be `1`. -/
def hashInit (sz : ℕ) : HashMap K D := HashMap.fresh (if sz = 0 then 1 else sz)

/-! ## Reading -/

/-- `hash_lookup`: the datum of the node the key is compared equal to. -/
def hashLookup (f : HashEnv K) (m : HashMap K D) (key : K) : Option D :=
  ((m.chain (f.bucket key m.tableSz)).find? fun n => f.Same key n.key).map HashNode.data

/-- `hash_getkeyptr`: the key stored in that node. -/
def hashGetkeyptr (f : HashEnv K) (m : HashMap K D) (key : K) : Option K :=
  ((m.chain (f.bucket key m.tableSz)).find? fun n => f.Same key n.key).map HashNode.key

/-- `hash_size`. -/
def hashSize (m : HashMap K D) : UInt64 := m.nEntries

/-- The two counts `hash_dump` takes by walking the table: it counts the nodes up
from `0` and the used buckets down from the size of the table. -/
def hashDumpCounts (m : HashMap K D) : UInt64 × UInt64 :=
  m.table.foldl
    (fun c chain => (chain.foldl (fun n _ => n + 1) c.1, if chain.isEmpty then c.2 - 1 else c.2))
    (0, UInt64.ofNat m.tableSz)

/-- `hash_dump` prints `Map is sane.` -/
def hashDumpSane (m : HashMap K D) : Bool :=
  (hashDumpCounts m).1 == m.nEntries && (hashDumpCounts m).2 == m.usedBuckets

/-! ## Growing -/

/-- `RESIZE_THRESHOLD`, three quarters in the sixteen-bit fixed point of the load
factor. -/
def resizeThreshold : UInt64 := ((1 : UInt64) <<< 15) + ((1 : UInt64) <<< 14)

/-- The test `hash_internal_insert_new` makes after it has used up a bucket. -/
def overloaded (m : HashMap K D) : Bool :=
  resizeThreshold ≤ (m.usedBuckets <<< 16) / UInt64.ofNat m.tableSz

/-- The body of the loop of `hash_resize`, the "bare-bones insert" of one node of
the old table. -/
def relinkNode (f : HashEnv K) (m : HashMap K D) (node : HashNode K D) : HashMap K D :=
  let h := f.bucket node.key m.tableSz
  let old := m.chain h
  { table := m.table.set h (node :: old)
    usedBuckets := if old.isEmpty then m.usedBuckets + 1 else m.usedBuckets
    nEntries := m.nEntries + 1 }

/-- What the loop of `hash_resize` makes of the old table. -/
def relinkAll (f : HashEnv K) (m : HashMap K D) (newSz : ℕ) : HashMap K D :=
  m.nodes.foldl (relinkNode f) (HashMap.fresh newSz)

/-- `hash_resize`, for a nonzero new size. -/
def hashResize (f : HashEnv K) (m : HashMap K D) (newSz : ℕ) :
    Except Fault (Bool × HashMap K D) :=
  if newSz = m.tableSz then .ok (false, m)
  else if unsignedRange ≤ m.tableSz then .error .endlessLoop
  else
    let m' := relinkAll f m newSz
    if f.asserts && m.nEntries != m'.nEntries then .error .assertion
    else .ok (true, m')

/-- The table with a new node at the end of the chain of bucket `hash`, and the
counters as `hash_internal_insert_new` has left them before it considers
growing. -/
def appendNode (m : HashMap K D) (key : K) (data : D) (hash : ℕ) : HashMap K D where
  table := m.table.set hash (m.chain hash ++ [⟨key, data⟩])
  nEntries := m.nEntries + 1
  usedBuckets := if (m.chain hash).isEmpty then m.usedBuckets + 1 else m.usedBuckets

/-- `hash_internal_insert_new`: append the node, and double the table if the
bucket was empty and the table is now overloaded. -/
def hashInternalInsertNew (f : HashEnv K) (m : HashMap K D) (key : K) (data : D) (hash : ℕ) :
    Except Fault (HashMap K D) :=
  let m' := appendNode m key data hash
  if (m.chain hash).isEmpty && overloaded m' then
    (hashResize f m' (m'.tableSz * 2)).map Prod.snd
  else .ok m'

/-! ## Writing -/

/-- `hash_insert`: the datum already stored under the key, or none and the table
with the new pair. -/
def hashInsert (f : HashEnv K) (m : HashMap K D) (key : K) (data : D) :
    Except Fault (Option D × HashMap K D) :=
  match hashLookup f m key with
  | some d => .ok (some d, m)
  | none =>
      (hashInternalInsertNew f m key data (f.bucket key m.tableSz)).map fun m' => (none, m')

/-- `hash_overwrite`: the node whose key and datum were freed, if there was one,
and the table with the new pair in its place. -/
def hashOverwrite (f : HashEnv K) (m : HashMap K D) (key : K) (data : D) :
    Except Fault (Option (HashNode K D) × HashMap K D) :=
  let b := f.bucket key m.tableSz
  match m.pos f key with
  | some i =>
      .ok ((m.chain b)[i]?, m.setChain b ((m.chain b).set i ⟨key, data⟩))
  | none => (hashInternalInsertNew f m key data b).map fun m' => (none, m')

/-- Writing through the pointer `hash_lookup` returned: the datum of that node is
replaced and nothing else moves. -/
def hashSetData (f : HashEnv K) (m : HashMap K D) (key : K) (data : D) : HashMap K D :=
  let b := f.bucket key m.tableSz
  match m.pos f key with
  | some i => m.setChain b ((m.chain b).modify i fun n => { n with data := data })
  | none => m

/-- Take the node at position `i` of bucket `b` out of its chain.  Unlinking the
head counts the bucket as no longer used, whether or not the chain is empty
afterwards: this is what both callers do. -/
def unlink (m : HashMap K D) (b i : ℕ) : HashMap K D :=
  { m.setChain b ((m.chain b).eraseIdx i) with
    usedBuckets := if i = 0 then m.usedBuckets - 1 else m.usedBuckets }

/-- `hash_remove`: the node that was freed, if the key was there. -/
def hashRemove (f : HashEnv K) (m : HashMap K D) (key : K) :
    Option (HashNode K D) × HashMap K D :=
  let b := f.bucket key m.tableSz
  match m.pos f key with
  | some i => ((m.chain b)[i]?, { unlink m b i with nEntries := m.nEntries - 1 })
  | none => (none, m)

/-- The pointers of `struct hash_export_node`: the bucket, and the position of
`node` in it.  `last` is null exactly when the position is `0`. -/
structure HashExportNode where
  hash : ℕ
  pos : ℕ
  deriving DecidableEq, Repr

/-- `hash_get_internal_node`; none is the zeroed structure. -/
def hashGetInternalNode (f : HashEnv K) (m : HashMap K D) (key : K) : Option HashExportNode :=
  (m.pos f key).map fun i => ⟨f.bucket key m.tableSz, i⟩

/-- `hash_del_internal_node`.  Unlike `hash_remove` it leaves `n_entries` as it
is. -/
def hashDelInternalNode (m : HashMap K D) (node : HashExportNode) : HashMap K D :=
  unlink m node.hash node.pos

/-- `hash_dup`.  The copy is filled by iterating over the original, which stops at
the first null datum; `isNull` says which data are null and `dupData` is the
callback in force, the identity when none is set.  The iteration of a table with
too many buckets starts over instead of ending. -/
def hashDup (f : HashEnv K) (isNull : D → Bool) (dupData : D → D) (m : HashMap K D) :
    Except Fault (HashMap K D) :=
  if unsignedRange ≤ m.tableSz && m.nodes.all (fun n => !isNull n.data) then
    .error .endlessLoop
  else
    Runs.run (fun ret n => (hashInsert f ret n.key (dupData n.data)).map Prod.snd)
      (HashMap.fresh m.tableSz) (m.nodes.takeWhile fun n => !isNull n.data)

/-- `hash_free`: the nodes whose data and keys are freed, in that order. -/
def hashFree (m : HashMap K D) : List (HashNode K D) := m.nodes

/-! ## What the operations can do

Each operation that may stop is inverted once: from a call that returned to the
table it returned.  Later files split on these statements and never unfold the
operations themselves. -/

@[simp] theorem HashMap.tableSz_fresh (sz : ℕ) :
    (HashMap.fresh sz : HashMap K D).tableSz = sz := by
  simp [HashMap.tableSz, HashMap.fresh]

@[simp] theorem HashMap.nodes_fresh (sz : ℕ) :
    (HashMap.fresh sz : HashMap K D).nodes = [] := by
  simp [HashMap.nodes, HashMap.fresh]

@[simp] theorem HashMap.chain_fresh (sz b : ℕ) :
    (HashMap.fresh sz : HashMap K D).chain b = [] := by
  simp [HashMap.chain, HashMap.fresh]

theorem tableSz_hashInit_pos (sz : ℕ) : 0 < (hashInit sz : HashMap K D).tableSz := by
  rw [hashInit, HashMap.tableSz_fresh]
  split <;> omega

@[simp] theorem tableSz_appendNode (m : HashMap K D) (key : K) (data : D) (hash : ℕ) :
    (appendNode m key data hash).tableSz = m.tableSz := by
  simp [appendNode, HashMap.tableSz]

@[simp] theorem tableSz_setChain (m : HashMap K D) (b : ℕ) (c : List (HashNode K D)) :
    (m.setChain b c).tableSz = m.tableSz := by
  simp [HashMap.setChain, HashMap.tableSz]

@[simp] theorem tableSz_hashSetData (f : HashEnv K) (m : HashMap K D) (key : K) (data : D) :
    (hashSetData f m key data).tableSz = m.tableSz := by
  unfold hashSetData
  split <;> simp

@[simp] theorem nEntries_hashSetData (f : HashEnv K) (m : HashMap K D) (key : K) (data : D) :
    (hashSetData f m key data).nEntries = m.nEntries := by
  unfold hashSetData
  split <;> rfl

@[simp] theorem tableSz_unlink (m : HashMap K D) (b i : ℕ) :
    (unlink m b i).tableSz = m.tableSz := by
  simp [unlink, HashMap.setChain, HashMap.tableSz]

@[simp] theorem tableSz_relinkNode (f : HashEnv K) (m : HashMap K D) (n : HashNode K D) :
    (relinkNode f m n).tableSz = m.tableSz := by
  simp [relinkNode, HashMap.tableSz]

/-- The loop of `hash_resize` deals the nodes of the old table into the new one. -/
theorem table_relinkAll (f : HashEnv K) (m : HashMap K D) (newSz : ℕ) :
    (relinkAll f m newSz).table =
      Buckets.redistribute (fun n => f.bucket n.key newSz) newSz m.nodes := by
  suffices h : ∀ (ns : List (HashNode K D)) (m' : HashMap K D), m'.tableSz = newSz →
      (ns.foldl (relinkNode f) m').table =
        ns.foldl (fun t n => Buckets.push (f.bucket n.key newSz) n t) m'.table from
    h m.nodes (HashMap.fresh newSz) (by simp)
  intro ns
  induction ns with
  | nil => intro m' _; rfl
  | cons n ns ih =>
    intro m' hsz
    rw [List.foldl_cons, List.foldl_cons, ih _ (by simpa using hsz)]
    rw [relinkNode, hsz]
    rfl

@[simp] theorem tableSz_relinkAll (f : HashEnv K) (m : HashMap K D) (newSz : ℕ) :
    (relinkAll f m newSz).tableSz = newSz := by
  rw [HashMap.tableSz, table_relinkAll, Buckets.length_redistribute]

/-- A resize that returns either had nothing to do or relinked every node. -/
theorem hashResize_ok {f : HashEnv K} {m m' : HashMap K D} {newSz : ℕ} {b : Bool}
    (h : hashResize f m newSz = .ok (b, m')) :
    (newSz = m.tableSz ∧ m' = m) ∨ (newSz ≠ m.tableSz ∧ m' = relinkAll f m newSz) := by
  unfold hashResize at h
  split at h
  · rename_i hsz
    exact Or.inl ⟨hsz, by simpa using (Prod.mk.inj (Except.ok.inj h)).2.symm⟩
  · rename_i hsz
    split at h
    · exact absurd h (by simp)
    · dsimp only at h
      split at h
      · exact absurd h (by simp)
      · exact Or.inr ⟨hsz, (Prod.mk.inj (Except.ok.inj h)).2.symm⟩

/-- A resize that aborts found another number of nodes than the counter said. -/
theorem hashResize_assertion {f : HashEnv K} {m : HashMap K D} {newSz : ℕ}
    (h : hashResize f m newSz = .error .assertion) :
    f.asserts = true ∧ m.nEntries ≠ (relinkAll f m newSz).nEntries := by
  unfold hashResize at h
  split at h
  · exact absurd h (by simp)
  · split at h
    · exact absurd h (by simp)
    · dsimp only at h
      split at h
      · rename_i hne
        simpa using hne
      · exact absurd h (by simp)

/-- A resize that does not end had at least as many buckets to visit as its loop
counter has values. -/
theorem hashResize_endlessLoop {f : HashEnv K} {m : HashMap K D} {newSz : ℕ}
    (h : hashResize f m newSz = .error .endlessLoop) : unsignedRange ≤ m.tableSz := by
  unfold hashResize at h
  split at h
  · exact absurd h (by simp)
  · split at h
    · assumption
    · dsimp only at h
      split at h <;> exact absurd h (by simp)

/-- A resize that does not return aborts or never ends. -/
theorem hashResize_error {f : HashEnv K} {m : HashMap K D} {newSz : ℕ} {e : Fault}
    (h : hashResize f m newSz = .error e) : e = .assertion ∨ e = .endlessLoop := by
  unfold hashResize at h
  split at h
  · exact absurd h (by simp)
  · split at h
    · exact Or.inr (Except.error.inj h).symm
    · dsimp only at h
      split at h
      · exact Or.inl (Except.error.inj h).symm
      · exact absurd h (by simp)

/-- The insertion of a new node in bucket `hash` makes the table grow: the bucket
was empty, and with it in use the table is overloaded. -/
def growsAt (m : HashMap K D) (key : K) (data : D) (hash : ℕ) : Bool :=
  (m.chain hash).isEmpty && overloaded (appendNode m key data hash)

theorem hashInternalInsertNew_eq (f : HashEnv K) (m : HashMap K D) (key : K) (data : D)
    (hash : ℕ) :
    hashInternalInsertNew f m key data hash =
      if growsAt m key data hash then
        (hashResize f (appendNode m key data hash) (m.tableSz * 2)).map Prod.snd
      else .ok (appendNode m key data hash) := by
  rw [← tableSz_appendNode m key data hash]
  rfl

/-- **What inserting a new node does.**  The node is appended to its chain; and
if that makes the table grow, the table is relinked at twice its size. -/
theorem hashInternalInsertNew_ok {f : HashEnv K} {m m' : HashMap K D} {key : K} {data : D}
    {hash : ℕ} (hsz : 0 < m.tableSz) (h : hashInternalInsertNew f m key data hash = .ok m') :
    (growsAt m key data hash = false ∧ m' = appendNode m key data hash) ∨
      (growsAt m key data hash = true ∧
        m' = relinkAll f (appendNode m key data hash) (m.tableSz * 2)) := by
  rw [hashInternalInsertNew_eq] at h
  split at h
  · rename_i hgrow
    refine Or.inr ⟨hgrow, ?_⟩
    obtain ⟨⟨b, m''⟩, hr, rfl⟩ := map_eq_ok h
    rcases hashResize_ok hr with ⟨heq, -⟩ | ⟨-, h2⟩
    · rw [tableSz_appendNode] at heq
      omega
    · exact h2
  · rename_i hgrow
    exact Or.inl ⟨by simpa using hgrow, (Except.ok.inj h).symm⟩

/-- Inserting under a key that is there changes nothing and returns its datum;
under a key that is not there it inserts a new node. -/
theorem hashInsert_ok {f : HashEnv K} {m m' : HashMap K D} {key : K} {data : D}
    {r : Option D} (h : hashInsert f m key data = .ok (r, m')) :
    (r = hashLookup f m key ∧ r ≠ none ∧ m' = m) ∨
      (r = none ∧ hashLookup f m key = none ∧
        hashInternalInsertNew f m key data (f.bucket key m.tableSz) = .ok m') := by
  unfold hashInsert at h
  cases hl : hashLookup f m key with
  | some d =>
    rw [hl] at h
    obtain ⟨rfl, rfl⟩ := Prod.mk.inj (Except.ok.inj h)
    exact Or.inl ⟨rfl, by simp, rfl⟩
  | none =>
    rw [hl] at h
    dsimp only at h
    obtain ⟨m'', hi, heq⟩ := map_eq_ok h
    obtain ⟨rfl, rfl⟩ := Prod.mk.inj heq
    exact Or.inr ⟨rfl, rfl, hi⟩

/-- Overwriting a key that is there replaces its node; a key that is not there is
inserted. -/
theorem hashOverwrite_ok {f : HashEnv K} {m m' : HashMap K D} {key : K} {data : D}
    {r : Option (HashNode K D)} (h : hashOverwrite f m key data = .ok (r, m')) :
    (∃ i, m.pos f key = some i ∧ r = (m.chain (f.bucket key m.tableSz))[i]? ∧
        m' = m.setChain (f.bucket key m.tableSz)
          ((m.chain (f.bucket key m.tableSz)).set i ⟨key, data⟩)) ∨
      (r = none ∧ m.pos f key = none ∧
        hashInternalInsertNew f m key data (f.bucket key m.tableSz) = .ok m') := by
  unfold hashOverwrite at h
  cases hp : m.pos f key with
  | some i =>
    rw [hp] at h
    obtain ⟨rfl, rfl⟩ := Prod.mk.inj (Except.ok.inj h)
    exact Or.inl ⟨i, rfl, rfl, rfl⟩
  | none =>
    rw [hp] at h
    obtain ⟨m'', hi, heq⟩ := map_eq_ok h
    obtain ⟨rfl, rfl⟩ := Prod.mk.inj heq
    exact Or.inr ⟨rfl, rfl, hi⟩

/-- The position of a node lies in its chain. -/
theorem pos_lt {f : HashEnv K} {m : HashMap K D} {key : K} {i : ℕ}
    (h : m.pos f key = some i) : i < (m.chain (f.bucket key m.tableSz)).length :=
  (List.findIdx?_eq_some_iff_getElem.mp h).1

theorem bucket_lt_of_pos {f : HashEnv K} {m : HashMap K D} {key : K} {i : ℕ}
    (h : m.pos f key = some i) : f.bucket key m.tableSz < m.tableSz :=
  Buckets.lt_length_of_mem_chain (List.getElem_mem (pos_lt h))

/-- The node the key is compared equal to. -/
def HashMap.nodeAt {f : HashEnv K} {m : HashMap K D} {key : K} {i : ℕ}
    (h : m.pos f key = some i) : HashNode K D :=
  (m.chain (f.bucket key m.tableSz)).get ⟨i, pos_lt h⟩

/-! ## What happens to the nodes

Up to their order.  Everything that is counted over a table --- nodes, pairs,
references --- is counted through these. -/

theorem HashMap.perm_nodes_setChain (m : HashMap K D) {b : ℕ} (hb : b < m.tableSz)
    (c : List (HashNode K D)) :
    (m.chain b ++ (m.setChain b c).nodes).Perm (c ++ m.nodes) :=
  Buckets.perm_items_set hb c

theorem perm_nodes_appendNode (m : HashMap K D) {hash : ℕ} (hb : hash < m.tableSz) (key : K)
    (data : D) : (appendNode m key data hash).nodes.Perm (⟨key, data⟩ :: m.nodes) := by
  have h := m.perm_nodes_setChain hb (m.chain hash ++ [⟨key, data⟩])
  rw [List.append_assoc] at h
  exact (List.perm_append_left_iff (m.chain hash)).mp h

theorem perm_nodes_relinkAll (f : HashEnv K) (m : HashMap K D) {newSz : ℕ} (h : 0 < newSz) :
    (relinkAll f m newSz).nodes.Perm m.nodes := by
  rw [HashMap.nodes, table_relinkAll]
  exact Buckets.perm_items_redistribute (fun n => f.bucket_lt n.key h) m.nodes

theorem perm_nodes_unlink (m : HashMap K D) {b i : ℕ} (hi : i < (m.chain b).length) :
    ((m.chain b)[i] :: (unlink m b i).nodes).Perm m.nodes := by
  have hb : b < m.tableSz := Buckets.lt_length_of_mem_chain (List.getElem_mem hi)
  have h : (m.chain b ++ (unlink m b i).nodes).Perm ((m.chain b).eraseIdx i ++ m.nodes) :=
    m.perm_nodes_setChain hb _
  have hsplit : (m.chain b).Perm ((m.chain b)[i] :: (m.chain b).eraseIdx i) :=
    (List.getElem_cons_eraseIdx_perm hi).symm
  refine (List.perm_append_left_iff ((m.chain b).eraseIdx i)).mp (List.Perm.trans ?_ h)
  exact List.perm_middle.trans (hsplit.symm.append_right _)

/-- Replacing a node: the one `unlink` would take out is another. -/
theorem perm_nodes_setNode (m : HashMap K D) {b i : ℕ} (hi : i < (m.chain b).length)
    (n : HashNode K D) :
    (m.setChain b ((m.chain b).set i n)).nodes.Perm (n :: (unlink m b i).nodes) := by
  have hb : b < m.tableSz := Buckets.lt_length_of_mem_chain (List.getElem_mem hi)
  refine (List.perm_append_left_iff (m.chain b)).mp ((m.perm_nodes_setChain hb _).trans ?_)
  have h1 := List.set_perm_cons_eraseIdx hi n
  have h2 := List.getElem_cons_eraseIdx_perm hi
  refine (h1.append (perm_nodes_unlink m hi).symm).trans ?_
  rw [List.cons_append]
  refine (List.Perm.cons _ ?_).trans List.perm_middle.symm
  exact List.perm_middle.trans (h2.append_right _)

/-- Writing through a pointer to a node replaces it by one with another datum. -/
theorem perm_nodes_hashSetData {f : HashEnv K} {m : HashMap K D} {key : K} {i : ℕ}
    (h : m.pos f key = some i) (data : D) :
    (hashSetData f m key data).nodes.Perm
      (⟨(HashMap.nodeAt h).key, data⟩ ::
        (unlink m (f.bucket key m.tableSz) i).nodes) := by
  have hi := pos_lt h
  have hset : hashSetData f m key data =
      m.setChain (f.bucket key m.tableSz) ((m.chain (f.bucket key m.tableSz)).set i
        ⟨(HashMap.nodeAt h).key, data⟩) := by
    simp only [hashSetData, h]
    rw [List.modify_eq_take_cons_drop hi, List.set_eq_take_cons_drop _ hi]
    rfl
  rw [hset]
  exact perm_nodes_setNode m hi _

theorem mem_nodes_appendNode {m : HashMap K D} {hash : ℕ} (hb : hash < m.tableSz) {key : K}
    {data : D} {n : HashNode K D} :
    n ∈ (appendNode m key data hash).nodes ↔ n = ⟨key, data⟩ ∨ n ∈ m.nodes := by
  rw [(perm_nodes_appendNode m hb key data).mem_iff, List.mem_cons]

theorem mem_nodes_relinkAll {f : HashEnv K} {m : HashMap K D} {newSz : ℕ} (h : 0 < newSz)
    {n : HashNode K D} : n ∈ (relinkAll f m newSz).nodes ↔ n ∈ m.nodes :=
  (perm_nodes_relinkAll f m h).mem_iff

/-- The nodes of a table, the one at the key's position apart. -/
theorem mem_nodes_iff_unlink {f : HashEnv K} {m : HashMap K D} {key : K} {i : ℕ}
    (h : m.pos f key = some i) {n : HashNode K D} :
    n ∈ m.nodes ↔ n = HashMap.nodeAt h ∨ n ∈ (unlink m (f.bucket key m.tableSz) i).nodes := by
  rw [← (perm_nodes_unlink m (pos_lt h)).mem_iff, List.mem_cons]
  rfl

theorem mem_nodes_hashSetData {f : HashEnv K} {m : HashMap K D} {key : K} {i : ℕ}
    (h : m.pos f key = some i) {data : D} {n : HashNode K D} :
    n ∈ (hashSetData f m key data).nodes ↔
      n = ⟨(HashMap.nodeAt h).key, data⟩ ∨
        n ∈ (unlink m (f.bucket key m.tableSz) i).nodes := by
  rw [(perm_nodes_hashSetData h data).mem_iff, List.mem_cons]

/-- The node at the key's position lies in the key's bucket, and its key compares
equal. -/
theorem nodeAt_spec {f : HashEnv K} {m : HashMap K D} {key : K} {i : ℕ}
    (h : m.pos f key = some i) :
    HashMap.nodeAt h ∈ m.chain (f.bucket key m.tableSz) ∧
      f.Same key (HashMap.nodeAt h).key := by
  refine ⟨List.get_mem _ _, ?_⟩
  simpa [HashMap.nodeAt] using (List.findIdx?_eq_some_iff_getElem.mp h).2.1

/-- A walk reads keys of nodes. -/
theorem exists_node_of_mem_walked {f : HashEnv K} {m : HashMap K D} {key k : K}
    (h : k ∈ m.walked f key) : ∃ n ∈ m.nodes, n.key = k := by
  have hc : k ∈ (m.chain (f.bucket key m.tableSz)).map HashNode.key := by
    unfold HashMap.walked at h
    cases hp : m.pos f key with
    | some i => rw [hp] at h; exact List.mem_of_mem_take h
    | none => rw [hp] at h; exact h
  obtain ⟨n, hn, heq⟩ := List.mem_map.mp hc
  exact ⟨n, Buckets.mem_items_iff.mpr ⟨_, hn⟩, heq⟩

/-- The key is found at a position exactly when it is found at all. -/
theorem hashLookup_eq_none_iff {f : HashEnv K} {m : HashMap K D} {key : K} :
    hashLookup f m key = none ↔ m.pos f key = none := by
  simp [hashLookup, HashMap.pos, List.find?_eq_none, List.findIdx?_eq_none_iff]

end NetCosm
