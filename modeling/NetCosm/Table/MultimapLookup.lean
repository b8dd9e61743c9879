import NetCosm.Table.MultimapCells
import NetCosm.Text.CString

/-!
# Whether a pair is found under its own key

Room and inventory maps hash a key as it is spelled and compare keys up to case.
Pairs whose keys compare equal share a node, and the node lies where the key of
its first pair hashes to.  While the table is small this does no harm: spellings of
one key that got into one node did so because they hash to one bucket.  When the
table grows, the node moves to the bucket of its own key, and takes along pairs
whose keys now hash elsewhere.  From then on a lookup walks the wrong chain, and
`multimap_delete` reports that there was nothing to delete.

`Sound` is the invariant that excludes this: every cell's key compares equal to
the key of its node and hashes to the same bucket.  Under it a lookup is exact
(`Sound.mem_lookup_iff`).  All operations keep it except a growth that separates a
cell from its node, and `KeepsKeysTogether` says of an operation that it is not
such a growth.  `multimap_kept_iff` is the two-way statement: every stored pair is
found, and deleted, under its own key in every state of a run exactly when no
growth of the run separates a key from its node.

## Which pairs are stored

A run is followed together with the list of the pairs that were inserted and not
deleted since: an insertion adds its pair, and a deletion takes away the pairs it
reports as freed.  That these are the pairs in the table needs no invariant of the
table at all (`tracked_step`); that they can be found is what needs one.
-/

namespace NetCosm

universe u v

variable {K : Type u} {V : Type v}

namespace Multimap

/-- If the operation makes the table grow, every cell of every node still hashes
where its node does. -/
def KeepsKeysTogether (f : HashEnv K) (m : Multimap K V) : MultimapOp K V → Prop
  | .insert key val =>
      m.grows f (.insert key val) = true →
        ∀ n ∈ (m.inserted f key val).nodes, ∀ p ∈ n.pairs,
          f.bucket p.key (m.hashTab.tableSz * 2) = f.bucket n.key (m.hashTab.tableSz * 2)
  | _ => True

instance (f : HashEnv K) (m : Multimap K V) (op : MultimapOp K V) :
    Decidable (m.KeepsKeysTogether f op) :=
  match op with
  | .insert key val =>
      inferInstanceAs (Decidable (m.grows f (.insert key val) = true →
        ∀ n ∈ (m.inserted f key val).nodes, ∀ p ∈ n.pairs,
          f.bucket p.key (m.hashTab.tableSz * 2) = f.bucket n.key (m.hashTab.tableSz * 2)))
  | .delete _ _ | .deleteAll _ => .isTrue trivial

/-- Every cell is found where its key is looked for. -/
structure Sound (f : HashEnv K) (m : Multimap K V) : Prop extends m.Regular f where
  together : ∀ n ∈ m.hashTab.nodes, ∀ p ∈ n.pairs,
    f.bucket p.key m.hashTab.tableSz = f.bucket n.key m.hashTab.tableSz

end Multimap

open Multimap

/-- **A lookup in a sound map is exact**: it returns the cells whose key compares
equal and hashes to the same bucket. -/
theorem Multimap.Sound.mem_lookup_iff {f : HashEnv K} (hf : Equivalence f.Same)
    {m : Multimap K V} (hm : m.Sound f) {key : K} {p : MultimapPair K V} :
    p ∈ (multimapLookup f m key).1 ↔
      p ∈ m.pairs ∧ f.Same key p.key ∧
        f.bucket p.key m.hashTab.tableSz = f.bucket key m.hashTab.tableSz := by
  constructor
  · intro h
    obtain ⟨n, hn, hp, hs⟩ := mem_lookup h
    have hmem : n ∈ m.hashTab.nodes := Buckets.mem_items_iff.mpr ⟨_, hn⟩
    refine ⟨mem_pairs_iff.mpr ⟨n, hmem, hp⟩, hf.trans hs (hm.same n hmem p hp), ?_⟩
    rw [hm.together n hmem p hp]
    exact hm.placed.placed _ n hn
  · rintro ⟨h, hs, hb⟩
    obtain ⟨n, hn, hp⟩ := mem_pairs_iff.mp h
    have hchain : n ∈ m.hashTab.chain (f.bucket key m.hashTab.tableSz) := by
      rw [← hb, hm.together n hn p hp]
      exact hm.placed.mem_nodes_iff.mp hn
    have hkey : f.Same key n.key := hf.trans hs (hf.symm (hm.same n hn p hp))
    rw [multimapLookup, (hashLookup_eq_some_iff hf hm.placed).mpr ⟨n, hchain, hkey, rfl⟩]
    exact hp

/-- A pair of a sound map is found under its own key. -/
theorem Multimap.Sound.mem_lookup_self {f : HashEnv K} (hf : Equivalence f.Same)
    {m : Multimap K V} (hm : m.Sound f) {p : MultimapPair K V} (hp : p ∈ m.pairs) :
    p ∈ (multimapLookup f m p.key).1 :=
  (hm.mem_lookup_iff hf).mpr ⟨hp, hf.refl _, rfl⟩

/-! ## Keeping a map sound -/

theorem sound_init (f : HashEnv K) (sz : ℕ) : (multimapInit sz : Multimap K V).Sound f where
  toRegular := regular_init f sz
  together := by simp [multimapInit, hashInit]

/-- **An insertion keeps a map sound** unless it separates a key from its node. -/
theorem sound_insert {f : HashEnv K} (hf : Equivalence f.Same) {m m' : Multimap K V} {key : K}
    {val : V} {r : Bool} (hm : m.Sound f) (hk : m.KeepsKeysTogether f (.insert key val))
    (h : multimapInsert f m key val = .ok (r, m')) : m'.Sound f := by
  have h0 := hm.placed.size_pos
  refine ⟨regular_insert hf hm.toRegular h, fun n' hn' p hp => ?_⟩
  rcases multimapInsert_ok h with ⟨node, -, -, rfl⟩ | ⟨tab, hl, -, hnew, rfl⟩
  · show f.bucket p.key (hashSetData f m.hashTab key _).tableSz = _
    rw [tableSz_hashSetData]
    rcases mem_nodes_insert h0 h hn' with hold | rfl | ⟨n, hn, -, rfl⟩
    · exact hm.together n' hold p hp
    · rw [List.mem_singleton.mp hp]
      rfl
    · rcases List.mem_cons.mp hp with rfl | hp'
      · exact (hm.placed.placed _ _ hn).symm
      · exact hm.together n (Buckets.mem_items_iff.mpr ⟨_, hn⟩) p hp'
  · rcases hashInternalInsertNew_ok h0 hnew with ⟨-, rfl⟩ | ⟨hg, rfl⟩
    · show f.bucket p.key (appendNode m.hashTab key _ _).tableSz = _
      rw [tableSz_appendNode]
      rcases (mem_nodes_appendNode (f.bucket_lt key h0)).mp hn' with rfl | hold
      · rw [List.mem_singleton.mp hp]
        rfl
      · exact hm.together n' hold p hp
    · show f.bucket p.key (relinkAll f _ _).tableSz = f.bucket n'.key (relinkAll f _ _).tableSz
      rw [tableSz_relinkAll]
      exact hk (by simpa [grows, hl] using hg) n' ((mem_nodes_relinkAll (by omega)).mp hn') p hp

theorem sound_delete {f : HashEnv K} {m : Multimap K V} (hm : m.Sound f)
    (compareVal : V → V → ℤ) (key : K) (val : V) :
    (multimapDelete f compareVal m key val).2.Sound f := by
  have hsz := tableSz_multimapDelete f compareVal m key val
  refine ⟨regular_delete hm.toRegular compareVal key val, fun n' hn' p hp => ?_⟩
  rw [hsz]
  rcases mem_nodes_delete hn' with hold | ⟨n, hn, rfl⟩
  · exact hm.together n' hold p hp
  · exact hm.together n hn p (List.mem_of_mem_filter hp)

theorem sound_deleteAll {f : HashEnv K} {m : Multimap K V} (hm : m.Sound f) (key : K) :
    (multimapDeleteAll f m key).2.Sound f := by
  have hsz : (multimapDeleteAll f m key).2.hashTab.tableSz = m.hashTab.tableSz := by
    rcases multimapDeleteAll_cases f m key with ⟨-, hd⟩ | ⟨node, i, -, -, hd⟩
    · rw [hd]
    · rw [hd]
      exact tableSz_unlink m.hashTab _ i
  refine ⟨regular_deleteAll hm.toRegular key, fun n' hn' p hp => ?_⟩
  rw [hsz]
  exact hm.together n' (mem_nodes_deleteAll hn') p hp

/-! ## Runs, with the pairs that are stored -/

/-- One operation on a map and on the list of the pairs inserted and not deleted
since. -/
def trackedStep (f : HashEnv K) (compareVal : V → V → ℤ)
    (s : Multimap K V × List (MultimapPair K V)) :
    MultimapOp K V → Except Fault (Multimap K V × List (MultimapPair K V))
  | .insert key val =>
      (multimapInsert f s.1 key val).map fun r => (r.2, s.1.newPair key val :: s.2)
  | .delete key val =>
      let r := multimapDelete f compareVal s.1 key val
      .ok (r.2, s.2.filter fun p => !(r.1.any fun q => q.addr == p.addr))
  | .deleteAll key =>
      let r := multimapDeleteAll f s.1 key
      .ok (r.2, s.2.filter fun p => !(r.1.any fun q => q.addr == p.addr))

/-- Every stored pair is found under its own key, and deleting it frees it and
leaves it nowhere in the map. -/
def Kept (f : HashEnv K) (compareVal : V → V → ℤ)
    (s : Multimap K V × List (MultimapPair K V)) : Prop :=
  ∀ p ∈ s.2, p ∈ (multimapLookup f s.1 p.key).1 ∧
    p ∈ (multimapDelete f compareVal s.1 p.key p.val).1 ∧
    p ∉ (multimapDelete f compareVal s.1 p.key p.val).2.pairs

/-- The list really is the contents of the map, cell by cell. -/
def Tracked (s : Multimap K V × List (MultimapPair K V)) : Prop := s.1.pairs.Perm s.2

/-- Taking away reported cells keeps the list the contents of the map. -/
theorem Tracked.remove {f : HashEnv K} {s : Multimap K V × List (MultimapPair K V)}
    (hm : s.1.Regular f) (hs : Tracked s) {freed : List (MultimapPair K V)} {m' : Multimap K V}
    (hperm : (freed ++ m'.pairs).Perm s.1.pairs) :
    Tracked (m', s.2.filter fun p => !(freed.any fun q => q.addr == p.addr)) := by
  have hnodup : ((freed ++ m'.pairs).map MultimapPair.addr).Nodup :=
    (hperm.map _).nodup_iff.mpr hm.nodup
  rw [List.map_append, List.nodup_append] at hnodup
  have hfilter := (hperm.trans hs).filter fun p => !(freed.any fun q => q.addr == p.addr)
  rw [List.filter_append] at hfilter
  have hnone : (freed.filter fun p => !(freed.any fun q => q.addr == p.addr)) = [] := by
    rw [List.filter_eq_nil_iff]
    intro p hp
    simpa using ⟨p, hp, rfl⟩
  have hall : (m'.pairs.filter fun p => !(freed.any fun q => q.addr == p.addr)) = m'.pairs := by
    rw [List.filter_eq_self]
    intro p hp
    have hne : ∀ q ∈ freed, q.addr ≠ p.addr := fun q hq =>
      hnodup.2.2 q.addr (List.mem_map_of_mem hq) p.addr (List.mem_map_of_mem hp)
    simpa using hne
  rw [hnone, hall, List.nil_append] at hfilter
  exact hfilter

/-- **Every step keeps the map regular and the list its contents**, sound or not. -/
theorem tracked_step {f : HashEnv K} (hf : Equivalence f.Same) {compareVal : V → V → ℤ}
    {s s' : Multimap K V × List (MultimapPair K V)} {op : MultimapOp K V}
    (hm : s.1.Regular f) (hs : Tracked s) (h : trackedStep f compareVal s op = .ok s') :
    s'.1.Regular f ∧ Tracked s' := by
  cases op with
  | insert key val =>
    obtain ⟨⟨r, m'⟩, hins, rfl⟩ := map_eq_ok h
    exact ⟨regular_insert hf hm hins,
      (perm_pairs_insert hm.placed.size_pos hins).1.trans (hs.cons _)⟩
  | delete key val =>
    obtain rfl := Except.ok.inj h
    exact ⟨regular_delete hm compareVal key val,
      hs.remove hm (perm_pairs_delete f compareVal s.1 key val).1⟩
  | deleteAll key =>
    obtain rfl := Except.ok.inj h
    exact ⟨regular_deleteAll hm key, hs.remove hm (perm_pairs_deleteAll f s.1 key).1⟩

/-- In a sound map every stored pair is kept. -/
theorem kept_of_sound {f : HashEnv K} (hf : Equivalence f.Same) {compareVal : V → V → ℤ}
    (hval : ∀ v, compareVal v v = 0) {s : Multimap K V × List (MultimapPair K V)}
    (hs : Tracked s) (hm : s.1.Sound f) : Kept f compareVal s := by
  intro p hp
  have hlook := hm.mem_lookup_self hf (hs.mem_iff.mpr hp)
  have hfreed : p ∈ (multimapDelete f compareVal s.1 p.key p.val).1 := by
    rw [multimapDelete_fst, List.mem_filter]
    exact ⟨hlook, by simpa using hval p.val⟩
  refine ⟨hlook, hfreed, fun hrest => ?_⟩
  have hperm := (perm_pairs_delete f compareVal s.1 p.key p.val).1
  have hnodup := hperm.nodup_iff.mpr (hm.nodup.of_map _)
  exact (List.nodup_append.mp hnodup).2.2 p hfreed p hrest rfl

/-- What a run keeps as long as no growth separates a key from its node. -/
theorem sound_step {f : HashEnv K} (hf : Equivalence f.Same) {compareVal : V → V → ℤ}
    {s s' : Multimap K V × List (MultimapPair K V)} {op : MultimapOp K V}
    (hm : s.1.Sound f) (hk : s.1.KeepsKeysTogether f op)
    (h : trackedStep f compareVal s op = .ok s') : s'.1.Sound f := by
  cases op with
  | insert key val =>
    obtain ⟨⟨r, m'⟩, hins, rfl⟩ := map_eq_ok h
    exact sound_insert hf hm hk hins
  | delete key val =>
    obtain rfl := Except.ok.inj h
    exact sound_delete hm compareVal key val
  | deleteAll key =>
    obtain rfl := Except.ok.inj h
    exact sound_deleteAll hm key

/-- **A growth that separates a key from its node loses the pair**: after it, the
pair is stored and not found. -/
theorem not_kept_of_separated {f : HashEnv K} (hf : Equivalence f.Same)
    {compareVal : V → V → ℤ} {s s' : Multimap K V × List (MultimapPair K V)}
    {op : MultimapOp K V} (hm : s.1.Regular f) (hs : Tracked s)
    (hk : ¬ s.1.KeepsKeysTogether f op) (h : trackedStep f compareVal s op = .ok s') :
    ¬ Kept f compareVal s' := by
  obtain ⟨hm', hs'⟩ := tracked_step hf hm hs h
  cases op with
  | insert key val =>
    rw [KeepsKeysTogether] at hk
    push Not at hk
    obtain ⟨hg, n, hn, p, hp, hne⟩ := hk
    obtain ⟨⟨r, m'⟩, hins, rfl⟩ := map_eq_ok h
    have hg' := hg
    rw [grows, Bool.and_eq_true, Option.isNone_iff_eq_none] at hg'
    rcases multimapInsert_ok hins with ⟨node, hl, -, -⟩ | ⟨tab, hl, -, hnew, rfl⟩
    · exact absurd (hg'.1.symm.trans hl) (by simp)
    · have h0 := hm.placed.size_pos
      rcases hashInternalInsertNew_ok h0 hnew with ⟨hg0, -⟩ | ⟨-, rfl⟩
      · exact absurd (hg'.2.symm.trans hg0) (by simp)
      · have hn' : n ∈ (relinkAll f (s.1.inserted f key val) (s.1.hashTab.tableSz * 2)).nodes :=
          (mem_nodes_relinkAll (by omega)).mpr hn
        intro hkept
        have hlook := (hkept p (hs'.mem_iff.mp (mem_pairs_iff.mpr ⟨n, hn', hp⟩))).1
        obtain ⟨n', hchain, hp', -⟩ := mem_lookup hlook
        have hnn : n' = n := hm'.node_unique (Buckets.mem_items_iff.mpr ⟨_, hchain⟩) hn' hp' hp
        rw [hnn] at hchain
        refine hne ?_
        have hplaced := placed_relinkAll f (s.1.inserted f key val) (s.1.hashTab.tableSz * 2) _ n
          hchain
        simp only [tableSz_relinkAll] at hplaced
        exact hplaced.symm
  | delete key val => exact absurd trivial hk
  | deleteAll key => exact absurd trivial hk

/-- **Stored pairs and their own keys**, for any hash function and any comparison
that is an equivalence: in a run from `multimap_init` every stored pair is kept in
every state exactly when no growth separates a key from its node. -/
theorem multimap_kept_iff {f : HashEnv K} (hf : Equivalence f.Same) {compareVal : V → V → ℤ}
    (hval : ∀ v, compareVal v v = 0) (sz : ℕ) (ops : List (MultimapOp K V)) :
    Runs.Always (trackedStep f compareVal) (Kept f compareVal) (multimapInit sz, []) ops ↔
      Runs.EachDone (trackedStep f compareVal) (fun s op => s.1.KeepsKeysTogether f op)
        (multimapInit sz, []) ops := by
  refine Runs.always_iff_eachDone (I := fun s => Tracked s ∧ s.1.Sound f) ?_ ?_ ?_ ?_
  · exact fun s hs => kept_of_sound hf hval hs.1 hs.2
  · exact fun s op s' hs hk h =>
      ⟨(tracked_step hf hs.2.toRegular hs.1 h).2, sound_step hf hs.2 hk h⟩
  · exact fun s op s' hs hk h => not_kept_of_separated hf hs.2.toRegular hs.1 hk h
  · exact ⟨by simp [Tracked], sound_init f sz⟩

/-! ## The maps of rooms and inventories -/

/-- The hash function and the comparison of `room_init_maps` and of an inventory. -/
def roomEnv (asserts : Bool) : HashEnv CString := ⟨hashDjb, compareStringsNocase, asserts⟩

theorem roomEnv_same_iff {asserts : Bool} {a b : CString} :
    (roomEnv asserts).Same a b ↔ a.bytes.map lower = b.bytes.map lower :=
  compareStringsNocase_eq_zero_iff

theorem roomEnv_equivalence (asserts : Bool) : Equivalence (roomEnv asserts).Same where
  refl _ := roomEnv_same_iff.mpr rfl
  symm h := roomEnv_same_iff.mpr (roomEnv_same_iff.mp h).symm
  trans h h' := roomEnv_same_iff.mpr ((roomEnv_same_iff.mp h).trans (roomEnv_same_iff.mp h'))

/-- **No stored pair is lost to its own key, as long as no growth separates a key
from its node.**  The map is configured as room and inventory maps are, with any
initial size; a value compares equal to itself. -/
theorem roomMultimap_kept_iff (asserts : Bool) (compareVal : V → V → ℤ)
    (hval : ∀ v, compareVal v v = 0) (sz : ℕ) (ops : List (MultimapOp CString V)) :
    Runs.Always (trackedStep (roomEnv asserts) compareVal) (Kept (roomEnv asserts) compareVal)
        (multimapInit sz, []) ops ↔
      Runs.EachDone (trackedStep (roomEnv asserts) compareVal)
        (fun s op => s.1.KeepsKeysTogether (roomEnv asserts) op) (multimapInit sz, []) ops :=
  multimap_kept_iff (roomEnv_equivalence asserts) hval sz ops

/-- Insert one object as `A` and another as `a` into a map of size `8`, and then objects `B` to `F`, one key each.
The first is taken out again, and one is stored as `b`. -/
def spellingsTogether : List (MultimapOp CString ℤ) :=
  .insert (letter 65) 0 :: .insert (letter 97) 1 ::
    (List.range 5).map (fun i => .insert (letter (UInt8.ofNat (66 + i))) (2 + i)) ++
      [.delete (letter 65) 0, .insert (letter 98) 7]

/-- The map grows to `16` buckets, and `A` and `a` hash alike there. -/
theorem roomMultimap_kept_spellingsTogether :
    Runs.Always (trackedStep (roomEnv true) fun a b : ℤ => a - b)
        (Kept (roomEnv true) fun a b : ℤ => a - b) (multimapInit 8, []) spellingsTogether ∧
      (Runs.run (trackedStep (roomEnv true) fun a b : ℤ => a - b) (multimapInit 8, [])
        spellingsTogether).toOption.any fun s => s.1.hashTab.tableSz = 16 ∧
          (multimapLookup (roomEnv true) s.1 (letter 97)).1.map MultimapPair.val = [1] ∧
          (multimapLookup (roomEnv true) s.1 (letter 98)).1.map MultimapPair.val = [7, 2] := by
  have hsteps : Runs.EachStep (trackedStep (roomEnv true) fun a b : ℤ => a - b)
      (fun s op => s.1.KeepsKeysTogether (roomEnv true) op) (multimapInit 8, []) spellingsTogether := by
    decide +kernel
  exact ⟨(roomMultimap_kept_iff true _ (fun v => Int.sub_self v) 8 _).mpr hsteps.done, by decide +kernel⟩

/-- Insert one object as `A` and another as `a` into a map of size `32`, and then
objects `B` to `X`, one key each. -/
def twoSpellings : List (MultimapOp CString ℤ) :=
  .insert (letter 65) 0 :: .insert (letter 97) 1 ::
    (List.range 23).map fun i => .insert (letter (UInt8.ofNat (66 + i))) (2 + i)

/-- The last insertion makes the map grow.  `a` was found next to `A` before it, and
is not found after it. -/
theorem roomMultimap_loses_spelling :
    ¬ Runs.Always (trackedStep (roomEnv true) fun a b : ℤ => a - b)
      (Kept (roomEnv true) fun a b : ℤ => a - b) (multimapInit 32, []) twoSpellings := by
  intro h
  have hlost : (match Runs.run (trackedStep (roomEnv true) fun a b : ℤ => a - b)
      (multimapInit 32, []) twoSpellings with
    | .ok s => s.2.any fun p => !((multimapLookup (roomEnv true) s.1 p.key).1.contains p)
    | .error _ => false) = true := by decide +kernel
  cases hr : Runs.run (trackedStep (roomEnv true) fun a b : ℤ => a - b)
      (multimapInit 32, []) twoSpellings with
  | error e => rw [hr] at hlost; exact absurd hlost (by simp)
  | ok s =>
    rw [hr, List.any_eq_true] at hlost
    obtain ⟨p, hp, hnot⟩ := hlost
    have hfound := ((h.last hr) p hp).1
    exact absurd hnot (by simpa using hfound)

end NetCosm
