import NetCosm.Library.Simulation
import NetCosm.Table.HashRefinement
import NetCosm.Table.MultimapCells

/-!
# The multimap is a list of live pairs

`multimap.h` describes a map from keys to lists: the pairs under a key, newest first.
Its specification here is the list of all live pairs, newest first; what is stored under
a key is the part of that list whose keys compare equal to it, `multimap_insert` puts a
pair in front, the deletions take pairs out, and `multimap_size` is the length.

`Stores` relates a multimap to such a list.  It is kept by every operation, provided
keys that compare equal hash equally, and it says in particular that no node is left
without pairs.  What the two levels of chains do to a list is in two lemmas:
`Stores.insert` for a new pair, and `Stores.remove` for both deletions, which take
out of one class the pairs whose values satisfy a predicate.

The counters of the hash table play no part.  With `assert` compiled out they can only
make the table grow when it need not; and a growth is harmless as long as the loop of
`hash_resize` ends, which it does unless the table has `2 ^ 32` buckets.
`multimap_refines_iff` says that the answers are those of the list exactly when no
insertion makes a table of that size grow.
-/

namespace NetCosm

universe u v

variable {K : Type u} {V : Type v}

/-! ## Calls and answers -/

/-- The calls on a multimap. -/
inductive MultimapCall (K : Type u) (V : Type v) where
  | insert (key : K) (val : V)
  | delete (key : K) (val : V)
  | deleteAll (key : K)
  | lookup (key : K)
  | size

/-- What a call returns. -/
inductive MultimapAnswer (K : Type u) (V : Type v) where
  /-- Whether there was no other pair with the key. -/
  | inserted (first : Bool)
  /-- The number of pairs deleted. -/
  | deleted (n : ℕ)
  /-- The list found, and the number of pairs the caller is told. -/
  | found (pairs : List (K × V)) (nPairs : ℕ)
  | size (n : ℕ)

/-- What a cell stores. -/
def MultimapPair.pair (p : MultimapPair K V) : K × V := (p.key, p.val)

/-- The calls as `multimap.c` answers them. -/
def multimapCall (f : HashEnv K) (compareVal : V → V → ℤ) (m : Multimap K V) :
    MultimapCall K V → Except Fault (MultimapAnswer K V × Multimap K V)
  | .insert key val => (multimapInsert f m key val).map fun r => (.inserted r.1, r.2)
  | .delete key val =>
      let r := multimapDelete f compareVal m key val
      .ok (.deleted r.1.length, r.2)
  | .deleteAll key =>
      let r := multimapDeleteAll f m key
      .ok (.deleted r.1.length, r.2)
  | .lookup key =>
      let r := multimapLookup f m key
      .ok (.found (r.1.map MultimapPair.pair) r.2, m)
  | .size => .ok (.size (multimapSize m), m)

/-- The live pairs whose keys compare equal to `key`, newest first. -/
def classOf (f : HashEnv K) (key : K) (live : List (K × V)) : List (K × V) :=
  live.filter fun p => f.Same key p.1

/-- The live pairs without those of the class of `key` whose values satisfy `q`. -/
def without (f : HashEnv K) (key : K) (q : V → Bool) (live : List (K × V)) : List (K × V) :=
  live.filter fun p => !(decide (f.Same key p.1) && q p.2)

/-- The calls as a list of live pairs answers them. -/
def liveCall (f : HashEnv K) (compareVal : V → V → ℤ) (live : List (K × V)) :
    MultimapCall K V → MultimapAnswer K V × List (K × V)
  | .insert key val => (.inserted (classOf f key live).isEmpty, (key, val) :: live)
  | .delete key val =>
      (.deleted ((classOf f key live).filter fun p => compareVal val p.2 == 0).length,
        without f key (fun v => compareVal val v == 0) live)
  | .deleteAll key => (.deleted (classOf f key live).length, without f key (fun _ => true) live)
  | .lookup key => (.found (classOf f key live) (classOf f key live).length, live)
  | .size => (.size live.length, live)

/-- The call makes no table of `2 ^ 32` buckets grow. -/
def GrowthEnds (f : HashEnv K) (m : Multimap K V) : MultimapCall K V → Prop
  | .insert key val => m.grows f (.insert key val) = true → m.hashTab.tableSz < unsignedRange
  | _ => True

instance (f : HashEnv K) (m : Multimap K V) (c : MultimapCall K V) :
    Decidable (GrowthEnds f m c) :=
  match c with
  | .insert key val => inferInstanceAs
      (Decidable (m.grows f (.insert key val) = true → m.hashTab.tableSz < unsignedRange))
  | .delete _ _ | .deleteAll _ | .lookup _ | .size => .isTrue trivial

/-! ## Classes of live pairs -/

section Classes

variable {f : HashEnv K} {key k : K} {q : V → Bool} {live : List (K × V)}

theorem classOf_congr (hf : f.Compatible) (h : f.Same k key) :
    classOf f k live = classOf f key live := by
  refine List.filter_congr fun p _ => decide_eq_decide.mpr ?_
  exact ⟨hf.equiv.trans (hf.equiv.symm h), hf.equiv.trans h⟩

theorem classOf_cons_same (h : f.Same k key) (val : V) :
    classOf f k ((key, val) :: live) = (key, val) :: classOf f k live :=
  List.filter_cons_of_pos (by simpa using h)

theorem classOf_cons_other (h : ¬ f.Same k key) (val : V) :
    classOf f k ((key, val) :: live) = classOf f k live :=
  List.filter_cons_of_neg (by simpa using h)

/-- The class things are taken out of loses them. -/
theorem classOf_without_same :
    classOf f key (without f key q live) = (classOf f key live).filter fun p => !q p.2 := by
  rw [classOf, classOf, without, List.filter_filter, List.filter_filter]
  refine List.filter_congr fun p _ => ?_
  cases hs : decide (f.Same key p.1) <;> simp

/-- The other classes stay as they are. -/
theorem classOf_without_other (hf : f.Compatible) (h : ¬ f.Same key k) :
    classOf f k (without f key q live) = classOf f k live := by
  rw [classOf, without, List.filter_filter]
  refine List.filter_congr fun p _ => ?_
  by_cases hk : f.Same k p.1
  · have hkey : ¬ f.Same key p.1 := fun hs => h (hf.equiv.trans hs (hf.equiv.symm hk))
    simp [hk, hkey]
  · simp [hk]

variable (f key q live) in
/-- What is taken out and what is left are everything. -/
theorem length_without :
    ((classOf f key live).filter fun p => q p.2).length + (without f key q live).length =
      live.length := by
  have h := List.length_eq_length_filter_add (l := live)
    fun p => decide (f.Same key p.1) && q p.2
  rw [h, classOf, List.filter_filter, without]
  simp only [Bool.and_comm]

end Classes

/-! ## The refinement -/

/-- What `multimap_lookup` finds under a key. -/
def storedUnder (f : HashEnv K) (m : Multimap K V) (key : K) : List (K × V) :=
  (multimapLookup f m key).1.map MultimapPair.pair

/-- The multimap `m` stores the live pairs `live`. -/
structure Stores (f : HashEnv K) (m : Multimap K V) (live : List (K × V)) : Prop where
  placed : m.hashTab.WellPlaced f
  nonempty : ∀ n ∈ m.hashTab.nodes, n.pairs ≠ []
  under : ∀ k, storedUnder f m k = classOf f k live
  total : m.totalPairs = live.length

section Refinement

variable {f : HashEnv K} {m : Multimap K V} {live : List (K × V)} {key : K}

theorem multimapLookup_of_entry {e : K × MultimapNode K V}
    (h : hashEntry f m.hashTab key = some e) :
    multimapLookup f m key = (e.2.list, e.2.nPairs) := by
  rw [multimapLookup, hashLookup_eq_map, h]
  rfl

theorem multimapLookup_of_no_entry (h : hashEntry f m.hashTab key = none) :
    multimapLookup f m key = ([], 0) := by
  rw [multimapLookup, hashLookup_eq_map, h]
  rfl

/-- The number a lookup returns is the length of the list it returns. -/
theorem multimapLookup_counted (f : HashEnv K) (m : Multimap K V) (key : K) :
    (multimapLookup f m key).2 = (multimapLookup f m key).1.length := by
  unfold multimapLookup
  split
  · rename_i node _
    exact node.counted
  · rfl

/-- Whether anything is stored under a key depends on whether the table has an entry for
it. -/
theorem Stores.entry_eq_none_iff (hf : f.Compatible) (h : Stores f m live) :
    hashEntry f m.hashTab key = none ↔ classOf f key live = [] := by
  rw [← h.under, storedUnder, List.map_eq_nil_iff]
  constructor
  · intro hentry
    rw [multimapLookup_of_no_entry hentry]
  · intro hnil
    cases hentry : hashEntry f m.hashTab key with
    | none => rfl
    | some e =>
      rw [multimapLookup_of_entry hentry] at hnil
      obtain ⟨n, hn, -, rfl⟩ := (hashEntry_eq_some_iff hf h.placed).mp hentry
      exact absurd hnil (h.nonempty n hn)

/-- Two tables with the same entry for a key store the same under it. -/
theorem storedUnder_congr {m' : Multimap K V} {k : K}
    (h : hashEntry f m'.hashTab k = hashEntry f m.hashTab k) :
    storedUnder f m' k = storedUnder f m k := by
  rw [storedUnder, storedUnder, multimapLookup, multimapLookup, hashLookup_eq_map,
    hashLookup_eq_map, h]

theorem storedUnder_of_entry {e : K × MultimapNode K V}
    (h : hashEntry f m.hashTab key = some e) :
    storedUnder f m key = e.2.list.map MultimapPair.pair := by
  rw [storedUnder, multimapLookup_of_entry h]

/-- **A new pair goes in front of its class.**  The table of `m'` has, for the class of
`key`, a node whose list is the new cell in front of what was there. -/
theorem Stores.insert (hf : f.Compatible) (h : Stores f m live) {m' : Multimap K V} {val : V}
    {k₀ : K} (node : MultimapNode K V) (hplaced : m'.hashTab.WellPlaced f)
    (hnode : node.list = m.newPair key val :: (multimapLookup f m key).1)
    (hentry : ∀ k, hashEntry f m'.hashTab k =
      if f.Same key k then some (k₀, node) else hashEntry f m.hashTab k)
    (hnodes : ∀ n ∈ m'.hashTab.nodes, n ∈ m.hashTab.nodes ∨ n.pairs = node.list)
    (htotal : m'.totalPairs = m.totalPairs + 1) : Stores f m' ((key, val) :: live) where
  placed := hplaced
  nonempty n hn := by
    rcases hnodes n hn with hold | hnew
    · exact h.nonempty n hold
    · rw [hnew, hnode]
      exact List.cons_ne_nil _ _
  under k := by
    by_cases hs : f.Same key k
    · have hk := hentry k
      rw [if_pos hs] at hk
      rw [storedUnder_of_entry hk, hnode, List.map_cons, classOf_cons_same (hf.equiv.symm hs),
        classOf_congr hf (hf.equiv.symm hs), ← h.under key]
      rfl
    · have hk := hentry k
      rw [if_neg hs] at hk
      rw [storedUnder_congr hk, classOf_cons_other fun hs' => hs (hf.equiv.symm hs')]
      exact h.under k
  total := by rw [htotal, h.total, List.length_cons]

/-- **Deleting from a class.**  The pairs under `key` whose values satisfy `q` go, and the
node with them if it has no other. -/
theorem Stores.remove (hf : f.Compatible) (h : Stores f m live) {m' : Multimap K V}
    {q : V → Bool} (hplaced : m'.hashTab.WellPlaced f)
    (hunder : storedUnder f m' key = (storedUnder f m key).filter fun p => !q p.2)
    (hcongr : ∀ k, f.Same key k → hashEntry f m'.hashTab k = hashEntry f m'.hashTab key)
    (hother : ∀ k, ¬ f.Same key k → hashEntry f m'.hashTab k = hashEntry f m.hashTab k)
    (hnonempty : ∀ n ∈ m'.hashTab.nodes, n.pairs ≠ [])
    (htotal : m'.totalPairs + ((storedUnder f m key).filter fun p => q p.2).length =
      m.totalPairs) : Stores f m' (without f key q live) where
  placed := hplaced
  nonempty := hnonempty
  under k := by
    by_cases hs : f.Same key k
    · rw [storedUnder, multimapLookup, hashLookup_eq_map, hcongr k hs, ← hashLookup_eq_map,
        ← multimapLookup, ← storedUnder, hunder, h.under, classOf_congr hf (hf.equiv.symm hs),
        classOf_without_same]
    · rw [storedUnder_congr (hother k hs), h.under, classOf_without_other hf hs]
  total := by
    have hlength := length_without f key q live
    rw [h.under, h.total] at htotal
    omega

/-- `multimap_insert` answers and stores as specified. -/
theorem Stores.multimapInsert (hf : f.Compatible) (hassert : f.asserts = false)
    (h : Stores f m live) {val : V} (hG : GrowthEnds f m (.insert key val)) :
    ∃ m', multimapInsert f m key val = .ok ((classOf f key live).isEmpty, m') ∧
      Stores f m' ((key, val) :: live) := by
  have h0 := h.placed.size_pos
  cases hentry : hashEntry f m.hashTab key with
  | some e =>
    have hne : (classOf f key live).isEmpty = false := by
      rw [Bool.eq_false_iff, Ne, List.isEmpty_iff, ← h.entry_eq_none_iff hf, hentry]
      simp
    have hlook : hashLookup f m.hashTab key = some e.2 := by
      rw [hashLookup_eq_map, hentry]
      rfl
    obtain ⟨i, hp, hnode⟩ := hashLookup_eq_some hlook
    refine ⟨_, by rw [NetCosm.multimapInsert, hlook, hne], ?_⟩
    refine h.insert hf (e.2.push (m.newPair key val)) (h.placed.hashSetData key _) ?_
      (fun k => hashEntry_setData hf h.placed hp _ k) (fun n hn => ?_) rfl
    · rw [multimapLookup_of_entry hentry]
      rfl
    · rcases (mem_nodes_hashSetData hp).mp hn with rfl | hrest
      · exact Or.inr rfl
      · exact Or.inl ((mem_nodes_iff_unlink hp).mpr (Or.inr hrest))
  | none =>
    have hempty : (classOf f key live).isEmpty = true :=
      List.isEmpty_iff.mpr ((h.entry_eq_none_iff hf).mp hentry)
    have hlook : hashLookup f m.hashTab key = none := by
      rw [hashLookup_eq_map, hentry]
      rfl
    have hcounted : m.hashTab.Counted f := fun ha => absurd ha (by simp [hassert])
    obtain ⟨tab, htab, -, hperm⟩ := hashInternalInsertNew_of_ends
      (MultimapNode.single (m.newPair key val)) h0 hcounted
      fun hg => hG (by rw [Multimap.grows, hlook]; exact hg)
    obtain ⟨hplaced, hentries⟩ := hashEntry_insertNew hf h.placed hentry htab
    have hins : hashInsert f m.hashTab key (MultimapNode.single (m.newPair key val)) =
        .ok (none, tab) := by
      rw [hashInsert, hlook]
      simp only [htab]
      rfl
    refine ⟨{ m with totalPairs := m.totalPairs + 1, fresh := m.fresh + 1, hashTab := tab }, ?_,
      ?_⟩
    · rw [NetCosm.multimapInsert, hlook, hempty]
      simp only [Multimap.newPair] at hins
      simp only [hins]
      rfl
    · refine h.insert hf _ hplaced ?_ hentries (fun n hn => ?_) rfl
      · rw [multimapLookup_of_no_entry hentry]
        rfl
      · rcases List.mem_cons.mp (hperm.mem_iff.mp hn) with rfl | hold
        · exact Or.inr rfl
        · exact Or.inl hold

variable (key) in
/-- `multimap_delete` answers and stores as specified. -/
theorem Stores.multimapDelete (hf : f.Compatible) (compareVal : V → V → ℤ)
    (h : Stores f m live) (val : V) :
    (multimapDelete f compareVal m key val).1.length =
        ((classOf f key live).filter fun p => compareVal val p.2 == 0).length ∧
      Stores f (multimapDelete f compareVal m key val).2
        (without f key (fun v => compareVal val v == 0) live) := by
  have hfreed : (NetCosm.multimapDelete f compareVal m key val).1.length =
      ((storedUnder f m key).filter fun p => compareVal val p.2 == 0).length := by
    rw [multimapDelete_fst, storedUnder, List.filter_map, List.length_map]
    rfl
  refine ⟨by rw [hfreed, h.under], ?_⟩
  have hle : ((storedUnder f m key).filter fun p => compareVal val p.2 == 0).length ≤
      m.totalPairs := by
    have hlength := length_without f key (fun v => compareVal val v == 0) live
    rw [h.under, h.total]
    omega
  rcases multimapDelete_cases f compareVal m key val with
    ⟨hl, hd⟩ | ⟨node, i, hl, hp, hk, hd⟩ | ⟨node, i, hl, hp, hk, hd⟩
  · -- nothing is stored under the key
    have hentry : hashEntry f m.hashTab key = none :=
      hashEntry_eq_none_iff_pos.mpr (hashLookup_eq_none_iff.mp hl)
    have hnil : storedUnder f m key = [] := by rw [storedUnder, multimapLookup_of_no_entry hentry]; rfl
    rw [hd]
    refine h.remove hf h.placed (by rw [hnil]; rfl) (fun k hs => ?_) (fun k _ => rfl) h.nonempty
      (by rw [hnil]; rfl)
    exact (hashEntry_congr hf h.placed hs).symm
  · -- the node loses its last pair, and goes
    rw [hd] at hfreed ⊢
    have hunlink := hashEntry_unlink hf h.placed hp
    have hplaced := h.placed.unlink (i := i) (bucket_lt_of_pos hp)
    have hgone : hashEntry f (unlink m.hashTab (f.bucket key m.hashTab.tableSz) i) key = none := by
      rw [hunlink, if_pos (hf.equiv.refl key)]
    refine h.remove hf hplaced ?_ (fun k hs => (hashEntry_congr hf hplaced hs).symm)
      (fun k hs => by rw [hunlink, if_neg hs]) (fun n hn => ?_) ?_
    · rw [storedUnder, multimapLookup_of_no_entry hgone]
      rw [storedUnder, multimapLookup, hl, List.filter_map]
      have hkept : (node.list.filter fun p => !(compareVal val p.val == 0)) = [] := hk
      simpa [MultimapPair.pair] using hkept.symm
    · exact h.nonempty n ((mem_nodes_iff_unlink hp).mpr (Or.inr hn))
    · rw [← hfreed]
      exact Nat.sub_add_cancel (hfreed.le.trans hle)
  · -- the node keeps some pairs
    rw [hd] at hfreed ⊢
    have hset := hashEntry_setData hf h.placed hp (node.kept compareVal val)
    have hplaced := h.placed.hashSetData key (node.kept compareVal val)
    have hthere : hashEntry f (hashSetData f m.hashTab key (node.kept compareVal val)) key =
        some ((HashMap.nodeAt hp).key, node.kept compareVal val) := by
      rw [hset, if_pos (hf.equiv.refl key)]
    refine h.remove hf hplaced ?_ (fun k hs => (hashEntry_congr hf hplaced hs).symm)
      (fun k hs => by rw [hset, if_neg hs]) (fun n hn => ?_) ?_
    · rw [storedUnder_of_entry hthere]
      rw [storedUnder, multimapLookup, hl, List.filter_map]
      rfl
    · rcases (mem_nodes_hashSetData hp).mp hn with rfl | hrest
      · exact hk
      · exact h.nonempty n ((mem_nodes_iff_unlink hp).mpr (Or.inr hrest))
    · rw [← hfreed]
      exact Nat.sub_add_cancel (hfreed.le.trans hle)

variable (key) in
/-- `multimap_delete_all` answers and stores as specified. -/
theorem Stores.multimapDeleteAll (hf : f.Compatible) (h : Stores f m live) :
    (multimapDeleteAll f m key).1.length = (classOf f key live).length ∧
      Stores f (multimapDeleteAll f m key).2 (without f key (fun _ => true) live) := by
  have hall : ((storedUnder f m key).filter fun _ => true) = storedUnder f m key :=
    List.filter_true _
  have hnone : ((storedUnder f m key).filter fun _ => !true) = [] := List.filter_false _
  have hle : (storedUnder f m key).length ≤ m.totalPairs := by
    rw [h.under, h.total]
    exact List.length_filter_le _ _
  rcases multimapDeleteAll_cases f m key with ⟨hl, hd⟩ | ⟨node, i, hl, hp, hd⟩
  · have hentry : hashEntry f m.hashTab key = none :=
      hashEntry_eq_none_iff_pos.mpr (hashLookup_eq_none_iff.mp hl)
    have hnil : storedUnder f m key = [] := by rw [storedUnder, multimapLookup_of_no_entry hentry]; rfl
    rw [hd]
    refine ⟨by rw [← h.under, hnil]; rfl, ?_⟩
    refine h.remove hf h.placed (by rw [hnil]; rfl) (fun k hs => ?_) (fun k _ => rfl) h.nonempty
      (by rw [hnil]; rfl)
    exact (hashEntry_congr hf h.placed hs).symm
  · have hstored : storedUnder f m key = node.list.map MultimapPair.pair := by
      rw [storedUnder, multimapLookup, hl]
    have hunlink := hashEntry_unlink hf h.placed hp
    have hplaced : ({ unlink m.hashTab (f.bucket key m.hashTab.tableSz) i with
        nEntries := m.hashTab.nEntries - 1 } : HashMap K _).WellPlaced f :=
      (h.placed.unlink (i := i) (bucket_lt_of_pos hp)).of_table_eq rfl
    have hgone : hashEntry f (unlink m.hashTab (f.bucket key m.hashTab.tableSz) i) key = none := by
      rw [hunlink, if_pos (hf.equiv.refl key)]
    rw [hd]
    refine ⟨by rw [← h.under, hstored, List.length_map], ?_⟩
    refine h.remove hf hplaced ?_ (fun k hs => (hashEntry_congr hf hplaced hs).symm)
      (fun k hs => (hunlink k).trans (if_neg hs)) (fun n hn => ?_) ?_
    · rw [hnone, storedUnder, multimapLookup_of_no_entry hgone]
      rfl
    · exact h.nonempty n ((mem_nodes_iff_unlink hp).mpr (Or.inr hn))
    · rw [hall]
      rw [hstored, List.length_map, ← node.counted] at hle ⊢
      show m.totalPairs - node.nPairs + node.nPairs = m.totalPairs
      omega

/-- **A multimap simulates a list of live pairs**, and stops exactly at the growths that
do not end. -/
theorem multimapCall_simulates (hf : f.Compatible) (hassert : f.asserts = false)
    (compareVal : V → V → ℤ) :
    Simulates (multimapCall f compareVal) (liveCall f compareVal) (Stores f)
      (GrowthEnds f) where
  answered {m live c} hR hG := by
    cases c with
    | insert key val =>
      obtain ⟨m', hm', hR'⟩ := hR.multimapInsert hf hassert hG
      exact ⟨m', by rw [multimapCall, hm']; rfl, hR'⟩
    | delete key val =>
      obtain ⟨hlen, hR'⟩ := hR.multimapDelete key hf compareVal val
      exact ⟨_, by rw [multimapCall, hlen]; rfl, hR'⟩
    | deleteAll key =>
      obtain ⟨hlen, hR'⟩ := hR.multimapDeleteAll key hf
      exact ⟨_, by rw [multimapCall, hlen]; rfl, hR'⟩
    | lookup key =>
      refine ⟨m, ?_, hR⟩
      have hlen : (multimapLookup f m key).2 = (classOf f key live).length := by
        rw [← hR.under, storedUnder, List.length_map, multimapLookup_counted]
      rw [multimapCall, hlen, ← storedUnder, hR.under]
      rfl
    | size => exact ⟨m, by rw [multimapCall, multimapSize, hR.total]; rfl, hR⟩
  stopped {m live c} _ hG := by
    cases c with
    | insert key val =>
      simp only [GrowthEnds, Classical.not_imp, Nat.not_lt] at hG
      obtain ⟨hgrows, hsz⟩ := hG
      rw [Multimap.grows, Bool.and_eq_true, Option.isNone_iff_eq_none] at hgrows
      obtain ⟨hl, hgrows⟩ := hgrows
      refine ⟨.endlessLoop, ?_⟩
      have hins : hashInsert f m.hashTab key (MultimapNode.single (m.newPair key val)) =
          .error .endlessLoop := hashInsert_stops fun hends =>
        absurd (hends (hashLookup_eq_none_iff.mp hl) hgrows) (Nat.not_lt_of_le hsz)
      rw [multimapCall, multimapInsert, hl]
      simp only [Multimap.newPair] at hins
      simp only [hins]
      rfl
    | delete key val => exact absurd trivial hG
    | deleteAll key => exact absurd trivial hG
    | lookup key => exact absurd trivial hG
    | size => exact absurd trivial hG

theorem stores_multimapInit (f : HashEnv K) (sz : ℕ) :
    Stores f (multimapInit sz : Multimap K V) [] where
  placed := wellPlaced_hashInit f sz
  nonempty := by simp [multimapInit, hashInit]
  under k := by
    have hentry : hashEntry f (multimapInit sz : Multimap K V).hashTab k = none :=
      hashEntry_fresh f _ k
    rw [storedUnder, multimapLookup_of_no_entry hentry]
    rfl
  total := rfl

end Refinement

/-- **The multimap refines a map from keys to lists.**  Take any hash function and key
comparison such that comparing is an equivalence and keys that compare equal hash equally,
any comparison of values, any initial size and any calls, with `assert` compiled out.
The answers are those of the list of live pairs, and no node is ever left without pairs,
exactly when no insertion makes a table of `2 ^ 32` or more buckets grow. -/
theorem multimap_refines_iff (f : HashEnv K) (hf : f.Compatible) (hassert : f.asserts = false)
    (compareVal : V → V → ℤ) (sz : ℕ) (calls : List (MultimapCall K V)) :
    (answers (multimapCall f compareVal) (multimapInit sz) calls =
          .ok (specAnswers (liveCall f compareVal) [] calls) ∧
        Runs.Always (advance (multimapCall f compareVal))
          (fun m => ∀ n ∈ m.hashTab.nodes, n.pairs ≠ []) (multimapInit sz) calls) ↔
      Runs.EachStep (advance (multimapCall f compareVal)) (GrowthEnds f)
        (multimapInit sz) calls := by
  have hsim := multimapCall_simulates hf hassert compareVal
  rw [hsim.answers_eq_iff (stores_multimapInit f sz), and_iff_left]
  exact hsim.always (fun m live h => h.nonempty) (stores_multimapInit f sz) calls

/-- `oneBucketEnv` with `assert` compiled out. -/
def oneBucketFreeEnv : HashEnv ℤ := { oneBucketEnv with asserts := false }

theorem compatible_oneBucketFreeEnv : oneBucketFreeEnv.Compatible :=
  ⟨compatible_oneBucketEnv.equiv, compatible_oneBucketEnv.hash_eq⟩

/-- Three pairs under one key and one under another, in one bucket; the middle pair and then
the whole class go. -/
theorem multimap_refines_two_keys :
    answers (multimapCall oneBucketFreeEnv fun a b : ℤ => a - b) (multimapInit 1)
        [.insert 1 10, .insert 2 20, .insert 1 11, .insert 1 10, .delete 1 11, .lookup 1,
          .deleteAll 1, .lookup 2, .size] =
      .ok (specAnswers (liveCall oneBucketFreeEnv fun a b : ℤ => a - b) []
        [.insert 1 10, .insert 2 20, .insert 1 11, .insert 1 10, .delete 1 11, .lookup 1,
          .deleteAll 1, .lookup 2, .size]) :=
  ((multimap_refines_iff oneBucketFreeEnv compatible_oneBucketFreeEnv rfl _ 1 _).mpr
    (by decide +kernel)).1

/-- Three keys in one bucket of a table of `2 ^ 32`, deleted from the front, leave
`used_buckets` at two below zero; the next insertion finds the table overloaded. -/
theorem insert_endless_after_undercount {t : List (List (HashNode ℤ (MultimapNode ℤ ℤ)))}
    (ht : t.length + 1 = unsignedRange) :
    answers (multimapCall oneBucketFreeEnv fun a b => a - b)
      { hashTab := ⟨[] :: t, 0, 0⟩, totalPairs := 0, refcount := 1, fresh := 0 }
      [.insert 1 10, .insert 2 20, .insert 3 30, .delete 1 10, .delete 2 20, .delete 3 30,
        .insert 1 10] = .error .endlessLoop := by
  have hbucket : ∀ k sz, oneBucketFreeEnv.bucket k sz = 0 := fun _ _ => Nat.zero_mod _
  have hsame : ∀ a b, oneBucketFreeEnv.Same a b ↔ a - b = 0 := fun _ _ => Iff.rfl
  have hchain : ∀ c n u, (⟨c :: t, n, u⟩ : HashMap ℤ (MultimapNode ℤ ℤ)).chain 0 = c :=
    fun _ _ _ => rfl
  have hsz : ∀ c n u, (⟨c :: t, n, u⟩ : HashMap ℤ (MultimapNode ℤ ℤ)).tableSz = unsignedRange :=
    fun _ _ _ => ht
  have hload : ∀ c n u, overloaded (⟨c :: t, n, u⟩ : HashMap ℤ (MultimapNode ℤ ℤ)) =
      decide ((49152 : UInt64) ≤ (u <<< 16) / (4294967296 : UInt64)) := by
    intro c n u
    rw [overloaded, hsz]
    rfl
  -- one used bucket does not overload the table, a wrapped count does
  have hone : ¬ (49152 : UInt64) ≤ (1 : UInt64) <<< (16 : UInt64) / 4294967296 := by decide
  have hwrapped : (49152 : UInt64) ≤ (-1 : UInt64) <<< (16 : UInt64) / 4294967296 := by decide
  have hdouble : unsignedRange * 2 ≠ unsignedRange := by decide
  simp [answers, multimapCall, multimapInsert, multimapDelete, hashLookup, hashInsert,
    hashInternalInsertNew_eq, growsAt, hbucket, hsame, hchain, hsz, MultimapNode.single,
    appendNode, hload, Except.map, MultimapNode.deleted, MultimapNode.kept,
    hashGetInternalNode, HashMap.pos, hashDelInternalNode, unlink, HashMap.setChain,
    hashResize, hdouble, hone, hwrapped, List.findIdx?_cons]

/-- A multimap created with `2 ^ 32` buckets and that history does not answer. -/
theorem multimap_not_refines_huge :
    answers (multimapCall oneBucketFreeEnv fun a b => a - b) (multimapInit (2 ^ 32))
        [.insert 1 10, .insert 2 20, .insert 3 30, .delete 1 10, .delete 2 20, .delete 3 30,
          .insert 1 10] ≠
      .ok (specAnswers (liveCall oneBucketFreeEnv fun a b => a - b) []
        [.insert 1 10, .insert 2 20, .insert 3 30, .delete 1 10, .delete 2 20, .delete 3 30,
          .insert 1 10]) := by
  have hinit : (multimapInit (2 ^ 32) : Multimap ℤ ℤ) =
      { hashTab := ⟨[] :: List.replicate (2 ^ 32 - 1) [], 0, 0⟩, totalPairs := 0, refcount := 1,
        fresh := 0 } := by
    rw [← List.replicate_succ]
    rfl
  rw [hinit, insert_endless_after_undercount (by rw [List.length_replicate]; rfl)]
  simp

end NetCosm
