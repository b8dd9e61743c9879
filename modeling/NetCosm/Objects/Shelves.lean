import NetCosm.Objects.RefCount
import NetCosm.Objects.Shifts
import NetCosm.Table.Spellings

/-!
# The strings an object is stored under

A room keeps one pair for each string an object is to be found by: its name, and each of
its aliases.  `storedUnder` reads the strings off the pairs, and what the room's map should
be is said with it: the strings of an object in the room are, in some order, the keys of
the object.  This file follows `storedUnder` through the multimap.

1. An insertion adds its string to those of its object (`textsOf_insertKeys`), and a
   deletion under all keys of an object leaves it none (`textsOf_deleteAll`).  Neither does
   anything to another object.
2. `Shelf` is what is said of the map itself: it is sound, no node of it is without cells,
   and it is the only map there is.  `StoredOnce` is what is said of one object.
3. `count_listed` is what the two come to.  A lookup under a key of an object finds the
   object exactly once, in any spelling that hashes to the bucket of the key.
4. A table key is the string of the object that was stored under it first, and is freed
   with it.  `KeysOutlive` is the condition that no deletion leaves such a key behind, and
   `keysLive_of_keysOutlive` says that it is enough.
-/

namespace NetCosm

open World

variable {asserts : Bool} {w w' : World ℕ} {m m' : ObjMap} {room : RoomId} {id x : ObjId}
  {o : Object ℕ} {held : ObjId → ℕ}

/-- The strings of the pairs of a map that refer to an object. -/
def textsOf (m : ObjMap) (id : ObjId) : List CString :=
  (m.pairs.filter fun p => p.val = id).map fun p => p.key.text

/-- The strings an object is stored under in a room. -/
def World.storedUnder (w : World ℕ) (room : RoomId) (id : ObjId) : List CString :=
  ((w.pairsIn (.room room)).filter fun p => p.val = id).map fun p => p.key.text

theorem storedUnder_eq (hm : w.map? (.room room) = some m) (id : ObjId) :
    w.storedUnder room id = textsOf m id := by
  rw [World.storedUnder, pairsIn_eq hm]
  rfl

theorem mem_textsOf_iff {text : CString} :
    text ∈ textsOf m id ↔ ∃ p ∈ m.pairs, p.val = id ∧ p.key.text = text := by
  simp [textsOf, and_assoc]

theorem textsOf_eq_nil_iff : textsOf m id = [] ↔ ∀ p ∈ m.pairs, p.val ≠ id := by
  rw [textsOf, List.map_eq_nil_iff, List.filter_eq_nil_iff]
  simp

/-- An object is in a room if it is stored under some string. -/
theorem inContainer_iff_textsOf (hm : w.map? (.room room) = some m) :
    w.InContainer (.room room) id ↔ textsOf m id ≠ [] := by
  rw [World.InContainer, pairsIn_eq hm, Ne, textsOf_eq_nil_iff]
  push Not
  rfl

theorem length_textsOf (m : ObjMap) (id : ObjId) : (textsOf m id).length = refsIn m.pairs id := by
  rw [textsOf, List.length_map, refsIn, List.countP_eq_length_filter]
  rfl

/-! ## What the multimap does to the strings -/

/-- An insertion stores its object under one string more, and no other object. -/
theorem textsOf_insert {key : ObjKey} {r : Bool} (h0 : 0 < m.hashTab.tableSz)
    (h : multimapInsert (objEnv asserts) m key id = .ok (r, m')) :
    (textsOf m' id).Perm (key.text :: textsOf m id) ∧
      ∀ x, x ≠ id → (textsOf m' x).Perm (textsOf m x) := by
  have hperm := (perm_pairs_insert h0 h).1
  refine ⟨?_, fun x hx => ?_⟩
  · have hself := (hperm.filter fun p => p.val = id).map fun p => p.key.text
    rwa [List.filter_cons_of_pos (by simp [Multimap.newPair])] at hself
  · have hother := (hperm.filter fun p => p.val = x).map fun p => p.key.text
    rwa [List.filter_cons_of_neg (by simp [Multimap.newPair, Ne.symm hx])] at hother

/-- **The strings after an object has been inserted under some keys.** -/
theorem textsOf_insertKeys {keys : List ObjKey} (hm : m.Regular (objEnv asserts))
    (h : Runs.run (multimapStep (objEnv asserts) objCompare) m
      (keys.map fun key => .insert key id) = .ok m') :
    (textsOf m' id).Perm (keys.map ObjKey.text ++ textsOf m id) ∧
      ∀ x, x ≠ id → (textsOf m' x).Perm (textsOf m x) := by
  induction keys generalizing m with
  | nil =>
    obtain rfl := Except.ok.inj h
    exact ⟨List.Perm.refl _, fun x _ => List.Perm.refl _⟩
  | cons key keys ih =>
    rw [List.map_cons] at h
    cases hstep : multimapStep (objEnv asserts) objCompare m (.insert key id) with
    | error e =>
      rw [Runs.run_cons_error hstep] at h
      exact absurd h (by simp)
    | ok m₁ =>
      rw [Runs.run_cons_ok hstep] at h
      obtain ⟨hself, hother⟩ := ih (regular_step (objEnv_equivalence asserts) hm hstep) h
      obtain ⟨⟨r, m₂⟩, hins, rfl⟩ := map_eq_ok hstep
      obtain ⟨hself₁, hother₁⟩ := textsOf_insert hm.placed.size_pos hins
      refine ⟨?_, fun x hx => (hother x hx).trans (hother₁ x hx)⟩
      calc (textsOf m' id).Perm (keys.map ObjKey.text ++ textsOf m₂ id) := hself
        List.Perm _ (keys.map ObjKey.text ++ key.text :: textsOf m id) := hself₁.append_left _
        List.Perm _ (key.text :: (keys.map ObjKey.text ++ textsOf m id)) := List.perm_middle

/-- A deletion does nothing to the strings of other objects. -/
theorem textsOf_delete {key : ObjKey} (hx : x ≠ id) :
    (textsOf (multimapDelete (objEnv asserts) objCompare m key id).2 x).Perm (textsOf m x) := by
  have hperm := ((perm_pairs_delete (objEnv asserts) objCompare m key id).1.filter
    fun p => p.val = x).map fun p => p.key.text
  have hfreed : (multimapDelete (objEnv asserts) objCompare m key id).1.filter
      (fun p => p.val = x) = [] := by
    rw [List.filter_eq_nil_iff]
    intro p hp
    rw [multimapDelete_fst, List.mem_filter, beq_iff_eq, objCompare_eq_zero_iff] at hp
    simpa [← hp.2] using Ne.symm hx
  rwa [List.filter_append, hfreed, List.nil_append] at hperm

/-- What deletions of an object do to other objects, and to the nodes. -/
theorem textsOf_deleteOps {texts : List CString}
    (h : Runs.run (multimapStep (objEnv asserts) objCompare) m (deleteOps id texts) = .ok m') :
    (∀ x, x ≠ id → (textsOf m' x).Perm (textsOf m x)) ∧
      ∀ n' ∈ m'.hashTab.nodes, ∃ n ∈ m.hashTab.nodes, n.key = n'.key ∧
        ∀ p ∈ n'.pairs, p ∈ n.pairs := by
  induction texts generalizing m with
  | nil =>
    obtain rfl := Except.ok.inj h
    exact ⟨fun x _ => List.Perm.refl _, fun n hn => ⟨n, hn, rfl, fun _ hp => hp⟩⟩
  | cons text texts ih =>
    rw [deleteOps, List.map_cons, Runs.run_cons_ok rfl] at h
    obtain ⟨hother, hnodes⟩ := ih h
    refine ⟨fun x hx => (hother x hx).trans (textsOf_delete hx), fun n' hn' => ?_⟩
    obtain ⟨n₁, hn₁, hkey₁, hsub₁⟩ := hnodes n' hn'
    obtain ⟨n, hn, hkey, hsub⟩ := exists_node_of_mem_delete hn₁
    exact ⟨n, hn, hkey.trans hkey₁, fun p hp => hsub p (hsub₁ p hp)⟩

/-! ## The map of the room -/

/-- The map of the room: it is sound, its nodes have cells, and there is no other map. -/
structure Shelf (asserts : Bool) (room : RoomId) (w : World ℕ) (m : ObjMap) : Prop where
  map : w.map? (.room room) = some m
  only : ∀ c m', w.map? c = some m' → c = .room room
  sound : m.Sound (objEnv asserts)
  nonempty : ∀ n ∈ m.hashTab.nodes, n.pairs ≠ []

/-- If the object is in the room, its keys are apart, and it is stored once under each. -/
def StoredOnce (w : World ℕ) (m : ObjMap) (id : ObjId) : Prop :=
  ∀ o, w.objects id = some o → textsOf m id ≠ [] →
    KeysApart o.keys ∧ (textsOf m id).Perm o.keys

/-- All pairs there are, are those of the room. -/
theorem Shelf.cells_eq (h : Shelf asserts room w m) : w.cells = m.pairs := by
  obtain ⟨pre, post, hmaps, -⟩ := exists_maps_eq h.map
  have hnodup := w.distinct
  have hroom : ∀ e ∈ pre ++ post, e.1 = .room room := by
    intro e he
    refine h.only e.1 e.2 (mem_maps_iff.mp ?_)
    rw [hmaps]
    rcases List.mem_append.mp he with he | he
    · exact List.mem_append_left _ he
    · exact List.mem_append_right _ (List.mem_cons_of_mem _ he)
  rw [hmaps, List.map_append, List.map_cons] at hnodup
  have hnone := (List.nodup_cons.mp (List.perm_middle.nodup_iff.mp hnodup)).1
  rw [← List.map_append] at hnone
  have hnil : pre ++ post = [] := by
    rw [List.eq_nil_iff_forall_not_mem]
    exact fun e he => hnone (List.mem_map.mpr ⟨e, he, hroom e he⟩)
  obtain ⟨rfl, rfl⟩ := List.append_eq_nil_iff.mp hnil
  simp [World.cells, hmaps]

theorem Shelf.refs_eq (h : Shelf asserts room w m) (id : ObjId) :
    w.refs id = (textsOf m id).length := by
  rw [World.refs, h.cells_eq, length_textsOf]

/-- **What operations on the map leave.** -/
theorem Shelf.acts {ops : List (MultimapOp ObjKey ObjId)} (h : Shelf asserts room w m)
    (hacts : Acts asserts (.room room) id ops w w')
    (hgrow : w.GrowsAlong asserts (.room room) ops) :
    ∃ m', Shelf asserts room w' m' ∧
      Runs.run (multimapStep (objEnv asserts) objCompare) m ops = .ok m' := by
  obtain ⟨m₀, m', hm₀, hm', hrun⟩ := hacts.map
  obtain rfl : m₀ = m := Option.some.inj (hm₀.symm.trans h.map)
  refine ⟨m', ⟨hm', fun c mc hmc => ?_, ?_, ?_⟩, hrun⟩
  · by_contra hc
    exact hc (h.only c mc ((hacts.others c hc).symm.trans hmc))
  · obtain ⟨m₁, hrun₁, hsound⟩ :=
      sound_run_of_growsWell (objEnv_equivalence asserts) h.sound (hgrow m₀ hm₀)
    obtain rfl : m' = m₁ := Except.ok.inj (hrun.symm.trans hrun₁)
    exact hsound
  · refine (Runs.invariant_run (I := fun m₁ : ObjMap => m₁.Regular (objEnv asserts) ∧
      ∀ n ∈ m₁.hashTab.nodes, n.pairs ≠ []) (fun m₁ op m₂ hm₁ hstep => ?_)
      ⟨h.sound.toRegular, h.nonempty⟩ hrun).2
    exact ⟨regular_step (objEnv_equivalence asserts) hm₁.1 hstep,
      nonempty_multimapStep hm₁.1.placed.size_pos hm₁.2 hstep⟩

/-- **Inserting an object under some keys**, when these and those it was stored under make
up the keys it now has. -/
theorem Shelf.insert {keys : List ObjKey} {o' : Object ℕ} (h : Shelf asserts room w m)
    (hothers : ∀ x, x ≠ id → StoredOnce w m x)
    (hacts : Acts asserts (.room room) id (keys.map fun key => .insert key id) w w')
    (hgrow : w.GrowsAlong asserts (.room room) (keys.map fun key => .insert key id))
    (ho' : w'.objects id = some o') (hapart : KeysApart o'.keys)
    (hkeys : (keys.map ObjKey.text ++ textsOf m id).Perm o'.keys) :
    ∃ m', Shelf asserts room w' m' ∧ (∀ x, StoredOnce w' m' x) ∧
      (textsOf m' id).Perm o'.keys ∧ ∀ x, x ≠ id → (textsOf m' x).Perm (textsOf m x) := by
  obtain ⟨m', hshelf, hrun⟩ := h.acts hacts hgrow
  obtain ⟨hself, hother⟩ := textsOf_insertKeys h.sound.toRegular hrun
  refine ⟨m', hshelf, fun x o hx hne => ?_, hself.trans hkeys, hother⟩
  by_cases hid : x = id
  · subst hid
    obtain rfl : o' = o := Option.some.inj (ho'.symm.trans hx)
    exact ⟨hapart, hself.trans hkeys⟩
  · rw [hacts.objects x hid] at hx
    obtain ⟨hx₁, hx₂⟩ := hothers x hid o hx fun hnil =>
      hne (List.perm_nil.mp (hnil ▸ hother x hid))
    exact ⟨hx₁, (hother x hid).trans hx₂⟩

/-- **Deleting an object under all its keys.** -/
theorem Shelf.delete (h : Shelf asserts room w m) (honce : ∀ x, StoredOnce w m x)
    (ho : w.objects id = some o)
    (hacts : Acts asserts (.room room) id (deleteOps id (o.aliasList ++ [o.name])) w w') :
    ∃ m', Shelf asserts room w' m' ∧ (∀ x, StoredOnce w' m' x) ∧ textsOf m' id = [] ∧
      (∀ x, x ≠ id → (textsOf m' x).Perm (textsOf m x)) ∧
      ∀ n' ∈ m'.hashTab.nodes, ∃ n ∈ m.hashTab.nodes, n.key = n'.key ∧
        ∀ p ∈ n'.pairs, p ∈ n.pairs := by
  obtain ⟨m', hshelf, hrun⟩ := h.acts hacts (growsAlong_deleteOps w _ _)
  obtain ⟨hother, hnodes⟩ := textsOf_deleteOps hrun
  have hgone : textsOf m' id = [] := by
    rw [textsOf_eq_nil_iff]
    intro p hp hval
    obtain ⟨hold, hkept⟩ := (mem_pairs_deleteOps_iff h.sound.toRegular hrun).mp hp
    have htext : p.key.text ∈ textsOf m id := mem_textsOf_iff.mpr ⟨p, hold, hval, rfl⟩
    have hkey := (honce id o ho (List.ne_nil_of_mem htext)).2.mem_iff.mp htext
    refine hkept p.key.text (mem_aliases_append_name.mpr hkey) hval ?_
    rw [h.sound.mem_lookup_iff (objEnv_equivalence asserts)]
    exact ⟨hold, objEnv_same_iff.mpr rfl, rfl⟩
  refine ⟨m', hshelf, fun x ox hox hne => ?_, hgone, hother, hnodes⟩
  have hid : x ≠ id := by
    rintro rfl
    exact hne hgone
  rw [hacts.objects x hid] at hox
  obtain ⟨hx₁, hx₂⟩ := honce x ox hox fun hnil => hne (List.perm_nil.mp (hnil ▸ hother x hid))
  exact ⟨hx₁, (hother x hid).trans hx₂⟩

/-! ## What a lookup finds -/

/-- Of strings that are apart, one is equal to a given one of them up to case. -/
theorem countP_eq_one_of_keysApart {texts : List CString} {text : CString} {q : CString → Bool}
    (hapart : KeysApart texts) (htext : text ∈ texts) (hq : q text = true)
    (hsame : ∀ t ∈ texts, q t = true → compareStringsNocase t text = 0) :
    texts.countP q = 1 := by
  have hnodup : texts.Nodup := hapart.imp fun hne heq => hne (by
    rw [heq]
    exact compareStringsNocase_eq_zero_iff.mpr rfl)
  have hsymm : Std.Symm fun a b : CString => compareStringsNocase a b ≠ 0 := ⟨fun a b hab hba =>
    hab (compareStringsNocase_eq_zero_iff.mpr (compareStringsNocase_eq_zero_iff.mp hba).symm)⟩
  have hcount : texts.countP q = texts.count text := by
    refine List.countP_congr fun t ht => ⟨fun h => ?_, fun h => ?_⟩
    · by_contra hne
      exact hapart.forall ht htext (by simpa using hne) (hsame t ht h)
    · rw [show t = text by simpa using h]
      exact hq
  rw [hcount, List.count_eq_one_of_mem hnodup htext]

/-- **A lookup counts the keys** that compare equal and hash to its bucket. -/
theorem refsIn_lookup (h : m.Sound (objEnv asserts)) (key : ObjKey) (id : ObjId) :
    refsIn (multimapLookup (objEnv asserts) m key).1 id =
      (textsOf m id).countP fun text => decide ((objEnv asserts).Same key ⟨text, none⟩ ∧
        (objEnv asserts).bucket ⟨text, none⟩ m.hashTab.tableSz =
          (objEnv asserts).bucket key m.hashTab.tableSz) := by
  have hnodup : m.pairs.Nodup := h.nodup.of_map _
  have hfound : ((multimapLookup (objEnv asserts) m key).1).Nodup := by
    unfold multimapLookup
    cases hl : hashLookup (objEnv asserts) m.hashTab key with
    | none => exact List.nodup_nil
    | some node =>
      obtain ⟨n, hn, -, rfl⟩ := (hashLookup_eq_some_iff (objEnv_equivalence asserts) h.placed).mp hl
      have hnodes : (m.hashTab.nodes.flatMap HashNode.pairs).Nodup := hnodup
      exact (List.nodup_flatMap.mp hnodes).1 n (Buckets.mem_items_iff.mpr ⟨_, hn⟩)
  have hperm : ((multimapLookup (objEnv asserts) m key).1).Perm (m.pairs.filter fun p =>
      decide ((objEnv asserts).Same key ⟨p.key.text, none⟩ ∧
        (objEnv asserts).bucket ⟨p.key.text, none⟩ m.hashTab.tableSz =
          (objEnv asserts).bucket key m.hashTab.tableSz)) := by
    refine (List.perm_ext_iff_of_nodup hfound (hnodup.filter _)).mpr fun p => ?_
    rw [h.mem_lookup_iff (objEnv_equivalence asserts), List.mem_filter, decide_eq_true_eq]
    rfl
  rw [refsIn_perm hperm, refsIn, List.countP_filter, textsOf, List.countP_map,
    List.countP_filter]
  refine List.countP_congr fun p _ => ?_
  simp [Function.comp, and_comm]

/-- **An object is found exactly once under each of its keys**, in every spelling that
hashes to the bucket of the key. -/
theorem count_listed (h : m.Sound (objEnv asserts)) (honce : StoredOnce w m id)
    (ho : w.objects id = some o) (hin : textsOf m id ≠ []) {text text' : CString}
    (htext : text ∈ o.keys) (hsame : compareStringsNocase text text' = 0)
    (hbucket : (objEnv asserts).bucket ⟨text', none⟩ m.hashTab.tableSz =
      (objEnv asserts).bucket ⟨text, none⟩ m.hashTab.tableSz) :
    refsIn (multimapLookup (objEnv asserts) m ⟨text', none⟩).1 id = 1 := by
  obtain ⟨hapart, hperm⟩ := honce o ho hin
  have hlower := compareStringsNocase_eq_zero_iff.mp hsame
  rw [refsIn_lookup h, hperm.countP_eq]
  refine countP_eq_one_of_keysApart hapart htext ?_ fun t _ ht => ?_
  · exact decide_eq_true ⟨objEnv_same_iff.mpr hlower.symm, hbucket.symm⟩
  · have hsame' := objEnv_same_iff.mp (of_decide_eq_true ht).1
    exact compareStringsNocase_eq_zero_iff.mpr (hsame'.symm.trans hlower.symm)

/-- **An object is found under no other key**, and never twice under one. -/
theorem count_listed_le (h : m.Sound (objEnv asserts)) (honce : StoredOnce w m id)
    (ho : w.objects id = some o) (key : ObjKey) :
    refsIn (multimapLookup (objEnv asserts) m key).1 id ≤ 1 ∧
      (0 < refsIn (multimapLookup (objEnv asserts) m key).1 id →
        ∃ text ∈ o.keys, compareStringsNocase text key.text = 0) := by
  rw [refsIn_lookup h]
  by_cases hin : textsOf m id = []
  · simp [hin]
  · obtain ⟨hapart, hperm⟩ := honce o ho hin
    rw [hperm.countP_eq]
    by_cases hnone : ∃ text ∈ o.keys, (objEnv asserts).Same key ⟨text, none⟩ ∧
        (objEnv asserts).bucket ⟨text, none⟩ m.hashTab.tableSz =
          (objEnv asserts).bucket key m.hashTab.tableSz
    · obtain ⟨text, htext, hsame⟩ := hnone
      have hlower := objEnv_same_iff.mp hsame.1
      refine ⟨Nat.le_of_eq (countP_eq_one_of_keysApart hapart htext (decide_eq_true hsame)
        fun t _ ht => ?_), fun _ => ⟨text, htext, compareStringsNocase_eq_zero_iff.mpr hlower.symm⟩⟩
      have hsame' := objEnv_same_iff.mp (of_decide_eq_true ht).1
      exact compareStringsNocase_eq_zero_iff.mpr (hsame'.symm.trans hlower)
    · have hzero : o.keys.countP (fun text => decide ((objEnv asserts).Same key ⟨text, none⟩ ∧
          (objEnv asserts).bucket ⟨text, none⟩ m.hashTab.tableSz =
            (objEnv asserts).bucket key m.hashTab.tableSz)) = 0 := by
        rw [List.countP_eq_zero]
        exact fun text htext hq => hnone ⟨text, htext, of_decide_eq_true hq⟩
      rw [hzero]
      exact ⟨Nat.zero_le _, fun hpos => absurd hpos (Nat.lt_irrefl 0)⟩

/-! ## Table keys and the objects they belong to -/

/-- Take the objects `ids` out of the room, one after the other.  Where one that nobody else
refers to owns a table key, all pairs of that node refer to it or to objects taken out
before it. -/
def World.KeysOutlive (w : World ℕ) (room : RoomId) (ids : List ObjId) : Prop :=
  ∀ m ∈ w.map? (.room room), ∀ n ∈ m.hashTab.nodes, ∀ x ∈ n.key.owner, x ∈ ids →
    (∀ o ∈ w.objects x, o.refcount = w.refs x) →
      ∀ p ∈ n.pairs, p.val = x ∨ p.val ∈ ids.takeWhile fun y => y ≠ x

instance (w : World ℕ) (room : RoomId) (ids : List ObjId) : Decidable (w.KeysOutlive room ids) :=
  inferInstanceAs (Decidable (∀ m ∈ w.map? (.room room), ∀ n ∈ m.hashTab.nodes,
    ∀ x ∈ n.key.owner, x ∈ ids → (∀ o ∈ w.objects x, o.refcount = w.refs x) →
      ∀ p ∈ n.pairs, p.val = x ∨ p.val ∈ ids.takeWhile fun y => y ≠ x))

/-- **The table keys can still be read** after the first of the objects has been taken
out. -/
theorem keysLive_of_keysOutlive {ids : List ObjId} (hw : w.InOrder asserts held)
    (hw' : w'.Booked asserts held) (h : Shelf asserts room w m) (h' : Shelf asserts room w' m')
    (houtlive : w.KeysOutlive room (id :: ids)) (ho : w.objects id = some o)
    (hobjects : ∀ x, x ≠ id → w'.objects x = w.objects x) (hgone : textsOf m' id = [])
    (hnodes : ∀ n' ∈ m'.hashTab.nodes, ∃ n ∈ m.hashTab.nodes, n.key = n'.key ∧
      ∀ p ∈ n'.pairs, p ∈ n.pairs)
    (hlive : (w'.objects id).isSome = true → w'.KeysLive) : w'.KeysLive := by
  cases hid : w'.objects id with
  | some o' => exact hlive (by rw [hid]; rfl)
  | none =>
    rw [keysLive_iff]
    intro c mc hmc n' hn'
    obtain rfl := h'.only c mc hmc
    obtain rfl : mc = m' := Option.some.inj (hmc.symm.trans h'.map)
    obtain ⟨n, hn, hkey, hsub⟩ := hnodes n' hn'
    have hread := keysLive_iff.mp hw.keys _ m h.map n hn
    rw [← hkey]
    unfold World.readable at hread ⊢
    cases hown : n.key.owner with
    | none => rfl
    | some x =>
      rw [hown] at hread
      by_cases hx : x = id
      · -- nobody else refers to the object, so the cells of its node were its own
        subst hx
        have hcount : o.refcount = w.refs x := by
          have hdead := hw'.dead x hid
          have hbook := (hw.live x o ho).1
          omega
        have hown' := houtlive m h.map n hn x hown (List.mem_cons_self ..) fun o₁ ho₁ => by
          obtain rfl : o = o₁ := Option.some.inj (ho.symm.trans ho₁)
          exact hcount
        obtain ⟨p, hp⟩ := List.exists_mem_of_ne_nil _ (h'.nonempty n' hn')
        have hval : p.val = x := by simpa using hown' p (hsub p hp)
        exact absurd hval (textsOf_eq_nil_iff.mp hgone p (mem_pairs_iff.mpr ⟨n', hn', hp⟩))
      · simpa only [hobjects x hx] using hread

/-- What is asked of the objects that follow. -/
theorem World.KeysOutlive.tail {ids : List ObjId} (houtlive : w.KeysOutlive room (id :: ids))
    (hnotin : id ∉ ids) (h : Shelf asserts room w m) (h' : Shelf asserts room w' m')
    (hobjects : ∀ x, x ≠ id → w'.objects x = w.objects x) (hgone : textsOf m' id = [])
    (hothers : ∀ x, x ≠ id → (textsOf m' x).Perm (textsOf m x))
    (hnodes : ∀ n' ∈ m'.hashTab.nodes, ∃ n ∈ m.hashTab.nodes, n.key = n'.key ∧
      ∀ p ∈ n'.pairs, p ∈ n.pairs) : w'.KeysOutlive room ids := by
  intro m₁ hm₁ n' hn' x hown hx hcount p hp
  obtain rfl : m₁ = m' := Option.some.inj (hm₁.symm.trans h'.map)
  have hne : x ≠ id := fun heq => hnotin (heq ▸ hx)
  obtain ⟨n, hn, hkey, hsub⟩ := hnodes n' hn'
  have hrefs : w'.refs x = w.refs x := by
    rw [h'.refs_eq, h.refs_eq, (hothers x hne).length_eq]
  rw [hrefs, hobjects x hne] at hcount
  have hold := houtlive m h.map n hn x (hkey ▸ hown) (List.mem_cons_of_mem _ hx) hcount p
    (hsub p hp)
  refine hold.imp_right fun hmem => ?_
  rw [List.takeWhile_cons_of_pos (by simpa using Ne.symm hne)] at hmem
  rcases List.mem_cons.mp hmem with hval | hmem
  · exact absurd hval (textsOf_eq_nil_iff.mp hgone p (mem_pairs_iff.mpr ⟨n', hn', hp⟩))
  · exact hmem

end NetCosm
