import NetCosm.Objects.Shelves
import NetCosm.Objects.TakeAndDrop

/-!
# The object index of a room

What `room_obj_add`, `room_obj_add_alias`, `room_obj_del_by_ptr` and `room_obj_del` do to
one room, in any order.  The map of the room is meant to be an index: an object that is in
the room is found exactly once under its name and under each of its aliases, under nothing
else, and goes with all its keys.  `Indexed` says this with the pairs of the map and with
the lookups a caller makes, and `IndexOp.Does` says what each operation is to do.

Four things get in the way, and `IndexOp.Safe` is that none of them happens.

* **Growing.**  A growth may stop the server or lose keys (`GrowsAlong`).
* **A second spelling.**  `room_obj_add_alias` compares the alias with the other aliases by
  `strcasecmp`, and with the name by `strcmp`.  The name in another spelling is stored, and
  the object is then twice in one list (`index_lists_twice`).  The same holds of an object
  that comes with such keys.
* **A namesake.**  "The primary name must be added" looks for any object of that name.  If
  the room has another one, the object is stored under its alias only.
* **A key in freed memory.**  The key of a table node is the string of the object that was
  first stored under it, and stays the key when that object is destroyed (`KeysOutlive`).

And the number of references to an object must stay one that an `unsigned` can hold
(`IndexOp.Fits`): a creator may take as many as it likes.

`roomIndex_complete_of_safe` is the theorem about runs.

## Who holds the objects

An object is created with one reference, its creator's, and the creator may take more
(`hold`).  `room_obj_add` stores the reference of whoever calls it.  There is one room and
nobody else, so an object that is not in the room has a reference to give.
-/

namespace NetCosm

open World

variable {asserts : Bool} {w w' : World ℕ} {m m' : ObjMap} {room : RoomId} {id x : ObjId}
  {o : Object ℕ} {held : ObjId → ℕ} {name aliasName : CString} {T : Fault → Prop}

/-! ## The index -/

/-- A spelling of a string that is looked for in the same bucket.  The tables of up to `32`
buckets look for all spellings in one. -/
def World.SpelledAlike (asserts : Bool) (w : World ℕ) (room : RoomId) (text text' : CString) :
    Prop :=
  compareStringsNocase text text' = 0 ∧ ∀ m ∈ w.map? (.room room),
    (objEnv asserts).bucket ⟨text', none⟩ m.hashTab.tableSz =
      (objEnv asserts).bucket ⟨text, none⟩ m.hashTab.tableSz

/-- **The index of a room is complete and exact.** -/
structure World.Indexed (asserts : Bool) (room : RoomId) (w : World ℕ) : Prop where
  /-- An object in the room has one pair for each of its keys, and no other. -/
  stored : ∀ id, w.InContainer (.room room) id → ∃ o, w.objects id = some o ∧
    (w.storedUnder room id).Perm o.keys
  /-- It is found exactly once under each of its keys. -/
  complete : ∀ id o, w.objects id = some o → w.InContainer (.room room) id →
    ∀ text ∈ o.keys, ∀ text', w.SpelledAlike asserts room text text' →
      ∃ l, roomObjGet asserts w room ⟨text', none⟩ = .ok l ∧ refsIn l id = 1
  /-- Under any string, no object is found twice, and none that does not have it. -/
  exact : ∀ text, ∃ l, roomObjGet asserts w room ⟨text, none⟩ = .ok l ∧
    ∀ id, refsIn l id ≤ 1 ∧ (0 < refsIn l id →
      ∃ o, w.objects id = some o ∧ ∃ key ∈ o.keys, compareStringsNocase key text = 0)

theorem spelledAlike_self (asserts : Bool) (w : World ℕ) (room : RoomId) (text : CString) :
    w.SpelledAlike asserts room text text :=
  ⟨compareStringsNocase_eq_zero_iff.mpr rfl, fun _ _ => rfl⟩

/-- **In a table whose size divides `32`** all spellings are alike. -/
theorem spelledAlike_of_dvd {text text' : CString} (hm : w.map? (.room room) = some m)
    (hsz : m.hashTab.tableSz ∣ 32) (h : compareStringsNocase text text' = 0) :
    w.SpelledAlike asserts room text text' := by
  refine ⟨h, fun m₁ hm₁ => ?_⟩
  obtain rfl : m = m₁ := Option.some.inj (hm.symm.trans hm₁)
  exact @settled_of_dvd asserts _ hsz text text' h

/-- What is kept from one operation to the next. -/
structure World.Indexing (asserts : Bool) (room : RoomId) (w : World ℕ) (m : ObjMap) : Prop where
  order : ∃ held, w.InOrder asserts held
  shelf : Shelf asserts room w m
  once : ∀ id, StoredOnce w m id

/-- The object of a pair is live. -/
theorem World.Indexing.exists_object (h : w.Indexing asserts room m) (hin : textsOf m id ≠ []) :
    ∃ o, w.objects id = some o := by
  obtain ⟨held, horder⟩ := h.order
  refine horder.exists_object (Nat.add_pos_left ?_ _)
  rw [h.shelf.refs_eq]
  exact List.length_pos_iff.mpr hin

theorem roomObjGet_eq (h : w.Indexing asserts room m) (text : CString) :
    roomObjGet asserts w room ⟨text, none⟩ =
      .ok (multimapLookup (objEnv asserts) m ⟨text, none⟩).1 := by
  obtain ⟨held, horder⟩ := h.order
  rw [roomObjGet, lookupObjs, getMap_eq h.shelf.map]
  show (do w.touch _; _ : Except Fault _) = _
  rw [touch_eq (horder.keys.walked h.shelf.map rfl)]
  rfl

/-- **What is kept is an index.** -/
theorem World.Indexing.indexed (h : w.Indexing asserts room m) : w.Indexed asserts room where
  stored id hin := by
    rw [inContainer_iff_textsOf h.shelf.map] at hin
    obtain ⟨o, ho⟩ := h.exists_object hin
    rw [storedUnder_eq h.shelf.map]
    exact ⟨o, ho, (h.once id o ho hin).2⟩
  complete id o ho hin text htext text' hspelled := by
    rw [inContainer_iff_textsOf h.shelf.map] at hin
    exact ⟨_, roomObjGet_eq h text', count_listed h.shelf.sound (h.once id) ho hin htext hspelled.1
      (hspelled.2 m h.shelf.map)⟩
  exact text := by
    refine ⟨_, roomObjGet_eq h text, fun id => ?_⟩
    by_cases hin : textsOf m id = []
    · rw [refsIn_lookup h.shelf.sound, hin]
      exact ⟨Nat.zero_le 1, fun hpos => absurd hpos (Nat.lt_irrefl 0)⟩
    · obtain ⟨o, ho⟩ := h.exists_object hin
      obtain ⟨hle, hfound⟩ := count_listed_le h.shelf.sound (h.once id) ho ⟨text, none⟩
      exact ⟨hle, fun hpos => ⟨o, ho, hfound hpos⟩⟩

/-! ## Objects come and are held -/

/-- An object that is not in the room has a reference to give. -/
theorem World.Indexing.exists_held (h : w.Indexing asserts room m) (ho : w.objects id = some o)
    (hout : textsOf m id = []) :
    ∃ held : ObjId → ℕ, w.InOrder asserts (held + Pi.single id 1) := by
  obtain ⟨held, horder⟩ := h.order
  have hcount := horder.live id o ho
  rw [h.shelf.refs_eq, hout] at hcount
  have hpos : 0 < held id := by simpa [hcount.1] using hcount.2
  exact ⟨held - Pi.single id 1, (held_sub_add hpos).symm ▸ horder⟩

/-- Objects other than those in the room may be created and written to, and the references
of those in the room counted anew. -/
theorem World.Indexing.of_objects (h : w.Indexing asserts room m)
    (horder : ∃ held, w'.InOrder asserts held) (hmaps : w'.maps = w.maps)
    (hobjects : ∀ x o', w'.objects x = some o' → textsOf m x ≠ [] →
      ∃ o, w.objects x = some o ∧ o'.keys = o.keys) : w'.Indexing asserts room m where
  order := horder
  shelf := by
    have hmap : ∀ c, w'.map? c = w.map? c := fun c => by rw [World.map?, World.map?, hmaps]
    exact ⟨(hmap _).trans h.shelf.map, fun c mc hmc => h.shelf.only c mc ((hmap c).symm.trans hmc),
      h.shelf.sound, h.shelf.nonempty⟩
  once x o' ho' hin := by
    obtain ⟨o, ho, hkeys⟩ := hobjects x o' ho' hin
    rw [hkeys]
    exact h.once x o ho hin

theorem sat_objNew_indexing {classes : List CString} {cls : CString} {aliasList : List CString}
    (h : w.Indexing asserts room m) :
    Sat (fun e => e = .fatal) (objNew classes w cls name aliasList)
      fun r => r.2.Indexing asserts room m := by
  obtain ⟨held, horder⟩ := h.order
  refine (sat_objNew (T := fun e => e = .fatal) horder rfl).mono ?_
  rintro r ⟨hid, horder', -, hother, hmaps⟩
  refine h.of_objects ⟨_, horder'⟩ hmaps fun x o' ho' hin => ?_
  have hx : x ≠ r.1 := by
    rintro rfl
    obtain ⟨o, ho⟩ := h.exists_object hin
    rw [hid, horder.fresh _ (Nat.le_refl _)] at ho
    exact absurd ho (by simp)
  exact ⟨o', hother x hx ▸ ho', rfl⟩

theorem sat_objDup_indexing (h : w.Indexing asserts room m) (ho : w.objects id = some o) :
    Sat T (objDup w id) fun w' => w'.Indexing asserts room m := by
  obtain ⟨held, horder⟩ := h.order
  refine (sat_objDup ho).mono ?_
  rintro w' rfl
  refine h.of_objects ⟨_, horder.dup ho⟩ rfl fun x o' ho' _ => ?_
  by_cases hx : x = id
  · subst hx
    obtain rfl : { o with refcount := o.refcount + 1 } = o' := by simpa [World.setObject] using ho'
    exact ⟨o, ho, rfl⟩
  · exact ⟨o', by simpa [World.setObject, hx] using ho', rfl⟩

/-! ## Objects are added -/

/-- Operations that grow the map well complete. -/
theorem Shelf.completes {ops : List (MultimapOp ObjKey ObjId)} (h : Shelf asserts room w m)
    (hgrow : w.GrowsAlong asserts (.room room) ops) {e : Fault} :
    Runs.run (multimapStep (objEnv asserts) objCompare) m ops ≠ .error e := by
  obtain ⟨m', hrun, -⟩ :=
    sound_run_of_growsWell (objEnv_equivalence asserts) h.sound (hgrow m h.map)
  rw [hrun]
  simp

theorem Shelf.completes_insert {key : ObjKey} (h : Shelf asserts room w m)
    (hgrow : w.GrowsAlong asserts (.room room) [.insert key id]) {e : Fault} :
    multimapInsert (objEnv asserts) m key id ≠ .error e := by
  intro he
  refine h.completes (e := e) hgrow (Runs.run_cons_error ?_ [])
  rw [multimapStep, he]
  rfl

theorem map_text_own (id : ObjId) (texts : List CString) :
    (texts.map fun text => (⟨text, some id⟩ : ObjKey)).map ObjKey.text = texts := by
  rw [List.map_map]
  exact List.map_id _

/-- What an addition does to the index. -/
structure Filed (asserts : Bool) (room : RoomId) (id : ObjId) (m : ObjMap) (w' : World ℕ) :
    Prop where
  indexing : ∃ m', w'.Indexing asserts room m' ∧ textsOf m' id ≠ [] ∧
    ∀ x, x ≠ id → (textsOf m' x).Perm (textsOf m x)

/-- **`room_obj_add`** of an object that is not in the room. -/
theorem sat_roomObjAdd_filed (h : w.Indexing asserts room m) (ho : w.objects id = some o)
    (hout : textsOf m id = []) (hapart : KeysApart o.keys)
    (hgrow : w.GrowsAlong asserts (.room room) (insertOps id o.keys)) :
    Sat T (roomObjAdd asserts w room id) fun r => Filed asserts room id m r.2 := by
  obtain ⟨held, horder⟩ := h.exists_held ho hout
  refine (sat_roomObjAdd horder ho h.shelf.map fun e he =>
    absurd he (h.shelf.completes hgrow)).mono ?_
  rintro r ⟨hacts, horder', hlive⟩
  obtain ⟨n, ho'⟩ := hacts.same_object ho hlive
  rw [insertOps_eq] at hacts hgrow
  obtain ⟨m', hshelf, honce, hself, hother⟩ := h.shelf.insert (fun x _ => h.once x) hacts hgrow
    ho' hapart (by rw [map_text_own, hout, List.append_nil]; exact List.Perm.refl _)
  exact ⟨m', ⟨⟨held, horder'⟩, hshelf, honce⟩,
    fun hnil => List.cons_ne_nil _ _ (List.nil_perm.mp (hnil ▸ hself)), hother⟩

/-- **Storing an alias** of an object that is in the room. -/
theorem filed_storeAlias (hshelf : Shelf asserts room w m) (honce : ∀ x, StoredOnce w m x)
    (ho : w.objects id = some o) (hin : textsOf m id ≠ [])
    (hname : compareStringsNocase o.name aliasName = 0 → aliasName = o.name)
    (hgrow : AliasNew o aliasName →
      w.GrowsAlong asserts (.room room) [.insert ⟨aliasName, none⟩ id])
    (horder : w'.InOrder asserts held) (hlive : (w'.objects id).isSome = true)
    (hcases : ¬ AliasNew o aliasName ∧ w' = w ∨ AliasNew o aliasName ∧
      Acts asserts (.room room) id [.insert ⟨aliasName, none⟩ id]
        (w.withAlias id o aliasName) w') : Filed asserts room id m w' := by
  rcases hcases with ⟨-, rfl⟩ | ⟨hnew, hacts⟩
  · exact ⟨m, ⟨⟨held, horder⟩, hshelf, honce⟩, hin, fun x _ => List.Perm.refl _⟩
  · obtain ⟨hapart, hperm⟩ := honce id o ho hin
    obtain ⟨n, ho'⟩ := hacts.same_object objects_withAlias hlive
    have hapart' : KeysApart (o.name :: aliasName :: o.aliasList) := by
      obtain ⟨hhead, htail⟩ := List.pairwise_cons.mp hapart
      have hsymm : ∀ a : CString, compareStringsNocase aliasName a = 0 →
          compareStringsNocase a aliasName = 0 := fun a ha =>
        compareStringsNocase_eq_zero_iff.mpr (compareStringsNocase_eq_zero_iff.mp ha).symm
      refine List.pairwise_cons.mpr ⟨fun a ha => ?_, List.pairwise_cons.mpr
        ⟨fun a ha hsame => hnew.2 a ha (hsymm a hsame), htail⟩⟩
      rcases List.mem_cons.mp ha with rfl | ha
      · exact fun hsame => hnew.1 (hname hsame)
      · exact hhead a ha
    have hshelf₁ : Shelf asserts room (w.withAlias id o aliasName) m :=
      ⟨hshelf.map, hshelf.only, hshelf.sound, hshelf.nonempty⟩
    have hothers : ∀ x, x ≠ id → StoredOnce (w.withAlias id o aliasName) m x :=
      fun x hx ox hox => honce x ox (by simpa [World.withAlias, World.setObject, hx] using hox)
    have hacts' : Acts asserts (.room room) id
        ([(⟨aliasName, none⟩ : ObjKey)].map fun key => .insert key id)
        (w.withAlias id o aliasName) w' := hacts
    obtain ⟨m', hshelf', honce', hself, hother⟩ := hshelf₁.insert hothers hacts' (hgrow hnew) ho'
      hapart' ((hperm.cons aliasName).trans (List.Perm.swap _ _ _))
    exact ⟨m', ⟨⟨held, horder⟩, hshelf', honce'⟩,
      fun hnil => List.cons_ne_nil _ _ (List.nil_perm.mp (hnil ▸ hself)), hother⟩

/-- An object in the room is listed under its name. -/
theorem World.Indexing.mem_listed_name (h : w.Indexing asserts room m)
    (ho : w.objects id = some o) (hin : textsOf m id ≠ []) :
    (multimapLookup (objEnv asserts) m ⟨o.name, some id⟩).1 ≠ [] := by
  obtain ⟨-, hperm⟩ := h.once id o ho hin
  obtain ⟨p, hp, -, htext⟩ := mem_textsOf_iff.mp (hperm.mem_iff.mpr (List.mem_cons_self ..))
  refine List.ne_nil_of_mem (a := p) ?_
  rw [h.shelf.sound.mem_lookup_iff (objEnv_equivalence asserts)]
  exact ⟨hp, objEnv_same_iff.mpr (by rw [htext]), by simp only [HashEnv.bucket, objEnv, htext]⟩

/-- **`room_obj_add_alias`**, if it comes upon no namesake. -/
theorem sat_roomObjAddAlias_filed (h : w.Indexing asserts room m) (ho : w.objects id = some o)
    (hname : compareStringsNocase o.name aliasName = 0 → aliasName = o.name)
    (hout : textsOf m id = [] → w.listed asserts (.room room) ⟨o.name, some id⟩ = [] ∧
      KeysApart o.keys)
    (hgrow : w.GrowsAlong asserts (.room room) (w.aliasOps asserts room id o aliasName)) :
    Sat T (roomObjAddAlias asserts w room id aliasName) fun r => Filed asserts room id m r.2 := by
  by_cases hin : textsOf m id = []
  · obtain ⟨hlisted, hapart⟩ := hout hin
    rw [World.aliasOps, if_pos hlisted] at hgrow
    rw [listed_eq h.shelf.map] at hlisted
    obtain ⟨held, horder⟩ := h.exists_held ho hin
    refine (sat_roomObjAddAlias_of_held horder ho h.shelf.map hlisted
      (fun e he => absurd he (h.shelf.completes hgrow.left)) fun hnew e he => ?_).mono ?_
    · rw [if_pos hnew] at hgrow
      exact absurd he (h.shelf.completes hgrow)
    rintro r ⟨horder', hlive, w₁, o₁, hacts, ho₁, ⟨n, rfl⟩, hcases⟩
    have hright : AliasNew o aliasName →
        w₁.GrowsAlong asserts (.room room) [.insert ⟨aliasName, none⟩ id] := fun hnew => by
      have hrest := hgrow.right hacts
      rwa [if_pos hnew] at hrest
    have hleft := hgrow.left
    rw [insertOps_eq] at hacts hleft
    obtain ⟨m₁, hshelf₁, honce₁, hself₁, hother₁⟩ := h.shelf.insert (fun x _ => h.once x) hacts
      hleft ho₁ hapart (by rw [map_text_own, hin, List.append_nil]; exact List.Perm.refl _)
    have hin₁ : textsOf m₁ id ≠ [] := fun hnil =>
      List.cons_ne_nil _ _ (List.nil_perm.mp (hnil ▸ hself₁))
    obtain ⟨m', hindex, hin', hother⟩ := filed_storeAlias (o := { o with refcount := n }) hshelf₁
      honce₁ ho₁ hin₁ hname hright horder' hlive hcases
    exact ⟨m', hindex, hin', fun x hx => (hother x hx).trans (hother₁ x hx)⟩
  · have hfound := h.mem_listed_name ho hin
    have hlisted : w.listed asserts (.room room) ⟨o.name, some id⟩ ≠ [] := by
      rwa [listed_eq h.shelf.map]
    rw [World.aliasOps, if_neg hlisted, List.nil_append] at hgrow
    obtain ⟨held, horder⟩ := h.order
    refine (sat_roomObjAddAlias_of_found horder ho h.shelf.map hfound fun hnew e he => ?_).mono ?_
    · rw [if_pos hnew] at hgrow
      exact absurd he (h.shelf.completes_insert hgrow)
    rintro r ⟨horder', hlive, hcases⟩
    refine filed_storeAlias h.shelf h.once ho hin hname (fun hnew => ?_) horder' hlive hcases
    rwa [if_pos hnew] at hgrow

/-! ## Objects are taken out -/

/-- What taking an object out does to the index, if `ids` are to follow. -/
structure TakenOut (asserts : Bool) (room : RoomId) (id : ObjId) (ids : List ObjId) (m : ObjMap)
    (w' : World ℕ) (m' : ObjMap) : Prop where
  indexing : w'.Indexing asserts room m'
  gone : textsOf m' id = []
  others : ∀ x, x ≠ id → (textsOf m' x).Perm (textsOf m x)
  outlive : w'.KeysOutlive room ids
  rest : ∀ l, l ≠ [] → (∀ q ∈ l, q.val ≠ id) → m.HasRest l → m'.HasRest l

/-- While its name has not been deleted, the object is referred to. -/
theorem World.Indexing.refs_pos (h : w.Indexing asserts room m) (horder : w.InOrder asserts held)
    (ho : w.objects id = some o) {texts : List CString} (htexts : texts <+: o.aliasList)
    (hacts : Acts asserts (.room room) id (deleteOps id texts) w w') :
    0 < w'.refs id + held id := by
  by_cases hin : textsOf m id = []
  · have hcount := horder.live id o ho
    rw [h.shelf.refs_eq, hin] at hcount
    have hpos : 0 < held id := by simpa [hcount.1] using hcount.2
    exact Nat.add_pos_right _ hpos
  · obtain ⟨hapart, hperm⟩ := h.once id o ho hin
    obtain ⟨p, hp, hval, htext⟩ := mem_textsOf_iff.mp (hperm.mem_iff.mpr (List.mem_cons_self ..))
    obtain ⟨m₀, m', hm₀, hm', hrun⟩ := hacts.map
    obtain rfl : m₀ = m := Option.some.inj (hm₀.symm.trans h.shelf.map)
    have hkept : p ∈ m'.pairs := by
      refine (mem_pairs_deleteOps_iff h.shelf.sound.toRegular hrun).mpr ⟨hp, fun text hmem _ hl => ?_⟩
      -- an alias that finds the pair of the name is the name in some spelling
      rw [h.shelf.sound.mem_lookup_iff (objEnv_equivalence asserts)] at hl
      refine (List.pairwise_cons.mp hapart).1 text (htexts.subset hmem) ?_
      rw [compareStringsNocase_eq_zero_iff, ← htext]
      exact (objEnv_same_iff.mp hl.2.1).symm
    exact Nat.add_pos_left (hval ▸ refs_pos_of_mem (mem_cells_iff.mpr ⟨_, m', hm', hkept⟩)) _

/-- **`room_obj_del_by_ptr`**, if no table key is left behind. -/
theorem sat_roomObjDelByPtr_takenOut {ids : List ObjId} (h : w.Indexing asserts room m)
    (ho : w.objects id = some o) (hnotin : id ∉ ids)
    (houtlive : w.KeysOutlive room (id :: ids)) :
    Sat T (roomObjDelByPtr asserts w room id) fun r =>
      ∃ m', TakenOut asserts room id ids m r.2 m' := by
  obtain ⟨held, horder⟩ := h.order
  refine (sat_delObjByPtr horder ho h.shelf.map fun texts w₁ htexts hacts =>
    h.refs_pos horder ho htexts hacts).mono ?_
  rintro r ⟨hacts, hbooked, hlive⟩
  obtain ⟨m', hshelf, honce, hgone, hothers, hnodes⟩ := h.shelf.delete h.once ho hacts
  have hkeys := keysLive_of_keysOutlive horder hbooked h.shelf hshelf houtlive ho hacts.objects
    hgone hnodes hlive
  refine ⟨m', ⟨⟨held, hbooked, hkeys⟩, hshelf, honce⟩, hgone, hothers,
    houtlive.tail hnotin h.shelf hshelf hacts.objects hgone hothers hnodes, fun l hl hval hrest => ?_⟩
  obtain ⟨m₀, m₁, hm₀, hm₁, hrun⟩ := hacts.map
  obtain rfl : m₀ = m := Option.some.inj (hm₀.symm.trans h.shelf.map)
  obtain rfl : m₁ = m' := Option.some.inj (hm₁.symm.trans hshelf.map)
  have hsame := others_eq_self hval
  have hkept := hasRest_ops (fun _ => onValue_of_mem_deleteOps) h.shelf.sound.toRegular hrest hrun
    (by rwa [hsame])
  rwa [hsame, or_self] at hkept

/-- The loop of `room_obj_del`, with the cells `l` of the list `l₀` still to visit. -/
structure Clearing (asserts : Bool) (room : RoomId) (m₀ : ObjMap) (l₀ l : List ObjPair)
    (w : World ℕ) (m : ObjMap) : Prop where
  indexing : w.Indexing asserts room m
  rest : l ≠ [] → m.HasRest l
  distinct : (l.map MultimapPair.val).Nodup
  outlive : w.KeysOutlive room (l.map MultimapPair.val)
  sub : l ⊆ l₀
  gone : ∀ p ∈ l₀, p.val ∉ l.map MultimapPair.val → textsOf m p.val = []
  kept : ∀ x, (x ∈ l₀.map MultimapPair.val → x ∈ l.map MultimapPair.val) →
    (textsOf m x).Perm (textsOf m₀ x)

/-- The object of the cell the loop stands on. -/
theorem Clearing.exists_object {m₀ : ObjMap} {l₀ rest : List ObjPair} {p : ObjPair}
    (h : Clearing asserts room m₀ l₀ (p :: rest) w m) : ∃ o, w.objects p.val = some o := by
  obtain ⟨n, hn, hsuf⟩ := h.rest (List.cons_ne_nil p rest)
  refine h.indexing.exists_object (List.ne_nil_of_mem (a := p.key.text) (mem_textsOf_iff.mpr ?_))
  exact ⟨p, mem_pairs_iff.mpr ⟨n, hn, hsuf.subset (List.mem_cons_self ..)⟩, rfl, rfl⟩

/-- **One turn of the loop.** -/
theorem Clearing.next {m₀ : ObjMap} {l₀ rest : List ObjPair} {p : ObjPair}
    (h : Clearing asserts room m₀ l₀ (p :: rest) w m)
    (htaken : TakenOut asserts room p.val (rest.map MultimapPair.val) m w' m') :
    Clearing asserts room m₀ l₀ rest w' m' := by
  obtain ⟨hnotin, hdistinct⟩ := List.nodup_cons.mp h.distinct
  have hne : ∀ q ∈ rest, q.val ≠ p.val := fun q hq heq =>
    hnotin (List.mem_map.mpr ⟨q, hq, heq⟩)
  refine ⟨htaken.indexing, fun hcons => ?_, hdistinct, htaken.outlive,
    fun q hq => h.sub (List.mem_cons_of_mem p hq), fun q hq hgone => ?_, fun x hx => ?_⟩
  · exact htaken.rest rest hcons hne (h.rest (List.cons_ne_nil p rest)).tail
  · by_cases hqp : q.val = p.val
    · rw [hqp]
      exact htaken.gone
    · have hnil := h.gone q hq fun hmem => (List.mem_cons.mp hmem).elim hqp hgone
      exact List.perm_nil.mp (hnil ▸ htaken.others q.val hqp)
  · have hxp : x ≠ p.val := by
      rintro rfl
      exact hnotin (hx (List.mem_map.mpr ⟨p, h.sub (List.mem_cons_self ..), rfl⟩))
    exact (htaken.others x hxp).trans (h.kept x fun hmem => List.mem_cons_of_mem _ (hx hmem))

/-- No object has two cells in a list. -/
theorem World.Indexing.distinct_lookup (h : w.Indexing asserts room m) (key : ObjKey) :
    ((multimapLookup (objEnv asserts) m key).1.map MultimapPair.val).Nodup := by
  rw [List.nodup_iff_count_le_one]
  intro id
  have hcount : ((multimapLookup (objEnv asserts) m key).1.map MultimapPair.val).count id =
      refsIn (multimapLookup (objEnv asserts) m key).1 id := by
    rw [List.count, List.countP_map]
    rfl
  rw [hcount]
  by_cases hin : textsOf m id = []
  · rw [refsIn_lookup h.shelf.sound, hin]
    exact Nat.zero_le 1
  · obtain ⟨o, ho⟩ := h.exists_object hin
    exact (count_listed_le h.shelf.sound (h.once id) ho key).1

/-- **`room_obj_del`** takes out exactly the objects that are listed. -/
theorem sat_roomObjDel_cleared (h : w.Indexing asserts room m)
    (houtlive : w.KeysOutlive room
      ((multimapLookup (objEnv asserts) m ⟨name, none⟩).1.map MultimapPair.val)) :
    Sat T (roomObjDel asserts w room name) fun r =>
      ∃ m', Clearing asserts room m (multimapLookup (objEnv asserts) m ⟨name, none⟩).1 [] r.2 m' := by
  have hdistinct := h.distinct_lookup ⟨name, none⟩
  have hget : Sat T (roomObjGet asserts w room ⟨name, none⟩)
      fun l => (multimapLookup (objEnv asserts) m ⟨name, none⟩).1 = l := by
    rw [roomObjGet_eq h]
    exact sat_ok rfl
  refine sat_bind hget ?_
  rintro _ rfl
  cases hl : (multimapLookup (objEnv asserts) m ⟨name, none⟩).1 with
  | nil =>
    exact sat_pure ⟨m, h, fun hne => absurd rfl hne, List.nodup_nil, fun _ _ _ _ _ _ hx => by
      simp at hx, List.Subset.refl _, by simp, fun x _ => List.Perm.refl _⟩
  | cons p rest =>
    rw [hl] at hdistinct houtlive
    have hstart : Clearing asserts room m (p :: rest) (p :: rest) w m :=
      ⟨h, fun _ => hasRest_lookup hl, hdistinct, houtlive, List.Subset.refl _,
        fun q hq hgone => absurd (List.mem_map.mpr ⟨q, hq, rfl⟩) hgone, fun x _ => List.Perm.refl _⟩
    have hread : ∀ q l w₁, (∃ m₁, Clearing asserts room m (p :: rest) (q :: l) w₁ m₁) →
        ∃ m₁, w₁.map? (.room room) = some m₁ ∧ m₁.Regular (objEnv asserts) ∧
          m₁.HasRest (q :: l) := by
      rintro q l w₁ ⟨m₁, hq⟩
      exact ⟨m₁, hq.indexing.shelf.map, hq.indexing.shelf.sound.toRegular,
        hq.rest (List.cons_ne_nil q l)⟩
    refine sat_bind (sat_walkList
      (P := fun l w₁ => ∃ m₁, Clearing asserts room m (p :: rest) l w₁ m₁) hread ?_
      (Nat.le_refl _) ⟨m, hstart⟩) fun r hr => sat_pure hr
    rintro q l w₁ ⟨m₁, hq⟩
    obtain ⟨o, ho⟩ := hq.exists_object
    refine sat_map ((sat_roomObjDelByPtr_takenOut hq.indexing ho
      (List.nodup_cons.mp hq.distinct).1 hq.outlive).mono ?_)
    rintro r ⟨m₂, htaken⟩
    exact ⟨l, rfl, Nat.le_refl _, m₂, hq.next htaken⟩

/-! ## Runs -/

/-- What may be done to the objects of one room. -/
inductive IndexOp where
  /-- `obj_new`, and the fields its caller fills in. -/
  | create (cls name : CString) (aliasList : List CString)
  /-- `obj_dup`, by somebody who keeps the reference. -/
  | hold (id : ObjId)
  | add (id : ObjId)
  | addAlias (id : ObjId) (aliasName : CString)
  | delByPtr (id : ObjId)
  | del (name : CString)

/-- One operation. -/
def indexStep {κ : Type} [Add κ] [Sub κ] [OfNat κ 0] [OfNat κ 1] [DecidableEq κ] (asserts : Bool)
    (classes : List CString) (room : RoomId) (w : World κ) : IndexOp → Except Fault (World κ)
  | .create cls name aliasList => (objNew classes w cls name aliasList).map Prod.snd
  | .hold id => objDup w id
  | .add id => (roomObjAdd asserts w room id).map Prod.snd
  | .addAlias id aliasName => (roomObjAddAlias asserts w room id aliasName).map Prod.snd
  | .delByPtr id => (roomObjDelByPtr asserts w room id).map Prod.snd
  | .del name => (roomObjDel asserts w room name).map Prod.snd

/-- Operations are given objects that are there, and `room_obj_add` one that is not in the
room. -/
def IndexOp.InDomain (room : RoomId) (w : World ℕ) : IndexOp → Prop
  | .create _ _ _ | .del _ => True
  | .hold id | .addAlias id _ | .delByPtr id => (w.objects id).isSome = true
  | .add id => (w.objects id).isSome = true ∧ ¬ w.InContainer (.room room) id

/-- **When an operation is safe.**  The map grows well; no object is given, or comes with,
two spellings of one key; an object that is given an alias before it is in the room has no
namesake there; and no object is destroyed that owns the key of a node others have pairs
in. -/
def IndexOp.Safe (asserts : Bool) (room : RoomId) (w : World ℕ) : IndexOp → Prop
  | .create _ _ _ | .hold _ => True
  | .add id => ∀ o ∈ w.objects id, KeysApart o.keys ∧
      w.GrowsAlong asserts (.room room) (insertOps id o.keys)
  | .addAlias id aliasName => ∀ o ∈ w.objects id,
      (compareStringsNocase o.name aliasName = 0 → aliasName = o.name) ∧
      (¬ w.InContainer (.room room) id →
        w.listed asserts (.room room) ⟨o.name, some id⟩ = [] ∧ KeysApart o.keys) ∧
      w.GrowsAlong asserts (.room room) (w.aliasOps asserts room id o aliasName)
  | .delByPtr id => w.KeysOutlive room [id]
  | .del name =>
      w.KeysOutlive room ((w.listed asserts (.room room) ⟨name, none⟩).map MultimapPair.val)

/-- **When no counter comes around**: there is room for the references an operation makes. -/
def IndexOp.Fits (w : World UInt32) : IndexOp → Prop
  | .create _ _ _ | .delByPtr _ | .del _ => True
  | .hold id => ∀ o ∈ w.objects id, o.refcount.toNat + 1 < 2 ^ 32
  | .add id => ∀ o ∈ w.objects id, o.refcount.toNat + o.aliasList.length < 2 ^ 32
  | .addAlias id _ => ∀ o ∈ w.objects id, o.refcount.toNat + o.keys.length < 2 ^ 32

/-- **An operation does what it does with numbers**, if no counter comes around. -/
theorem Tracks.agree_indexStep {w : World UInt32} {v : World ℕ} (h : Tracks noMore w v)
    (classes : List CString) (room : RoomId) {op : IndexOp} (hfits : op.Fits w) :
    Agree (Tracks noMore) (indexStep asserts classes room w op) (indexStep asserts classes room v op) := by
  cases op with
  | create cls name aliasList =>
    have hone : 1 + noMore w.idcounter (aliasList.length + 1) < 2 ^ 32 := by
      rw [noMore]
      decide
    exact Agree.map ((h.agree_objNew classes cls name hone).mono fun _ _ hr => hr.2.2)
  | hold id =>
    have hroom : Tracks (more id (fun _ => 1) noMore) w v := h.raise hfits
    exact hroom.agree_objDup
  | add id =>
    have hroom : Tracks (more id (fun k => k - 1) noMore) w v := h.raise hfits
    exact Agree.map ((hroom.agree_roomObjAdd room).mono fun _ _ hr => hr.2)
  | addAlias id aliasName =>
    have hroom : Tracks (more id (fun k => k) noMore) w v := h.raise hfits
    exact Agree.map ((hroom.agree_roomObjAddAlias room aliasName).mono fun _ _ hr => hr.2)
  | delByPtr id => exact Agree.map ((h.agree_delObjByPtr (.room room) id).mono fun _ _ hr => hr.2)
  | del name => exact Agree.map ((h.agree_roomObjDel room name).mono fun _ _ hr => hr.2)

/-- What an operation is to do.  Additions leave the object under its name, deletions leave
what they delete under nothing, and other objects keep their keys. -/
def IndexOp.Does (asserts : Bool) (room : RoomId) (w w' : World ℕ) : IndexOp → Prop
  | .create _ _ _ | .hold _ => ∀ x, (w'.storedUnder room x).Perm (w.storedUnder room x)
  | .add id | .addAlias id _ =>
      (∃ o, w'.objects id = some o ∧ o.name ∈ w'.storedUnder room id) ∧
        ∀ x, x ≠ id → (w'.storedUnder room x).Perm (w.storedUnder room x)
  | .delByPtr id =>
      w'.storedUnder room id = [] ∧
        ∀ x, x ≠ id → (w'.storedUnder room x).Perm (w.storedUnder room x)
  | .del name => ∀ x,
      ((∃ p ∈ w.listed asserts (.room room) ⟨name, none⟩, p.val = x) →
        w'.storedUnder room x = []) ∧
      ((∀ p ∈ w.listed asserts (.room room) ⟨name, none⟩, p.val ≠ x) →
        (w'.storedUnder room x).Perm (w.storedUnder room x))

theorem Filed.does {op : IndexOp} (h : Filed asserts room id m w')
    (hm : w.map? (.room room) = some m)
    (hop : op = .add id ∨ ∃ aliasName, op = .addAlias id aliasName) :
    (∃ m', w'.Indexing asserts room m') ∧ op.Does asserts room w w' := by
  obtain ⟨m', hindex, hin, hothers⟩ := h
  obtain ⟨o, ho⟩ := hindex.exists_object hin
  have hname : o.name ∈ w'.storedUnder room id := by
    rw [storedUnder_eq hindex.shelf.map]
    exact (hindex.once id o ho hin).2.mem_iff.mpr (List.mem_cons_self ..)
  have hperm : ∀ x, x ≠ id → (w'.storedUnder room x).Perm (w.storedUnder room x) := fun x hx => by
    rw [storedUnder_eq hindex.shelf.map, storedUnder_eq hm]
    exact hothers x hx
  refine ⟨⟨m', hindex⟩, ?_⟩
  rcases hop with rfl | ⟨aliasName, rfl⟩
  · exact ⟨⟨o, ho, hname⟩, hperm⟩
  · exact ⟨⟨o, ho, hname⟩, hperm⟩

/-- **One safe operation** keeps the index and does what it is to do. -/
theorem sat_indexStep {classes : List CString} {op : IndexOp} (hw : ∃ m, w.Indexing asserts room m)
    (hd : op.InDomain room w) (hs : op.Safe asserts room w) :
    Sat (fun e => e = .fatal) (indexStep asserts classes room w op) fun w' =>
      (∃ m, w'.Indexing asserts room m) ∧ op.Does asserts room w w' := by
  obtain ⟨m, h⟩ := hw
  have hstored : ∀ {w' : World ℕ}, w'.Indexing asserts room m →
      ∀ x, (w'.storedUnder room x).Perm (w.storedUnder room x) := fun hw' x => by
    rw [storedUnder_eq hw'.shelf.map, storedUnder_eq h.shelf.map]
  cases op with
  | create cls name aliasList =>
    exact sat_map ((sat_objNew_indexing h).mono fun r hr => ⟨⟨m, hr⟩, hstored hr⟩)
  | hold id =>
    obtain ⟨o, ho⟩ := Option.isSome_iff_exists.mp hd
    exact (sat_objDup_indexing h ho).mono fun w' hw' => ⟨⟨m, hw'⟩, hstored hw'⟩
  | add id =>
    obtain ⟨hlive, hnotin⟩ := hd
    obtain ⟨o, ho⟩ := Option.isSome_iff_exists.mp hlive
    obtain ⟨hapart, hgrow⟩ := hs o ho
    rw [inContainer_iff_textsOf h.shelf.map, not_not] at hnotin
    exact sat_map ((sat_roomObjAdd_filed h ho hnotin hapart hgrow).mono fun r hr =>
      hr.does h.shelf.map (Or.inl rfl))
  | addAlias id aliasName =>
    obtain ⟨o, ho⟩ := Option.isSome_iff_exists.mp hd
    obtain ⟨hname, hout, hgrow⟩ := hs o ho
    rw [inContainer_iff_textsOf h.shelf.map, not_not] at hout
    exact sat_map ((sat_roomObjAddAlias_filed h ho hname hout hgrow).mono fun r hr =>
      hr.does h.shelf.map (Or.inr ⟨aliasName, rfl⟩))
  | delByPtr id =>
    obtain ⟨o, ho⟩ := Option.isSome_iff_exists.mp hd
    refine sat_map ((sat_roomObjDelByPtr_takenOut h ho List.not_mem_nil hs).mono ?_)
    rintro r ⟨m', htaken⟩
    refine ⟨⟨m', htaken.indexing⟩, ?_, fun x hx => ?_⟩
    · rw [storedUnder_eq htaken.indexing.shelf.map, htaken.gone]
    · rw [storedUnder_eq htaken.indexing.shelf.map, storedUnder_eq h.shelf.map]
      exact htaken.others x hx
  | del name =>
    rw [IndexOp.Safe, listed_eq h.shelf.map] at hs
    refine sat_map ((sat_roomObjDel_cleared h hs).mono ?_)
    rintro r ⟨m', hcleared⟩
    refine ⟨⟨m', hcleared.indexing⟩, fun x => ?_⟩
    rw [listed_eq h.shelf.map, storedUnder_eq hcleared.indexing.shelf.map,
      storedUnder_eq h.shelf.map]
    refine ⟨?_, fun hnone => hcleared.kept x fun hmem => ?_⟩
    · rintro ⟨p, hp, rfl⟩
      exact hcleared.gone p hp List.not_mem_nil
    · obtain ⟨p, hp, hval⟩ := List.mem_map.mp hmem
      exact absurd hval (hnone p hp)

/-- A room without objects. -/
theorem indexing_init (asserts : Bool) (room : RoomId) (sz : ℕ) :
    ∃ m, (World.init [(.room room, sz)] (by simp)).Indexing asserts room m := by
  have hmap : ∀ c m, (World.init [(.room room, sz)] (by simp) : World ℕ).map? c = some m →
      c = .room room ∧ m = multimapInit sz := by
    intro c m hm
    have hmem := mem_maps_iff.mpr hm
    simpa [World.init] using hmem
  refine ⟨multimapInit sz, ⟨0, booked_init asserts _ _, fun e he n hn => ?_⟩,
    ⟨by simp [World.map?, World.init], fun c m hm => (hmap c m hm).1, sound_init _ sz,
      by simp [multimapInit, hashInit]⟩, fun id o _ hin => absurd (by simp [textsOf]) hin⟩
  obtain ⟨-, heq⟩ := hmap e.1 e.2 (mem_maps_iff.mp he)
  rw [heq] at hn
  simp [multimapInit, hashInit] at hn

/-- The object index of a room where counts are numbers. -/
theorem roomIndex_complete_ideally (asserts : Bool) (classes : List CString) (room : RoomId)
    (sz : ℕ) (ops : List IndexOp)
    (h : Runs.EachStep (indexStep asserts classes room)
      (fun w op => op.InDomain room w ∧ op.Safe asserts room w)
      (World.init [(.room room, sz)] (by simp)) ops) :
    Runs.Always (indexStep asserts classes room) (World.Indexed asserts room)
        (World.init [(.room room, sz)] (by simp)) ops ∧
      Runs.EachStep (indexStep asserts classes room)
        (fun w op => ∀ w', indexStep asserts classes room w op = .ok w' → op.Does asserts room w w')
        (World.init [(.room room, sz)] (by simp)) ops ∧
      ∀ e, Runs.run (indexStep asserts classes room) (World.init [(.room room, sz)] (by simp) : World ℕ)
        ops = .error e → e = .fatal := by
  have hinit := indexing_init asserts room sz
  obtain ⟨halways, herror⟩ := Runs.sat_always
    (I := fun w => ∃ m, w.Indexing asserts room m)
    (fun w op hw hg => (sat_indexStep hw hg.1 hg.2).mono fun w' hw' => hw'.1) hinit h
  refine ⟨halways.mono fun w hw => ?_, ?_, herror⟩
  · obtain ⟨m, hm⟩ := hw
    exact hm.indexed
  · exact h.mono (fun w op w' hw hg hstep => ((sat_indexStep hw hg.1 hg.2).of_eq hstep).1)
      (fun w op hw hg w' hstep => ((sat_indexStep hw hg.1 hg.2).of_eq hstep).2) hinit

/-- **The object index of a room.**  Start with an empty room, whatever the size of its
table (`room_init_maps` has it `8`), and take any safe operations in which no counter comes
around.  In every state reached the index is complete and exact, every operation does what
it is to do, and a run does not stop but for the name of a class the world does not have. -/
theorem roomIndex_complete_of_safe (asserts : Bool) (classes : List CString) (room : RoomId)
    (sz : ℕ) (ops : List IndexOp)
    (h : Runs.EachStep (indexStep asserts classes room)
      (fun (w : World UInt32) op =>
        op.InDomain room w.toNat ∧ op.Safe asserts room w.toNat ∧ op.Fits w)
      (World.init [(.room room, sz)] (by simp)) ops) :
    Runs.Always (indexStep asserts classes room)
        (fun (w : World UInt32) => w.toNat.Indexed asserts room)
        (World.init [(.room room, sz)] (by simp)) ops ∧
      Runs.EachStep (indexStep asserts classes room)
        (fun (w : World UInt32) op => ∀ w', indexStep asserts classes room w op = .ok w' →
          op.Does asserts room w.toNat w'.toNat)
        (World.init [(.room room, sz)] (by simp)) ops ∧
      ∀ e, Runs.run (indexStep asserts classes room)
        (World.init [(.room room, sz)] (by simp) : World UInt32) ops = .error e → e = .fatal := by
  have hstep : ∀ (w : World UInt32) (v : World ℕ) (op : IndexOp), Tracks noMore w v →
      op.InDomain room w.toNat ∧ op.Safe asserts room w.toNat ∧ op.Fits w →
        Agree (Tracks noMore) (indexStep asserts classes room w op)
          (indexStep asserts classes room v op) :=
    fun _ _ _ hwv hg => hwv.agree_indexStep classes room hg.2.2
  have hinit := tracks_init [(.room room, sz)] (by simp)
  obtain ⟨halways, hdoes, herror⟩ := roomIndex_complete_ideally asserts classes room sz ops
    (Runs.agree_eachStep hstep (fun _ _ _ hwv hg => hwv.eq ▸ ⟨hg.1, hg.2.1⟩) hinit h)
  refine ⟨Runs.always_of_agree hstep (fun w v hwv hv => hwv.eq ▸ hv) hinit h halways, ?_, fun e he => ?_⟩
  · refine Runs.eachStep_of_agree hstep (fun w v op hwv hg hop w' hw' => ?_) hinit h hdoes
    obtain ⟨v', hv', htracks⟩ := (hstep w v op hwv hg).of_ok hw'
    rw [hwv.eq, htracks.eq]
    exact hop v' hv'
  · exact herror e ((Runs.agree_run hstep hinit h).error_of_eq he)

/-! ## A name spelled twice -/

instance (w : World ℕ) (c : Container) (id : ObjId) : Decidable (w.InContainer c id) :=
  inferInstanceAs (Decidable (∃ p ∈ w.pairsIn c, p.val = id))

instance (room : RoomId) (w : World ℕ) : (op : IndexOp) → Decidable (op.InDomain room w)
  | .create .. | .del _ => inferInstanceAs (Decidable True)
  | .hold id | .addAlias id _ | .delByPtr id =>
      inferInstanceAs (Decidable ((w.objects id).isSome = true))
  | .add id =>
      inferInstanceAs (Decidable ((w.objects id).isSome = true ∧ ¬ w.InContainer (.room room) id))

instance IndexOp.decidableFits (w : World UInt32) : (op : IndexOp) → Decidable (op.Fits w)
  | .create .. | .delByPtr _ | .del _ => inferInstanceAs (Decidable True)
  | .hold id | .add id | .addAlias id _ => inferInstanceAs (Decidable (∀ o ∈ w.objects id, _ < _))

instance (asserts : Bool) (room : RoomId) (w : World ℕ) :
    (op : IndexOp) → Decidable (op.Safe asserts room w)
  | .create .. | .hold _ => inferInstanceAs (Decidable True)
  | .add id => inferInstanceAs (Decidable (∀ o ∈ w.objects id, KeysApart o.keys ∧
      w.GrowsAlong asserts (.room room) (insertOps id o.keys)))
  | .addAlias id aliasName => inferInstanceAs (Decidable (∀ o ∈ w.objects id,
      (compareStringsNocase o.name aliasName = 0 → aliasName = o.name) ∧
      (¬ w.InContainer (.room room) id →
        w.listed asserts (.room room) ⟨o.name, some id⟩ = [] ∧ KeysApart o.keys) ∧
      w.GrowsAlong asserts (.room room) (w.aliasOps asserts room id o aliasName)))
  | .delByPtr _ | .del _ => inferInstanceAs (Decidable (w.KeysOutlive ..))

/-- Two objects of one name, of which one leaves and comes back; all of that name are then
deleted. -/
def namesakes : List IndexOp :=
  [.create (letter 99) (letter 120) [letter 97], .create (letter 99) (letter 120) [], .hold 1,
    .hold 1, .add 1, .add 2, .addAlias 2 (letter 98), .delByPtr 1, .add 1, .del (letter 120)]

theorem roomIndex_complete_namesakes :
    Runs.Always (indexStep true [letter 99] 0) (fun (w : World UInt32) => w.toNat.Indexed true 0)
        (World.init [(.room 0, 8)] (by simp)) namesakes ∧
      Runs.EachStep (indexStep true [letter 99] 0)
        (fun (w : World UInt32) op => ∀ w', indexStep true [letter 99] 0 w op = .ok w' →
          op.Does true 0 w.toNat w'.toNat)
        (World.init [(.room 0, 8)] (by simp)) namesakes ∧
      ∀ e, Runs.run (indexStep true [letter 99] 0) (World.init [(.room 0, 8)] (by simp) : World UInt32)
        namesakes = .error e → e = .fatal :=
  roomIndex_complete_of_safe true [letter 99] 0 8 namesakes (by decide +kernel)

/-- An object `x` is added to the room, and given the alias `X`. -/
def spelledAgain : List IndexOp :=
  [.create (letter 99) (letter 120) [], .add 1, .addAlias 1 (letter 88)]

/-- The object is listed twice under its name. -/
theorem index_lists_twice :
    Runs.EachStep (indexStep true [letter 99] 0) (fun (w : World UInt32) op => op.InDomain 0 w.toNat)
        (World.init [(.room 0, 8)] (by simp)) spelledAgain ∧
      ¬ Runs.Always (indexStep true [letter 99] 0) (fun (w : World UInt32) => w.toNat.Indexed true 0)
        (World.init [(.room 0, 8)] (by simp)) spelledAgain := by
  refine ⟨by decide +kernel, fun h => ?_⟩
  have hlast : ((Runs.run (indexStep true [letter 99] 0)
      (World.init [(.room 0, 8)] (by simp) : World UInt32) spelledAgain >>=
        fun w => roomObjGet true w.toNat 0 ⟨letter 120, none⟩).map fun l => refsIn l 1) = .ok 2 := by
    decide +kernel
  obtain ⟨l, hget, htwo⟩ := map_eq_ok hlast
  obtain ⟨w, hr, hl⟩ := bind_eq_ok hget
  obtain ⟨l', hl', hle⟩ := (h.last hr).exact (letter 120)
  obtain rfl : l = l' := Except.ok.inj (hl.symm.trans hl')
  have hone := (hle 1).1
  omega

end NetCosm
