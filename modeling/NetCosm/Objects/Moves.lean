import NetCosm.Objects.Accounting

/-!
# What the functions of the object store do

One specification for each function that puts an object into a map or takes it out
of one.  They are stated from a world in which everything is on the books and no
table key has been freed (`InOrder`), and they say that the map goes through the
operations the source calls, in its order:

* `sat_roomObjAdd` --- the name, then the aliases;
* `sat_userdbAddObj` --- the aliases, then the name;
* `sat_delObjByPtr` --- the aliases, then the name, for rooms and inventories alike.

Taking an object out may destroy it.  `sat_delObjByPtr` asks for a reason why the
aliases alone do not: the loop over the aliases reads the next alias from the
object after it has freed references to it.
-/

namespace NetCosm

open World

/-- On the books, and every key of a table can be read. -/
structure World.InOrder (asserts : Bool) (held : ObjId → ℕ) (w : World ℕ) : Prop
    extends w.Booked asserts held where
  keys : w.KeysLive

variable {asserts : Bool} {T : Fault → Prop} {held : ObjId → ℕ} {w : World ℕ} {c : Container}
  {m : ObjMap} {id : ObjId} {o : Object ℕ} {key : ObjKey}

/-! ## Reads -/

theorem getMap_eq (hm : w.map? c = some m) : w.getMap c = .ok m := by
  simp only [World.getMap, hm]

theorem deref_eq (ho : w.objects id = some o) : w.deref id = .ok o := by
  rw [World.deref, ho]

theorem sat_deref (ho : w.objects id = some o) : Sat T (w.deref id) fun x => o = x := by
  rw [deref_eq ho]
  exact sat_ok rfl

theorem touch_eq {keys : List ObjKey} (h : ∀ key ∈ keys, w.readable key = true) :
    w.touch keys = .ok () := by
  rw [World.touch, if_pos (List.all_eq_true.mpr h)]

/-- The keys of a walk can be read. -/
theorem World.KeysLive.walked (hw : w.KeysLive) (hm : w.map? c = some m)
    (hkey : w.readable key = true) :
    ∀ k ∈ key :: m.hashTab.walked (objEnv asserts) key, w.readable k = true := by
  intro k hk
  rcases List.mem_cons.mp hk with rfl | hk
  · exact hkey
  · obtain ⟨n, hn, rfl⟩ := exists_node_of_mem_walked hk
    exact keysLive_iff.mp hw c m hm n hn

/-- The keys an insertion reads can be read. -/
theorem World.KeysLive.insertReads (hw : w.KeysLive) (hm : w.map? c = some m)
    (hregular : m.Regular (objEnv asserts)) (hkey : w.readable key = true) :
    ∀ k ∈ insertReads asserts m key id, w.readable k = true := by
  intro k hk
  rcases List.mem_append.mp hk with hk | hk
  · exact hw.walked hm hkey k hk
  · split at hk
    · obtain ⟨n, hn, rfl⟩ := List.mem_map.mp hk
      rcases (mem_nodes_appendNode ((objEnv asserts).bucket_lt key
        hregular.placed.size_pos)).mp hn with rfl | hold
      · exact hkey
      · exact keysLive_iff.mp hw c m hm n hold
    · exact absurd hk (by simp)

/-- What is found under a key refers to live objects. -/
theorem touchObjects_eq (hw : w.Booked asserts held) (hm : w.map? c = some m) :
    w.touchObjects (multimapLookup (objEnv asserts) m key).1 = .ok () := by
  rw [World.touchObjects, if_pos]
  rw [List.all_eq_true]
  intro p hp
  have hcell : p ∈ w.cells := mem_cells_iff.mpr ⟨c, m, hm, mem_pairs_of_mem_lookup hp⟩
  obtain ⟨o, ho⟩ := hw.exists_object (Nat.add_pos_left (refs_pos_of_mem hcell) _)
  rw [ho]
  rfl

theorem objDup_eq (ho : w.objects id = some o) :
    objDup w id = .ok (w.setObject id (some { o with refcount := o.refcount + 1 })) := by
  rw [objDup, deref_eq ho]
  rfl

theorem sat_objDup (ho : w.objects id = some o) :
    Sat T (objDup w id)
      fun w' => w.setObject id (some { o with refcount := o.refcount + 1 }) = w' := by
  rw [objDup_eq ho]
  exact sat_ok rfl

/-! ## One insertion, one deletion -/

/-- After an operation on its map a world is still in order. -/
theorem World.KeysLive.acts {ops : List (MultimapOp ObjKey ObjId)} {op : MultimapOp ObjKey ObjId}
    {w' : World ℕ} {m' : ObjMap} (hw : w.KeysLive) (hm : w.map? c = some m)
    (hregular : m.Regular (objEnv asserts))
    (hop : ∀ k v, op = .insert k v → w.readable k = true)
    (hstep : multimapStep (objEnv asserts) objCompare m op = .ok m')
    (hm' : w'.map? c = some m') (hacts : Acts asserts c id ops w w')
    (hlive : (w'.objects id).isSome = true) : w'.KeysLive := by
  rw [keysLive_iff] at hw ⊢
  intro c' m₁ hm₁ n hn
  refine hacts.readable hlive ?_
  by_cases hc : c' = c
  · subst hc
    obtain rfl : m₁ = m' := Option.some.inj (hm₁.symm.trans hm')
    rcases nodeKey_step hregular.placed.size_pos hstep hn with ⟨n₀, hn₀, heq⟩ | ⟨val, hins⟩
    · exact heq ▸ hw c' m hm n₀ hn₀
    · exact hop n.key val hins
  · rw [hacts.others c' hc] at hm₁
    exact hw c' m₁ hm₁ n hn

/-- **An insertion stores a reference that is held.** -/
theorem sat_insertObj (hw : w.InOrder asserts (held + Pi.single id 1)) (hm : w.map? c = some m)
    (hkey : w.readable key = true)
    (hT : ∀ e, multimapInsert (objEnv asserts) m key id = .error e → T e) :
    Sat T (insertObj asserts w c key id) fun r =>
      Acts asserts c id [.insert key id] w r.2 ∧ r.2.InOrder asserts held ∧
        r.2.objects = w.objects := by
  have hregular := hw.regular c m hm
  rw [insertObj, getMap_eq hm]
  show Sat T (do w.touch (insertReads asserts m key id); _) _
  rw [touch_eq (hw.keys.insertReads hm hregular hkey)]
  show Sat T (do let r ← multimapInsert (objEnv asserts) m key id; _) _
  cases hins : multimapInsert (objEnv asserts) m key id with
  | error e => exact hT e hins
  | ok r =>
    have hstep : multimapStep (objEnv asserts) objCompare m (.insert key id) = .ok r.2 := by
      rw [multimapStep, hins]
      rfl
    have hregular' : r.2.Regular (objEnv asserts) :=
      regular_step (objEnv_equivalence asserts) hregular hstep
    have hacts : Acts asserts c id [.insert key id] w (w.setMap c r.2) :=
      ⟨⟨m, r.2, hm, map?_setMap_self hm r.2, Runs.run_cons_ok hstep []⟩,
        fun c' hc => map?_setMap_ne hc r.2, fun x _ => rfl, fun o' ho' => ⟨o', ho', rfl⟩, rfl⟩
    have hlive : ((w.setMap c r.2).objects id).isSome = true := by
      obtain ⟨o, ho⟩ := hw.exists_object
        (show 0 < w.refs id + (held + Pi.single id 1 : ObjId → ℕ) id by simp)
      show (w.objects id).isSome = true
      rw [ho]
      rfl
    have hbooked : (w.setMap c r.2).Booked asserts held := by
      refine hw.setMap hm hregular' fun x => ?_
      rw [refsIn_perm (perm_pairs_insert hregular.placed.size_pos hins).1, refsIn_cons,
        Pi.add_apply, Pi.single_apply]
      simp only [Multimap.newPair, eq_comm (a := id)]
      omega
    exact ⟨hacts, ⟨hbooked, hw.keys.acts hm hregular (fun k v h => by
      cases h
      exact hkey) hstep (map?_setMap_self hm r.2) hacts hlive⟩, rfl⟩

/-- A key that can be read still can after an object has been written to. -/
theorem readable_setObject (ho' : Object ℕ) (hkey : w.readable key = true) :
    (w.setObject id (some ho')).readable key = true := by
  unfold World.readable at hkey ⊢
  cases hown : key.owner with
  | none => rfl
  | some x =>
    rw [hown] at hkey
    by_cases hx : x = id
    · simp [World.setObject, hx]
    · simpa [World.setObject, hx] using hkey

theorem World.InOrder.dup (hw : w.InOrder asserts held) (ho : w.objects id = some o) :
    (w.setObject id (some { o with refcount := o.refcount + 1 })).InOrder asserts
      (held + Pi.single id 1) :=
  ⟨hw.toBooked.dup ho, fun e he n hn => readable_setObject _ (hw.keys e he n hn)⟩

/-- A reference more makes no difference to what is done afterwards. -/
theorem Acts.of_dup {w' : World ℕ} {ops : List (MultimapOp ObjKey ObjId)}
    (ho : w.objects id = some o)
    (h : Acts asserts c id ops
      (w.setObject id (some { o with refcount := o.refcount + 1 })) w') :
    Acts asserts c id ops w w' where
  map := h.map
  others := h.others
  objects x hx := by rw [h.objects x hx]; simp [World.setObject, hx]
  object o' ho' := by
    obtain ⟨o₀, ho₀, heq⟩ := h.object o' ho'
    obtain rfl : { o with refcount := o.refcount + 1 } = o₀ := by
      simpa [World.setObject] using ho₀
    exact ⟨o, ho, heq⟩
  idcounter := h.idcounter

/-- `multimap_insert(map, key, obj_dup(obj))` keeps the books. -/
theorem sat_dupInsert (hw : w.InOrder asserts held) (ho : w.objects id = some o)
    (hm : w.map? c = some m) (hkey : w.readable key = true)
    (hT : ∀ e, multimapInsert (objEnv asserts) m key id = .error e → T e) :
    Sat T (dupInsert asserts w c key id) fun r =>
      Acts asserts c id [.insert key id] w r.2 ∧ r.2.InOrder asserts held ∧
        (r.2.objects id).isSome = true := by
  rw [dupInsert, objDup_eq ho]
  refine (sat_insertObj (hw.dup ho) hm (readable_setObject _ hkey) hT).mono ?_
  rintro r ⟨hacts, horder, hsame⟩
  refine ⟨hacts.of_dup ho, horder, ?_⟩
  rw [hsame]
  simp [World.setObject]

/-- `obj_free` takes one reference off the books, and the object with the last. -/
theorem sat_objFree {n : ℕ} (hw : w.Booked asserts (held + Pi.single id (n + 1))) :
    Sat T (objFree w id) fun w' =>
      w'.Booked asserts (held + Pi.single id n) ∧ w'.maps = w.maps ∧
        (∀ x, x ≠ id → w'.objects x = w.objects x) ∧
        (∀ o', w'.objects id = some o' → ∃ o, w.objects id = some o ∧
          o' = { o with refcount := o'.refcount }) ∧ w'.idcounter = w.idcounter := by
  obtain ⟨o, ho⟩ := hw.exists_object
    (show 0 < w.refs id + (held + Pi.single id (n + 1) : ObjId → ℕ) id by simp)
  have hcount := (hw.live id o ho).1
  simp only [Pi.add_apply, Pi.single_eq_same] at hcount
  have hother : ∀ o' x, x ≠ id → (w.setObject id o').objects x = w.objects x :=
    fun o' x hx => by simp [World.setObject, hx]
  rw [objFree, deref_eq ho]
  show Sat T (if o.refcount - 1 = 0 then _ else _) _
  by_cases hlast : o.refcount - 1 = 0
  · rw [if_pos hlast]
    refine sat_pure ⟨⟨hw.regular, fun x hx => ?_, fun x ox hox => ?_, fun x hx => ?_⟩, rfl,
      hother none, fun o' ho' => by simp [World.setObject] at ho', rfl⟩
    · by_cases hxid : x = id
      · simp [World.setObject, hxid]
      · rw [hother none x hxid]
        exact hw.fresh x hx
    · have hxid : x ≠ id := by
        rintro rfl
        simp [World.setObject] at hox
      rw [hother none x hxid] at hox
      have h := hw.live x ox hox
      simpa [hxid] using h
    · by_cases hxid : x = id
      · subst hxid
        show w.refs x + _ = 0
        simp only [Pi.add_apply, Pi.single_eq_same]
        omega
      · rw [hother none x hxid] at hx
        have h := hw.dead x hx
        simpa [hxid] using h
  · rw [if_neg hlast]
    refine sat_pure ⟨?_, rfl, hother _, fun o' ho' => ⟨o, ho, ?_⟩, rfl⟩
    · refine hw.setObject ho ?_ (Nat.pos_of_ne_zero hlast) fun x hx => by simp [hx]
      simp only [Pi.add_apply, Pi.single_eq_same]
      omega
    · have heq : some { o with refcount := o.refcount - 1 } = some o' := by
        simpa [World.setObject] using ho'
      rw [← Option.some.inj heq]

/-- **A deletion frees the references it finds.** -/
theorem sat_deleteObj (hw : w.InOrder asserts held) (hm : w.map? c = some m)
    (hkey : w.readable key = true) :
    Sat T (deleteObj asserts w c key id) fun r =>
      Acts asserts c id [.delete key id] w r.2 ∧ r.2.Booked asserts held ∧
        ((r.2.objects id).isSome = true → r.2.KeysLive) := by
  have hregular := hw.regular c m hm
  rw [deleteObj, getMap_eq hm]
  show Sat T (do w.touch _; _) _
  rw [touch_eq (hw.keys.walked hm hkey)]
  show Sat T (do w.touchObjects _; _) _
  rw [touchObjects_eq hw.toBooked hm]
  show Sat T (do
    let w ← (multimapDelete (objEnv asserts) objCompare m key id).1.foldlM _ _
    _) _
  rcases hdel : multimapDelete (objEnv asserts) objCompare m key id with ⟨freed, m'⟩
  have hstep : multimapStep (objEnv asserts) objCompare m (.delete key id) = .ok m' := by
    rw [multimapStep, hdel]
  have hval : ∀ p ∈ freed, p.val = id := by
    intro p hp
    have h : p ∈ (multimapDelete (objEnv asserts) objCompare m key id).1 := by rwa [hdel]
    rw [multimapDelete_fst, List.mem_filter, beq_iff_eq, objCompare_eq_zero_iff] at h
    exact h.2.symm
  have hperm : (freed ++ m'.pairs).Perm m.pairs := by
    have h := (perm_pairs_delete (objEnv asserts) objCompare m key id).1
    rwa [hdel] at h
  have hrefs : ∀ x, refsIn freed x = (Pi.single id freed.length : ObjId → ℕ) x := by
    intro x
    by_cases hx : x = id
    · subst hx
      rw [Pi.single_eq_same, refsIn, List.countP_eq_length]
      simpa using hval
    · rw [Pi.single_eq_of_ne hx, refsIn_eq_zero_iff]
      exact fun p hp heq => hx (heq.symm.trans (hval p hp))
  have hbooked : (w.setMap c m').Booked asserts (held + Pi.single id freed.length) := by
    refine hw.toBooked.setMap hm (regular_step (objEnv_equivalence asserts) hregular hstep)
      fun x => ?_
    have h := refsIn_perm hperm x
    rw [refsIn_append, hrefs] at h
    simp only [Pi.add_apply]
    omega
  -- the references freed one by one, the rest of them still held
  refine sat_bind (sat_foldlM (I := fun l w' =>
    ((∀ p ∈ l, p.val = id) ∧ w'.Booked asserts (held + Pi.single id l.length)) ∧
      w'.maps = (w.setMap c m').maps ∧ (∀ x, x ≠ id → w'.objects x = w.objects x) ∧
      (∀ o', w'.objects id = some o' → ∃ o, w.objects id = some o ∧
        o' = { o with refcount := o'.refcount }) ∧ w'.idcounter = w.idcounter) ?_
    ⟨⟨hval, hbooked⟩, rfl, fun _ _ => rfl, fun o' ho' => ⟨o', ho', rfl⟩, rfl⟩) ?_
  · rintro p l w' ⟨⟨hl, hb⟩, hmaps, hothers, hobject, hid⟩
    obtain rfl : p.val = id := hl p (List.mem_cons_self ..)
    refine (sat_objFree hb).mono ?_
    rintro w'' ⟨hb', hmaps', hothers', hobject', hid'⟩
    refine ⟨⟨fun q hq => hl q (List.mem_cons_of_mem _ hq), hb'⟩, hmaps'.trans hmaps,
      fun x hx => (hothers' x hx).trans (hothers x hx), fun o'' ho'' => ?_, hid'.trans hid⟩
    obtain ⟨o', ho', heq'⟩ := hobject' o'' ho''
    obtain ⟨o, ho, heq⟩ := hobject o' ho'
    exact ⟨o, ho, by rw [heq', heq]⟩
  · rintro w' ⟨⟨-, hb⟩, hmaps, hothers, hobject, hid⟩
    have hmap : ∀ c', w'.map? c' = (w.setMap c m').map? c' := fun c' => by
      rw [World.map?, World.map?, hmaps]
    have hacts : Acts asserts c id [.delete key id] w w' :=
      ⟨⟨m, m', hm, (hmap c).trans (map?_setMap_self hm m'), Runs.run_cons_ok hstep []⟩,
        fun c' hc => (hmap c').trans (map?_setMap_ne hc m'), hothers, hobject, hid⟩
    refine sat_pure ⟨hacts, by simpa using hb, fun hlive => ?_⟩
    exact hw.keys.acts hm hregular (fun k v h => by cases h) hstep
      ((hmap c).trans (map?_setMap_self hm m')) hacts hlive

/-! ## Whole objects -/

/-- Insert an object under some of its strings. -/
def insertOps (id : ObjId) (texts : List CString) : List (MultimapOp ObjKey ObjId) :=
  texts.map fun text => .insert ⟨text, some id⟩ id

/-- Delete an object under some of its strings. -/
def deleteOps (id : ObjId) (texts : List CString) : List (MultimapOp ObjKey ObjId) :=
  texts.map fun text => .delete ⟨text, some id⟩ id

theorem readable_own (ho : w.objects id = some o) (text : CString) :
    w.readable ⟨text, some id⟩ = true := by
  simp [World.readable, ho]

/-- The loop over the aliases. -/
theorem sat_insertAliases {combine : Bool → Bool → Bool} {texts : List CString}
    {r : Bool × World ℕ} (hw : r.2.InOrder asserts held) (hlive : (r.2.objects id).isSome = true)
    (hm : r.2.map? c = some m)
    (hT : ∀ e, Runs.run (multimapStep (objEnv asserts) objCompare) m (insertOps id texts) =
      .error e → T e) :
    Sat T (insertAliases asserts combine c id texts r) fun r' =>
      Acts asserts c id (insertOps id texts) r.2 r'.2 ∧ r'.2.InOrder asserts held ∧
        (r'.2.objects id).isSome = true := by
  induction texts generalizing r m with
  | nil => exact sat_pure ⟨acts_nil hm, hw, hlive⟩
  | cons text texts ih =>
    obtain ⟨o, ho⟩ := Option.isSome_iff_exists.mp hlive
    rw [insertAliases, List.foldlM_cons]
    refine sat_bind (P := fun r' => Acts asserts c id [.insert ⟨text, some id⟩ id] r.2 r'.2 ∧
      r'.2.InOrder asserts held ∧ (r'.2.objects id).isSome = true)
      (sat_map (sat_dupInsert hw ho hm (readable_own ho text) fun e he => ?_)) ?_
    · refine hT e (Runs.run_cons_error ?_ _)
      rw [multimapStep, he]
      rfl
    · rintro r' ⟨hacts, hw', hlive'⟩
      obtain ⟨m₀, m', hm₀, hm', hrun⟩ := hacts.map
      obtain rfl : m₀ = m := Option.some.inj (hm₀.symm.trans hm)
      refine (ih hw' hlive' hm' fun e he => hT e ?_).mono ?_
      · rw [← he]
        exact Runs.run_append_ok hrun (insertOps id texts)
      · rintro r'' ⟨hacts', hw'', hlive''⟩
        exact ⟨hacts.trans hacts', hw'', hlive''⟩

/-- **`userdb_add_obj`** stores the object in the inventory, under its aliases and
then its name, with references of its own. -/
theorem sat_userdbAddObj {user : CString} (hw : w.InOrder asserts held)
    (ho : w.objects id = some o) (hm : w.map? (.inventory user) = some m)
    (hT : ∀ e, Runs.run (multimapStep (objEnv asserts) objCompare) m
      (insertOps id (o.aliasList ++ [o.name])) = .error e → T e) :
    Sat T (userdbAddObj asserts w user id) fun r =>
      Acts asserts (.inventory user) id (insertOps id (o.aliasList ++ [o.name])) w r.2 ∧
        r.2.InOrder asserts held ∧ (r.2.objects id).isSome = true := by
  have hsplit : insertOps id (o.aliasList ++ [o.name]) =
      insertOps id o.aliasList ++ [.insert ⟨o.name, some id⟩ id] := by
    rw [insertOps, List.map_append]
    rfl
  rw [hsplit] at hT ⊢
  refine sat_bind (sat_deref ho) ?_
  rintro _ rfl
  have hlive : (w.objects id).isSome = true := by rw [ho]; rfl
  refine sat_bind (sat_insertAliases (r := (false, w)) hw hlive hm fun e he => ?_) ?_
  · exact hT e (Runs.run_append_error he _)
  · rintro r ⟨hacts, hw', hlive'⟩
    obtain ⟨o', ho'⟩ := Option.isSome_iff_exists.mp hlive'
    obtain ⟨m₀, m', hm₀, hm', hrun⟩ := hacts.map
    obtain rfl : m₀ = m := Option.some.inj (hm₀.symm.trans hm)
    refine (sat_dupInsert hw' ho' hm' (readable_own ho' o.name) fun e he => hT e ?_).mono ?_
    · rw [Runs.run_append_ok hrun]
      refine Runs.run_cons_error ?_ []
      rw [multimapStep, he]
      rfl
    · rintro r' ⟨hacts', hw'', hlive''⟩
      exact ⟨hacts.trans hacts', hw'', hlive''⟩

/-- **`room_obj_add`** stores the object in the room, under its name with the
caller's reference and under its aliases with references of its own. -/
theorem sat_roomObjAdd {room : RoomId} (hw : w.InOrder asserts (held + Pi.single id 1))
    (ho : w.objects id = some o) (hm : w.map? (.room room) = some m)
    (hT : ∀ e, Runs.run (multimapStep (objEnv asserts) objCompare) m (insertOps id o.keys) =
      .error e → T e) :
    Sat T (roomObjAdd asserts w room id) fun r =>
      Acts asserts (.room room) id (insertOps id o.keys) w r.2 ∧ r.2.InOrder asserts held ∧
        (r.2.objects id).isSome = true := by
  refine sat_bind (sat_deref ho) ?_
  rintro _ rfl
  refine sat_bind (sat_insertObj hw hm (readable_own ho o.name) fun e he => ?_) ?_
  · refine hT e (Runs.run_cons_error ?_ _)
    rw [multimapStep, he]
    rfl
  · rintro r ⟨hacts, hw', hsame⟩
    obtain ⟨m₀, m', hm₀, hm', hrun⟩ := hacts.map
    obtain rfl : m₀ = m := Option.some.inj (hm₀.symm.trans hm)
    refine (sat_insertAliases hw' (by rw [hsame, ho]; rfl) hm' fun e he => hT e ?_).mono ?_
    · rw [← he]
      exact Runs.run_append_ok hrun (insertOps id o.aliasList)
    · rintro r' ⟨hacts', hw'', hlive''⟩
      exact ⟨hacts.trans hacts', hw'', hlive''⟩

/-- **`room_obj_del_by_ptr`** and **`userdb_del_obj_by_ptr`** take the object out of
the map under its aliases and then its name.  `hkeep` is why the object survives
the aliases. -/
theorem sat_delObjByPtr (hw : w.InOrder asserts held) (ho : w.objects id = some o)
    (hm : w.map? c = some m)
    (hkeep : ∀ texts w', texts <+: o.aliasList → Acts asserts c id (deleteOps id texts) w w' →
      0 < w'.refs id + held id) :
    Sat T (delObjByPtr asserts w c id) fun r =>
      Acts asserts c id (deleteOps id (o.aliasList ++ [o.name])) w r.2 ∧
        r.2.Booked asserts held ∧ ((r.2.objects id).isSome = true → r.2.KeysLive) := by
  have hloop : Sat T (o.aliasList.foldlM (deleteAlias asserts c id) w) fun w' =>
      Acts asserts c id (deleteOps id o.aliasList) w w' ∧ w'.InOrder asserts held ∧
        (w'.objects id).isSome = true := by
    refine (sat_foldlM (I := fun l w' => ∃ done, o.aliasList = done ++ l ∧
      Acts asserts c id (deleteOps id done) w w' ∧ w'.InOrder asserts held ∧
        (w'.objects id).isSome = true) ?_ ⟨[], rfl, acts_nil hm, hw, by rw [ho]; rfl⟩).mono ?_
    · rintro text l w' ⟨done, hdone, hacts, hw', hlive⟩
      obtain ⟨o', ho'⟩ := Option.isSome_iff_exists.mp hlive
      obtain ⟨-, m', -, hm', -⟩ := hacts.map
      refine sat_bind (sat_deleteObj hw' hm' (readable_own ho' text)) ?_
      rintro r ⟨hacts', hbooked, hkeys⟩
      have hall : Acts asserts c id (deleteOps id (done ++ [text])) w r.2 := by
        rw [deleteOps, List.map_append]
        exact hacts.trans hacts'
      have hprefix : done ++ [text] <+: o.aliasList := ⟨l, by rw [hdone]; simp⟩
      obtain ⟨o'', ho''⟩ := hbooked.exists_object (hkeep _ _ hprefix hall)
      rw [deref_eq ho'']
      have hlive' : (r.2.objects id).isSome = true := by rw [ho'']; rfl
      exact sat_pure ⟨done ++ [text], by rw [hdone]; simp, hall, ⟨hbooked, hkeys hlive'⟩, hlive'⟩
    · rintro w' ⟨done, hdone, hacts, hw', hlive⟩
      rw [List.append_nil] at hdone
      exact ⟨hdone ▸ hacts, hw', hlive⟩
  refine sat_bind (sat_deref ho) ?_
  rintro _ rfl
  refine sat_bind hloop ?_
  rintro w' ⟨hacts, hw', hlive⟩
  obtain ⟨o', ho'⟩ := Option.isSome_iff_exists.mp hlive
  obtain ⟨-, m', -, hm', -⟩ := hacts.map
  refine sat_bind (sat_deleteObj hw' hm' (readable_own ho' o.name)) ?_
  rintro r ⟨hacts', hbooked, hkeys⟩
  refine sat_pure ⟨?_, hbooked, hkeys⟩
  rw [deleteOps, List.map_append]
  exact hacts.trans hacts'

/-! ## Moving an object -/

/-- **The cells an object gains** when it is inserted under some keys. -/
theorem perm_pairs_insertKeys {m' : ObjMap} {keys : List ObjKey}
    (hm : m.Regular (objEnv asserts))
    (h : Runs.run (multimapStep (objEnv asserts) objCompare) m
      (keys.map fun key => .insert key id) = .ok m') :
    ∃ new : List ObjPair, m'.pairs.Perm (new ++ m.pairs) ∧
      (∀ p ∈ new, p.val = id ∧ p.key ∈ keys) ∧ ∀ key ∈ keys, ∃ p ∈ new, p.key = key := by
  induction keys generalizing m with
  | nil =>
    obtain rfl := Except.ok.inj h
    exact ⟨[], List.Perm.refl _, by simp, by simp⟩
  | cons key keys ih =>
    rw [List.map_cons] at h
    cases hstep : multimapStep (objEnv asserts) objCompare m (.insert key id) with
    | error e =>
      rw [Runs.run_cons_error hstep] at h
      exact absurd h (by simp)
    | ok m₁ =>
      rw [Runs.run_cons_ok hstep] at h
      obtain ⟨⟨r, m₂⟩, hins, rfl⟩ := map_eq_ok hstep
      obtain ⟨new, hperm, hnew, hall⟩ :=
        ih (regular_step (objEnv_equivalence asserts) hm hstep) h
      refine ⟨new ++ [m.newPair key id], ?_, fun p hp => ?_, fun k hk => ?_⟩
      · rw [List.append_assoc]
        exact hperm.trans ((perm_pairs_insert hm.placed.size_pos hins).1.append_left new)
      · rcases List.mem_append.mp hp with hp | hp
        · exact ⟨(hnew p hp).1, List.mem_cons_of_mem _ (hnew p hp).2⟩
        · rw [List.mem_singleton.mp hp]
          exact ⟨rfl, List.mem_cons_self ..⟩
      · rcases List.mem_cons.mp hk with rfl | hk
        · exact ⟨m.newPair k id, by simp, rfl⟩
        · obtain ⟨p, hp, hkey⟩ := hall k hk
          exact ⟨p, List.mem_append_left _ hp, hkey⟩

theorem insertOps_eq (id : ObjId) (texts : List CString) :
    insertOps id texts = (texts.map fun text => (⟨text, some id⟩ : ObjKey)).map
      fun key => .insert key id := by
  rw [insertOps, List.map_map]
  rfl

/-- **The cells an object loses** when it is deleted under some of its strings: those
that are found under one of them. -/
theorem mem_pairs_deleteOps_iff {m' : ObjMap} {texts : List CString}
    (hm : m.Regular (objEnv asserts))
    (h : Runs.run (multimapStep (objEnv asserts) objCompare) m (deleteOps id texts) = .ok m')
    {p : ObjPair} :
    p ∈ m'.pairs ↔ p ∈ m.pairs ∧
      ∀ text ∈ texts, p.val = id → p ∉ (multimapLookup (objEnv asserts) m ⟨text, some id⟩).1 := by
  induction texts generalizing m with
  | nil =>
    obtain rfl := Except.ok.inj h
    simp
  | cons text texts ih =>
    rw [deleteOps, List.map_cons, Runs.run_cons_ok rfl] at h
    have hf := objEnv_equivalence asserts
    rw [ih (regular_delete hm objCompare ⟨text, some id⟩ id) h]
    have hperm := (perm_pairs_delete (objEnv asserts) objCompare m ⟨text, some id⟩ id).1
    have hnodup := hperm.nodup_iff.mpr (hm.nodup.of_map _)
    have hfreed : p ∈ (multimapDelete (objEnv asserts) objCompare m ⟨text, some id⟩ id).1 ↔
        p.val = id ∧ p ∈ (multimapLookup (objEnv asserts) m ⟨text, some id⟩).1 := by
      rw [multimapDelete_fst, List.mem_filter, beq_iff_eq, objCompare_eq_zero_iff, eq_comm,
        and_comm]
    simp only [mem_lookup_delete_iff hf hm, List.mem_cons, forall_eq_or_imp]
    constructor
    · rintro ⟨hp, hrest⟩
      refine ⟨hperm.mem_iff.mp (List.mem_append_right _ hp), fun hval hl => ?_,
        fun t ht hval hl => hrest t ht hval ⟨hl, hp⟩⟩
      exact (List.nodup_append.mp hnodup).2.2 p (hfreed.mpr ⟨hval, hl⟩) p hp rfl
    · rintro ⟨hp, hhead, hrest⟩
      refine ⟨?_, fun t ht hval hl => hrest t ht hval hl.1⟩
      rcases List.mem_append.mp (hperm.mem_iff.mpr hp) with hgone | hkept
      · exact absurd (hfreed.mp hgone).2 (hhead (hfreed.mp hgone).1)
      · exact hkept

/-- An object that has been inserted somewhere is referred to there, whatever is done
to other maps. -/
theorem refs_pos_of_acts {c c' : Container} {w₁ w₂ : World ℕ} {texts : List CString}
    {ops : List (MultimapOp ObjKey ObjId)} {text : CString} (hne : c ≠ c')
    (hregular : ∀ m, w.map? c = some m → m.Regular (objEnv asserts))
    (h : Acts asserts c id (insertOps id texts) w w₁) (htext : text ∈ texts)
    (h' : Acts asserts c' id ops w₁ w₂) : 0 < w₂.refs id := by
  rw [insertOps_eq] at h
  obtain ⟨m, m', hm, hm', hrun⟩ := h.map
  obtain ⟨new, hperm, hnew, hall⟩ := perm_pairs_insertKeys (hregular m hm) hrun
  obtain ⟨p, hp, -⟩ := hall ⟨text, some id⟩ (List.mem_map.mpr ⟨text, htext, rfl⟩)
  have hcell : p ∈ w₂.cells := mem_cells_iff.mpr
    ⟨c, m', (h'.others c hne).trans hm', hperm.mem_iff.mpr (List.mem_append_left _ hp)⟩
  exact (hnew p hp).1 ▸ refs_pos_of_mem hcell

/-- What `Acts` says of an object that is still there. -/
theorem Acts.same_object {w' : World ℕ} {ops : List (MultimapOp ObjKey ObjId)}
    (h : Acts asserts c id ops w w') (ho : w.objects id = some o)
    (hlive : (w'.objects id).isSome = true) :
    ∃ n, w'.objects id = some { o with refcount := n } := by
  obtain ⟨o', ho'⟩ := Option.isSome_iff_exists.mp hlive
  obtain ⟨o₀, ho₀, heq⟩ := h.object o' ho'
  obtain rfl : o₀ = o := Option.some.inj (ho₀.symm.trans ho)
  exact ⟨o'.refcount, by rw [ho', ← heq]⟩

/-- Move an object: insert it into one map, then take it out of another.  While it is
in the first map it cannot be destroyed. -/
theorem sat_moveOut {c c' : Container} {w₁ : World ℕ} {texts : List CString} {text : CString}
    (hne : c ≠ c') (hw : w.InOrder asserts held)
    (h : Acts asserts c id (insertOps id texts) w w₁) (htext : text ∈ texts)
    (hw₁ : w₁.InOrder asserts held) (ho : w₁.objects id = some o)
    (hm : w₁.map? c' = some m) :
    Sat T (delObjByPtr asserts w₁ c' id) fun r =>
      Acts asserts c' id (deleteOps id (o.aliasList ++ [o.name])) w₁ r.2 ∧
        r.2.InOrder asserts held ∧ (r.2.objects id).isSome = true := by
  have hpos : ∀ ops w₂, Acts asserts c' id ops w₁ w₂ → 0 < w₂.refs id := fun ops w₂ h' =>
    refs_pos_of_acts hne (hw.regular c) h htext h'
  refine (sat_delObjByPtr hw₁ ho hm fun texts' w₂ _ h' => ?_).mono ?_
  · exact Nat.add_pos_left (hpos _ w₂ h') _
  · rintro r ⟨hacts, hbooked, hkeys⟩
    obtain ⟨o', ho'⟩ := hbooked.exists_object (Nat.add_pos_left (hpos _ r.2 hacts) _)
    have hlive : (r.2.objects id).isSome = true := by rw [ho']; rfl
    exact ⟨hacts, ⟨hbooked, hkeys hlive⟩, hlive⟩

/-- Moving an object: it is inserted into the map of `dst` under `texts`, and then
taken out of the map of `src` under its aliases and its name. -/
structure Moved (asserts : Bool) (src dst : Container) (id : ObjId) (o : Object ℕ)
    (texts : List CString) (w w' : World ℕ) : Prop where
  between : ∃ w₁, Acts asserts dst id (insertOps id texts) w w₁ ∧
    Acts asserts src id (deleteOps id (o.aliasList ++ [o.name])) w₁ w'

/-- `req_take` moves an object from the room to the inventory. -/
abbrev Taken (asserts : Bool) (sender : Sender) (id : ObjId) (o : Object ℕ) (w w' : World ℕ) : Prop :=
  Moved asserts (.room sender.room) (.inventory sender.user) id o (o.aliasList ++ [o.name]) w w'

/-- `req_drop` moves an object from the inventory to the room. -/
abbrev Dropped (asserts : Bool) (sender : Sender) (id : ObjId) (o : Object ℕ) (w w' : World ℕ) :
    Prop :=
  Moved asserts (.inventory sender.user) (.room sender.room) id o o.keys w w'

/-- **Taking one object**, which the hook allows or refuses. -/
theorem sat_takeOne {hooks : CString → ObjClass} {sender : Sender} {mi mr : ObjMap}
    (hw : w.InOrder asserts held) (ho : w.objects id = some o)
    (hmi : w.map? (.inventory sender.user) = some mi)
    (hmr : w.map? (.room sender.room) = some mr)
    (hT : allows (hooks o.cls).hookTake id sender = true →
      ∀ e, Runs.run (multimapStep (objEnv asserts) objCompare) mi
        (insertOps id (o.aliasList ++ [o.name])) = .error e → T e) :
    Sat T (takeOne asserts hooks sender w id) fun r =>
      r.2.InOrder asserts held ∧ (r.2.objects id).isSome = true ∧
        (allows (hooks o.cls).hookTake id sender = true → Taken asserts sender id o w r.2) ∧
        (allows (hooks o.cls).hookTake id sender = false → r.2 = w) := by
  refine sat_bind (sat_deref ho) ?_
  rintro _ rfl
  by_cases hallow : allows (hooks o.cls).hookTake id sender = true
  · rw [if_pos hallow]
    refine sat_bind (sat_userdbAddObj hw ho hmi (hT hallow)) ?_
    rintro r ⟨hacts, hw₁, hlive₁⟩
    obtain ⟨n, ho₁⟩ := hacts.same_object ho hlive₁
    have hmr₁ : r.2.map? (.room sender.room) = some mr :=
      (hacts.others _ (by simp)).trans hmr
    refine sat_bind (sat_moveOut (by simp) hw hacts (List.mem_append_right _
      (List.mem_singleton.mpr rfl)) hw₁ ho₁ hmr₁) ?_
    rintro r' ⟨hacts', hw₂, hlive₂⟩
    exact sat_pure ⟨hw₂, hlive₂, fun _ => ⟨r.2, hacts, hacts'⟩,
      fun h => absurd (hallow.symm.trans h) (by simp)⟩
  · rw [if_neg hallow]
    exact sat_pure ⟨hw, by rw [ho]; rfl, fun h => absurd h hallow, fun _ => rfl⟩

/-- **Dropping one object**.  If the hook refuses, the object is moved back, and one
reference to it is forgotten: `req_drop` hands `userdb_add_obj` a reference, and
`userdb_add_obj` takes its own. -/
theorem sat_dropOne {hooks : CString → ObjClass} {sender : Sender} {mi mr : ObjMap}
    (hw : w.InOrder asserts held) (ho : w.objects id = some o)
    (hmi : w.map? (.inventory sender.user) = some mi)
    (hmr : w.map? (.room sender.room) = some mr)
    (hT : ∀ e, Runs.run (multimapStep (objEnv asserts) objCompare) mr (insertOps id o.keys) =
      .error e → T e)
    (hT' : allows (hooks o.cls).hookDrop id sender = false →
      ∀ m' e, Runs.run (multimapStep (objEnv asserts) objCompare) mi
          (deleteOps id (o.aliasList ++ [o.name])) = .ok m' →
        Runs.run (multimapStep (objEnv asserts) objCompare) m'
          (insertOps id (o.aliasList ++ [o.name])) = .error e → T e) :
    Sat T (dropOne asserts hooks sender w id) fun r =>
      (r.2.objects id).isSome = true ∧
        (allows (hooks o.cls).hookDrop id sender = true →
          r.2.InOrder asserts held ∧ Dropped asserts sender id o w r.2) ∧
        (allows (hooks o.cls).hookDrop id sender = false →
          r.2.InOrder asserts (held + Pi.single id 1) ∧
            ∃ w₁, Dropped asserts sender id o w w₁ ∧ Taken asserts sender id o w₁ r.2) := by
  have hword := hw.dup ho
  have ho' : (w.setObject id (some { o with refcount := o.refcount + 1 })).objects id =
      some { o with refcount := o.refcount + 1 } := by simp [World.setObject]
  refine sat_bind (sat_objDup ho) ?_
  rintro _ rfl
  refine sat_bind (sat_roomObjAdd hword ho' hmr hT) ?_
  rintro r ⟨hacts, hw₁, hlive₁⟩
  have hacts₁ := hacts.of_dup ho
  obtain ⟨n, ho₁⟩ := hacts₁.same_object ho hlive₁
  have hmi₁ : r.2.map? (.inventory sender.user) = some mi :=
    (hacts₁.others _ (by simp)).trans hmi
  refine sat_bind (sat_moveOut (by simp) hw hacts₁ (List.mem_cons_self ..) hw₁ ho₁ hmi₁) ?_
  rintro r₁ ⟨hacts₂, hw₂, hlive₂⟩
  obtain ⟨n₂, ho₂⟩ := hacts₂.same_object ho₁ hlive₂
  have hdropped : Dropped asserts sender id o w r₁.2 := ⟨r.2, hacts₁, hacts₂⟩
  refine sat_bind (sat_deref ho₂) ?_
  rintro _ rfl
  by_cases hallow : allows (hooks o.cls).hookDrop id sender = true
  · rw [if_pos hallow]
    exact sat_pure ⟨hlive₂, fun _ => ⟨hw₂, hdropped⟩,
      fun h => absurd (hallow.symm.trans h) (by simp)⟩
  · rw [if_neg hallow]
    refine sat_bind (sat_objDup ho₂) ?_
    rintro _ rfl
    have hrefuse : allows (hooks o.cls).hookDrop id sender = false := by simpa using hallow
    have hw₃ := hw₂.dup ho₂
    obtain ⟨m₀, m₁, hm₀, hm₁, hrun⟩ := hacts₂.map
    obtain rfl : m₀ = mi := Option.some.inj (hm₀.symm.trans hmi₁)
    have ho₃ : (r₁.2.setObject id (some { o with refcount := n₂ + 1 })).objects id =
        some { o with refcount := n₂ + 1 } := by simp [World.setObject]
    refine sat_bind (sat_userdbAddObj hw₃ ho₃ hm₁ (hT' hrefuse m₁ · hrun)) ?_
    rintro r₂ ⟨hacts₃, hw₄, hlive₄⟩
    obtain ⟨n₄, ho₄⟩ := hacts₃.same_object ho₃ hlive₄
    obtain ⟨-, mr', -, hmr', -⟩ := hacts₁.map
    have hmr₄ : r₂.2.map? (.room sender.room) = some mr' :=
      (hacts₃.others _ (by simp)).trans ((hacts₂.others _ (by simp)).trans hmr')
    refine sat_bind (sat_moveOut (by simp) hw₃ hacts₃ (List.mem_append_right _
      (List.mem_singleton.mpr rfl)) hw₄ ho₄ hmr₄) ?_
    rintro r₃ ⟨hacts₄, hw₅, hlive₅⟩
    exact sat_pure ⟨hlive₅, fun h => absurd h hallow, fun _ =>
      ⟨hw₅, r₁.2, hdropped, r₂.2, hacts₃.of_dup ho₂, hacts₄⟩⟩

end NetCosm
