import NetCosm.Library.Agreement
import NetCosm.Objects.Moves

/-!
# Counters that come around

The count of an object's references is an `unsigned`.  After `2 ^ 32` calls of `obj_dup`
it is where it was, and the next calls of `obj_free` destroy the object while it is still
in use.  Until then the server does what it would do with numbers.

`World.toNat` is a server with its counts as numbers, and the functions of `World` do the
same in both, as long as no counter comes around.  `Tracks` is what is kept for that: the
counter of each object can still be counted up a number of times, which may depend on how
many keys the object has.  Each function says how often it counts up the counter of the
object it is called with, at most.

`ObjOp.Fits` says that no operation counts further than there is room, and
`agree_objStep` that the operation then agrees with the one on numbers.  What is proved of
runs with numbers is taken back from there.
-/

namespace NetCosm

/-- An object with its count as a number. -/
def Object.toNat (o : Object UInt32) : Object ℕ := ⟨o.cls, o.name, o.aliasList, o.refcount.toNat⟩

@[simp] theorem keys_toNat (o : Object UInt32) : o.toNat.keys = o.keys := rfl

namespace World

/-- A server with its counts as numbers. -/
def toNat (w : World UInt32) : World ℕ where
  idcounter := w.idcounter
  objects id := (w.objects id).map Object.toNat
  maps := w.maps
  distinct := w.distinct

@[simp] theorem map?_toNat (w : World UInt32) (c : Container) : w.toNat.map? c = w.map? c := rfl

@[simp] theorem getMap_toNat (w : World UInt32) (c : Container) : w.toNat.getMap c = w.getMap c := rfl

@[simp] theorem readable_toNat (w : World UInt32) (key : ObjKey) :
    w.toNat.readable key = w.readable key := by
  unfold readable
  cases key.owner with
  | none => rfl
  | some id => exact Option.isSome_map

@[simp] theorem touch_toNat (w : World UInt32) (keys : List ObjKey) :
    w.toNat.touch keys = w.touch keys := by
  simp only [touch, funext (readable_toNat w)]

@[simp] theorem touchObjects_toNat (w : World UInt32) (l : List ObjPair) :
    w.toNat.touchObjects l = w.touchObjects l := by
  have hlive : ∀ p : ObjPair, (w.toNat.objects p.val).isSome = (w.objects p.val).isSome :=
    fun p => Option.isSome_map
  simp only [touchObjects, hlive]

theorem objects_setObject_self {κ : Type} (w : World κ) (id : ObjId) (o : Option (Object κ)) :
    (w.setObject id o).objects id = o := Function.update_self ..

theorem objects_setObject_ne {κ : Type} (w : World κ) {id x : ObjId} (o : Option (Object κ))
    (hx : x ≠ id) : (w.setObject id o).objects x = w.objects x := Function.update_of_ne hx ..

theorem toNat_setObject (w : World UInt32) (id : ObjId) (o : Option (Object UInt32)) :
    (w.setObject id o).toNat = w.toNat.setObject id (o.map Object.toNat) := by
  have hobjects : (fun x => (Function.update w.objects id o x).map Object.toNat) =
      Function.update (fun x => (w.objects x).map Object.toNat) id (o.map Object.toNat) := by
    funext x
    by_cases hx : x = id
    · rw [hx, Function.update_self, Function.update_self]
    · rw [Function.update_of_ne hx, Function.update_of_ne hx]
  simp only [setObject, toNat, hobjects]

end World

/-! ## Room to count -/

/-- `v` is `w` with its counts as numbers; no live object has the count `0`; and the counter of the object
`id`, if it has `k` keys, can be counted up `spare id k` times. -/
structure Tracks (spare : ObjId → ℕ → ℕ) (w : World UInt32) (v : World ℕ) : Prop where
  eq : w.toNat = v
  counted : ∀ id o, w.objects id = some o → 0 < o.refcount.toNat
  spare : ∀ id o, w.objects id = some o → o.refcount.toNat + spare id o.keys.length < 2 ^ 32
  fresh : ∀ id, w.idcounter ≤ id → w.objects id = none

/-- A result and a world. -/
def Returns {A : Type} (spare : ObjId → ℕ → ℕ) (r : A × World UInt32) (r' : A × World ℕ) : Prop :=
  r.1 = r'.1 ∧ Tracks spare r.2 r'.2

/-- Room for `n` more references to the object `id`, or `n k` if it has `k` keys. -/
def more (id : ObjId) (n : ℕ → ℕ) (spare : ObjId → ℕ → ℕ) : ObjId → ℕ → ℕ :=
  fun x k => spare x k + if x = id then n k else 0

/-- No room is asked for. -/
abbrev noMore : ObjId → ℕ → ℕ := fun _ _ => 0

section

variable {asserts : Bool} {spare spare' : ObjId → ℕ → ℕ} {w : World UInt32} {v : World ℕ} {c : Container}
  {id : ObjId} {o : Object UInt32} {A : Type}

theorem more_self (n : ℕ → ℕ) (k : ℕ) : more id n spare id k = spare id k + n k := by
  rw [more, if_pos rfl]

theorem more_other {x : ObjId} (hx : x ≠ id) (n : ℕ → ℕ) (k : ℕ) :
    more id n spare x k = spare x k := by
  rw [more, if_neg hx, Nat.add_zero]

theorem Tracks.mono (h : Tracks spare' w v)
    (hle : ∀ x o, w.objects x = some o → spare x o.keys.length ≤ spare' x o.keys.length) :
    Tracks spare w v where
  eq := h.eq
  counted := h.counted
  spare x o ho := Nat.lt_of_le_of_lt (Nat.add_le_add_left (hle x o ho) _) (h.spare x o ho)
  fresh := h.fresh

/-- Less room for one object. -/
theorem Tracks.spend {n n' : ℕ → ℕ} (h : Tracks (more id n spare) w v)
    (hle : ∀ o, w.objects id = some o → n' o.keys.length ≤ n o.keys.length) :
    Tracks (more id n' spare) w v := by
  refine h.mono fun x o ho => ?_
  by_cases hx : x = id
  · subst hx
    rw [more_self, more_self]
    exact Nat.add_le_add_left (hle o ho) _
  · rw [more_other hx, more_other hx]

/-- What is spent in two parts. -/
theorem Tracks.split {n n' : ℕ → ℕ} (h : Tracks (more id (fun k => n k + n' k) spare) w v) :
    Tracks (more id n (more id n' spare)) w v := by
  refine h.mono fun x o _ => ?_
  by_cases hx : x = id
  · subst hx
    rw [more_self, more_self, more_self, Nat.add_assoc, Nat.add_comm (n' _)]
  · rw [more_other hx, more_other hx, more_other hx]

theorem Tracks.ample {n : ℕ → ℕ} (h : Tracks (more id n spare) w v) : Tracks spare w v :=
  h.mono fun _ _ _ => Nat.le_add_right ..

theorem Tracks.lt_idcounter (h : Tracks spare w v) (ho : w.objects id = some o) : id < w.idcounter := by
  by_contra hge
  rw [h.fresh id (Nat.not_lt.mp hge)] at ho
  exact absurd ho (by simp)

theorem Tracks.setMap (h : Tracks spare w v) (c : Container) (m : ObjMap) :
    Tracks spare (w.setMap c m) (v.setMap c m) where
  eq := h.eq ▸ rfl
  counted := h.counted
  spare := h.spare
  fresh := h.fresh

/-- An object is written to. -/
theorem Tracks.setObject (h : Tracks spare' w v) (hid : id < w.idcounter)
    (hpos : 0 < o.refcount.toNat) (hroom : o.refcount.toNat + spare id o.keys.length < 2 ^ 32)
    (hle : ∀ x k, x ≠ id → spare x k ≤ spare' x k) :
    Tracks spare (w.setObject id (some o)) (v.setObject id (some o.toNat)) := by
  refine ⟨h.eq ▸ World.toNat_setObject w id (some o), fun x o' ho' => ?_, fun x o' ho' => ?_,
    fun x hx => ?_⟩
  · by_cases hx : x = id
    · rw [hx, World.objects_setObject_self] at ho'
      exact Option.some.inj ho' ▸ hpos
    · rw [World.objects_setObject_ne _ _ hx] at ho'
      exact h.counted x o' ho'
  · by_cases hx : x = id
    · rw [hx, World.objects_setObject_self] at ho'
      exact Option.some.inj ho' ▸ hx ▸ hroom
    · rw [World.objects_setObject_ne _ _ hx] at ho'
      exact Nat.lt_of_le_of_lt (Nat.add_le_add_left (hle x _ hx) _) (h.spare x o' ho')
  · have hne : x ≠ id := fun heq => Nat.not_le.mpr hid (heq ▸ hx)
    rw [World.objects_setObject_ne _ _ hne]
    exact h.fresh x hx

/-- An object is destroyed. -/
theorem Tracks.destroy (h : Tracks spare w v) (id : ObjId) :
    Tracks spare (w.setObject id none) (v.setObject id none) := by
  have hother : ∀ x o, (w.setObject id none).objects x = some o → w.objects x = some o := by
    intro x o ho
    by_cases hx : x = id
    · rw [hx, World.objects_setObject_self] at ho
      exact absurd ho (by simp)
    · rwa [World.objects_setObject_ne _ _ hx] at ho
  refine ⟨h.eq ▸ World.toNat_setObject w id none, fun x o ho => h.counted x o (hother x o ho),
    fun x o ho => h.spare x o (hother x o ho), fun x hx => ?_⟩
  rw [Option.eq_none_iff_forall_ne_some]
  intro o ho
  exact absurd ((hother x o ho).symm.trans (h.fresh x hx)) (by simp)

/-! ## What reads only -/

theorem Tracks.agree_deref (h : Tracks spare w v) (id : ObjId) :
    Agree (fun o o' => w.objects id = some o ∧ o.toNat = o') (w.deref id) (v.deref id) := by
  rw [← h.eq]
  unfold World.deref
  rw [show w.toNat.objects id = (w.objects id).map Object.toNat from rfl]
  cases w.objects id with
  | some o => exact ⟨rfl, rfl⟩
  | none => exact rfl

theorem lookupObjs_toNat (w : World UInt32) (c : Container) (key : ObjKey) :
    lookupObjs asserts w.toNat c key = lookupObjs asserts w c key := by
  simp only [lookupObjs, World.getMap_toNat, World.touch_toNat]

/-! ## `obj.c` -/

theorem Tracks.agree_objNew (h : Tracks spare w v) (classes : List CString) (cls name : CString)
    {aliasList : List CString}
    (hroom : 1 + spare w.idcounter (aliasList.length + 1) < 2 ^ 32) :
    Agree (fun r r' => r.1 = w.idcounter ∧ Returns spare r r') (objNew classes w cls name aliasList)
      (objNew classes v cls name aliasList) := by
  unfold objNew
  rw [← h.eq]
  split
  · refine agree_ok ⟨rfl, rfl, ?_⟩
    have hset : ∀ x o, (w.setObject w.idcounter (some ⟨cls, name, aliasList, 1⟩)).objects x = some o →
        x = w.idcounter ∧ o = ⟨cls, name, aliasList, 1⟩ ∨ x ≠ w.idcounter ∧ w.objects x = some o := by
      intro x o ho
      by_cases hx : x = w.idcounter
      · rw [hx, World.objects_setObject_self] at ho
        exact Or.inl ⟨hx, (Option.some.inj ho).symm⟩
      · rw [World.objects_setObject_ne _ _ hx] at ho
        exact Or.inr ⟨hx, ho⟩
    refine ⟨?_, fun x o ho => ?_, fun x o ho => ?_, fun x hx => ?_⟩
    · have hworld := World.toNat_setObject w w.idcounter (some ⟨cls, name, aliasList, 1⟩)
      exact congrArg (fun u : World ℕ => { u with idcounter := w.idcounter + 1 }) hworld
    · rcases hset x o ho with ⟨-, rfl⟩ | ⟨-, ho⟩
      · exact Nat.one_pos
      · exact h.counted x o ho
    · rcases hset x o ho with ⟨rfl, rfl⟩ | ⟨-, ho⟩
      · exact hroom
      · exact h.spare x o ho
    · have hx' : w.idcounter + 1 ≤ x := hx
      refine (World.objects_setObject_ne _ _ (Nat.ne_of_gt hx')).trans (h.fresh x (Nat.le_of_succ_le hx'))
  · exact agree_error _

theorem Tracks.agree_objDup (h : Tracks (more id (fun _ => 1) spare) w v) :
    Agree (Tracks spare) (objDup w id) (objDup v id) := by
  refine (h.agree_deref id).bind ?_
  rintro o _ ⟨ho, rfl⟩
  have hroom := h.spare id o ho
  rw [more_self] at hroom
  have hcount : (o.refcount + 1).toNat = o.refcount.toNat + 1 := by
    rw [UInt32.toNat_add, UInt32.toNat_one, Nat.mod_eq_of_lt (by omega)]
  have hobject : Object.toNat { o with refcount := o.refcount + 1 } =
      { o.toNat with refcount := o.toNat.refcount + 1 } := by
    rw [Object.toNat, hcount]
    rfl
  rw [← hobject]
  refine agree_pure (h.setObject (h.lt_idcounter ho) ?_ ?_ fun x k hx => ?_)
  · dsimp only
    omega
  · have hkeys : ({ o with refcount := o.refcount + 1 } : Object UInt32).keys = o.keys := rfl
    rw [hkeys]
    dsimp only
    omega
  · rw [more_other hx]

theorem Tracks.agree_objFree (h : Tracks spare w v) (id : ObjId) :
    Agree (Tracks spare) (objFree w id) (objFree v id) := by
  refine (h.agree_deref id).bind ?_
  rintro o _ ⟨ho, rfl⟩
  have hpos := h.counted id o ho
  have hroom := h.spare id o ho
  have hcount : (o.refcount - 1).toNat = o.refcount.toNat - 1 :=
    UInt32.toNat_sub_of_le _ _ (UInt32.le_iff_toNat_le.mpr hpos)
  have hlast : o.refcount - 1 = 0 ↔ o.toNat.refcount - 1 = 0 := by
    rw [← UInt32.toNat_inj, hcount]
    rfl
  have hobject : Object.toNat { o with refcount := o.refcount - 1 } =
      { o.toNat with refcount := o.toNat.refcount - 1 } := by
    rw [Object.toNat, hcount]
    rfl
  by_cases hz : o.refcount - 1 = 0
  · rw [if_pos hz, if_pos (hlast.mp hz)]
    exact agree_pure (h.destroy id)
  · rw [if_neg hz, if_neg (fun h0 => hz (hlast.mpr h0)), ← hobject]
    refine agree_pure (h.setObject (h.lt_idcounter ho) ?_ ?_ fun _ _ _ => Nat.le_refl _)
    · rw [hcount]
      exact Nat.pos_of_ne_zero fun h0 => hz (hlast.mpr h0)
    · have hkeys : ({ o with refcount := o.refcount - 1 } : Object UInt32).keys = o.keys := rfl
      rw [hkeys, hcount]
      omega

/-! ## The multimap calls -/

theorem Tracks.agree_insertObj (h : Tracks spare w v) (c : Container) (key : ObjKey) (id : ObjId) :
    Agree (Returns spare) (insertObj asserts w c key id) (insertObj asserts v c key id) := by
  have heq := h.eq
  subst heq
  unfold insertObj
  rw [World.getMap_toNat]
  refine (agree_refl (S := Eq) fun _ _ => rfl).bind ?_
  rintro m _ rfl
  rw [World.touch_toNat]
  refine (agree_refl (S := fun _ _ => True) fun _ _ => trivial).bind fun _ _ _ => ?_
  refine (agree_refl (S := Eq) fun _ _ => rfl).bind ?_
  rintro r _ rfl
  exact agree_pure ⟨rfl, h.setMap c r.2⟩

theorem Tracks.agree_dupInsert (h : Tracks (more id (fun _ => 1) spare) w v) (c : Container)
    (key : ObjKey) : Agree (Returns spare) (dupInsert asserts w c key id) (dupInsert asserts v c key id) :=
  h.agree_objDup.bind fun _ _ h' => h'.agree_insertObj c key id

theorem agree_insertAliases (combine : Bool → Bool → Bool) (c : Container) (aliasList : List CString)
    {p : Bool × World UInt32} {q : Bool × World ℕ}
    (h : Returns (more id (fun _ => aliasList.length) spare) p q) :
    Agree (Returns spare) (insertAliases asserts combine c id aliasList p)
      (insertAliases asserts combine c id aliasList q) := by
  refine (agree_foldlM (I := fun l => Returns (more id (fun _ => l.length) spare)) ?_ h).mono ?_
  · rintro a l r r' ⟨hr, htracks⟩
    rw [List.length_cons] at htracks
    have hspend : Tracks (more id (fun _ => 1 + l.length) spare) r.2 r'.2 :=
      htracks.spend fun _ _ => Nat.le_of_eq (Nat.add_comm ..)
    refine Agree.map (hspend.split.agree_dupInsert c ⟨a, some id⟩ |>.mono fun x x' hx => ?_)
    exact ⟨by rw [hr, hx.1], hx.2⟩
  · exact fun r r' hr => ⟨hr.1, hr.2.ample⟩

theorem Tracks.agree_deleteObj (h : Tracks spare w v) (c : Container) (key : ObjKey) (id : ObjId) :
    Agree (Returns spare) (deleteObj asserts w c key id) (deleteObj asserts v c key id) := by
  have heq := h.eq
  subst heq
  unfold deleteObj
  rw [World.getMap_toNat]
  refine (agree_refl (S := Eq) fun _ _ => rfl).bind ?_
  rintro m _ rfl
  rw [World.touch_toNat]
  refine (agree_refl (S := fun _ _ => True) fun _ _ => trivial).bind fun _ _ _ => ?_
  rw [World.touchObjects_toNat]
  refine (agree_refl (S := fun _ _ => True) fun _ _ => trivial).bind fun _ _ _ => ?_
  refine Agree.bind (agree_foldlM (I := fun _ => Tracks spare) (fun p _ _ _ h' => ?_) (h.setMap c _)) ?_
  · exact h'.agree_objFree p.val
  · exact fun w' v' h' => agree_pure ⟨rfl, h'⟩

theorem Tracks.agree_deleteAlias (h : Tracks spare w v) (c : Container) (id : ObjId)
    (aliasName : CString) :
    Agree (Tracks spare) (deleteAlias asserts c id w aliasName) (deleteAlias asserts c id v aliasName) := by
  refine (h.agree_deleteObj c ⟨aliasName, some id⟩ id).bind fun r r' hr => ?_
  exact (hr.2.agree_deref id).bind fun _ _ _ => agree_pure hr.2

/-- **`room_obj_del_by_ptr` and `userdb_del_obj_by_ptr`** count down only. -/
theorem Tracks.agree_delObjByPtr (h : Tracks spare w v) (c : Container) (id : ObjId) :
    Agree (Returns spare) (delObjByPtr asserts w c id) (delObjByPtr asserts v c id) := by
  refine (h.agree_deref id).bind ?_
  rintro o _ ⟨-, rfl⟩
  refine Agree.bind (agree_foldlM (I := fun _ => Tracks spare)
    (fun a _ _ _ h' => h'.agree_deleteAlias c id a) h) fun w' v' h' => ?_
  refine (h'.agree_deleteObj c ⟨o.name, some id⟩ id).bind fun r r' hr => agree_pure ⟨?_, hr.2⟩
  rw [hr.1]

/-! ## `room.c` and `userdb.c` -/

/-- **`room_obj_add`** counts up once for each alias. -/
theorem Tracks.agree_roomObjAdd (h : Tracks (more id (fun k => k - 1) spare) w v) (room : RoomId) :
    Agree (Returns spare) (roomObjAdd asserts w room id) (roomObjAdd asserts v room id) := by
  refine (h.agree_deref id).bind ?_
  rintro o _ ⟨ho, rfl⟩
  have hspend : Tracks (more id (fun _ => o.aliasList.length) spare) w v := h.spend fun o' ho' => by
    obtain rfl := Option.some.inj (ho.symm.trans ho')
    exact Nat.le_refl _
  exact (hspend.agree_insertObj (.room room) ⟨o.name, some id⟩ id).bind fun r r' hr =>
    agree_insertAliases _ (.room room) o.aliasList hr

/-- **`userdb_add_obj`** counts up once for each key. -/
theorem Tracks.agree_userdbAddObj (h : Tracks (more id (fun k => k) spare) w v) (user : CString) :
    Agree (Returns spare) (userdbAddObj asserts w user id) (userdbAddObj asserts v user id) := by
  refine (h.agree_deref id).bind ?_
  rintro o _ ⟨ho, rfl⟩
  have hspend : Tracks (more id (fun _ => o.aliasList.length + 1) spare) w v := h.spend fun o' ho' => by
    obtain rfl := Option.some.inj (ho.symm.trans ho')
    exact Nat.le_refl _
  refine (agree_insertAliases _ (.inventory user) o.aliasList (p := (false, w)) (q := (false, v))
    ⟨rfl, Tracks.split hspend⟩).bind fun r r' hr => ?_
  exact hr.2.agree_dupInsert (.inventory user) ⟨o.name, some id⟩

theorem roomObjGet_toNat (w : World UInt32) (room : RoomId) (key : ObjKey) :
    roomObjGet asserts w.toNat room key = roomObjGet asserts w room key := lookupObjs_toNat w _ key

/-- Storing an alias counts up once. -/
theorem Tracks.agree_storeAlias (h : Tracks (more id (fun _ => 1) noMore) w v) (room : RoomId)
    (aliasName : CString) :
    Agree (Returns noMore) (storeAlias asserts w room id aliasName)
      (storeAlias asserts v room id aliasName) := by
  refine (h.agree_deref id).bind ?_
  rintro o _ ⟨ho, rfl⟩
  have hname : o.toNat.name = o.name := rfl
  have haliases : o.toNat.aliasList = o.aliasList := rfl
  rw [hname, haliases]
  by_cases hsame : aliasName = o.name
  · rw [if_pos hsame, if_pos hsame]
    exact agree_pure ⟨rfl, h.ample⟩
  rw [if_neg hsame, if_neg hsame]
  by_cases hthere : (o.aliasList.any fun a => compareStringsNocase a aliasName == 0) = true
  · rw [if_pos hthere, if_pos hthere]
    exact agree_pure ⟨rfl, h.ample⟩
  · rw [if_neg hthere, if_neg hthere]
    have hroom := h.spare id o ho
    rw [more_self] at hroom
    refine Tracks.agree_dupInsert ?_ (.room room) ⟨aliasName, none⟩
    refine h.setObject (o := { o with aliasList := aliasName :: o.aliasList }) (h.lt_idcounter ho)
      (h.counted id o ho) ?_ fun _ _ _ => Nat.le_refl _
    rw [more_self]
    exact hroom

/-- **`room_obj_add_alias`** counts up at most as often as the object has keys. -/
theorem Tracks.agree_roomObjAddAlias (h : Tracks (more id (fun k => k) noMore) w v) (room : RoomId)
    (aliasName : CString) :
    Agree (Returns noMore) (roomObjAddAlias asserts w room id aliasName)
      (roomObjAddAlias asserts v room id aliasName) := by
  refine (h.agree_deref id).bind ?_
  rintro o _ ⟨ho, rfl⟩
  have hget : roomObjGet asserts v room ⟨o.toNat.name, some id⟩ =
      roomObjGet asserts w room ⟨o.name, some id⟩ := by
    rw [← h.eq]
    exact roomObjGet_toNat w room _
  rw [hget]
  refine (agree_refl (S := Eq) fun _ _ => rfl).bind ?_
  rintro l _ rfl
  have hspend : Tracks (more id (fun k => k - 1 + 1) noMore) w v := h.spend fun o' ho' =>
    Nat.le_of_eq (Nat.sub_add_cancel (Nat.succ_pos _))
  show Agree _ (ite _ _ _) (ite _ _ _)
  by_cases hl : l.isEmpty = true
  · rw [if_pos hl, if_pos hl]
    refine Agree.bind (Agree.map (Q := Tracks (more id (fun _ => 1) noMore)) ?_) fun w' v' h' =>
      h'.agree_storeAlias room aliasName
    exact (Tracks.split hspend).agree_roomObjAdd room |>.mono fun _ _ hr => hr.2
  · rw [if_neg hl, if_neg hl]
    exact (agree_pure (Tracks.split hspend).ample).bind fun w' v' h' => h'.agree_storeAlias room aliasName

/-! ## Walks -/

/-- **A walk** of at most `n` cells, if each counts up at most `d k` times for an object of `k` keys. -/
theorem agree_walkList {d : ℕ → ℕ} {body : World UInt32 → ObjId → Except Fault (String × World UInt32)}
    {body' : World ℕ → ObjId → Except Fault (String × World ℕ)}
    (hbody : ∀ spare w v id, Tracks (more id d spare) w v →
      Agree (Returns spare) (body w id) (body' v id)) {n : ℕ} {a : Option ℕ}
    (h : Tracks (fun _ k => n * d k) w v) :
    Agree (Returns noMore) (walkList c body n w a) (walkList c body' n v a) := by
  induction n generalizing w v a with
  | zero =>
    cases a with
    | none => exact agree_pure ⟨rfl, h.mono fun _ _ _ => Nat.zero_le _⟩
    | some a => exact agree_error _
  | succ n ih =>
    cases a with
    | none => exact agree_pure ⟨rfl, h.mono fun _ _ _ => Nat.zero_le _⟩
    | some a =>
      rw [walkList, walkList, ← World.getMap_toNat, h.eq]
      refine (agree_refl (S := Eq) fun _ _ => rfl).bind ?_
      rintro m _ rfl
      cases m.suffixAt a with
      | nil => exact agree_error _
      | cons p rest =>
        have hturn : Tracks (more p.val d fun _ k => n * d k) w v := h.mono fun x o _ => by
          rw [more, Nat.succ_mul]
          split
          · exact Nat.le_refl _
          · exact Nat.le_add_right ..
        refine (hbody _ w v p.val hturn).bind fun r r' hr => ?_
        exact (ih hr.2).bind fun x x' hx => agree_pure ⟨by rw [hr.1, hx.1], hx.2⟩

/-- **`room_obj_del`** counts down only. -/
theorem Tracks.agree_roomObjDel (h : Tracks noMore w v) (room : RoomId) (name : CString) :
    Agree (Returns noMore) (roomObjDel asserts w room name) (roomObjDel asserts v room name) := by
  unfold roomObjDel
  rw [← roomObjGet_toNat, h.eq]
  refine (agree_refl (S := Eq) fun _ _ => rfl).bind ?_
  rintro l _ rfl
  cases l with
  | nil => exact agree_pure ⟨rfl, h⟩
  | cons p rest =>
    refine (agree_walkList (d := fun _ => 0) (fun spare w v id h => ?_) h).bind fun r r' hr =>
      agree_pure ⟨rfl, hr.2⟩
    exact Agree.map ((h.ample.agree_delObjByPtr (.room room) id).mono fun _ _ hr => ⟨rfl, hr.2⟩)

/-- The body of the loop of `req_take` counts up once for each key. -/
theorem Tracks.agree_takeOne (h : Tracks (more id (fun k => k) spare) w v) (hooks : CString → ObjClass)
    (sender : Sender) :
    Agree (Returns spare) (takeOne asserts hooks sender w id) (takeOne asserts hooks sender v id) := by
  refine (h.agree_deref id).bind ?_
  rintro o _ ⟨-, rfl⟩
  show Agree _ (ite _ _ _) (ite (allows (hooks o.cls).hookTake id sender = true) _ _)
  by_cases hallow : allows (hooks o.cls).hookTake id sender = true
  · rw [if_pos hallow, if_pos hallow]
    refine (h.agree_userdbAddObj sender.user).bind fun r r' hr => ?_
    exact (hr.2.agree_delObjByPtr (.room sender.room) id).bind fun x x' hx => agree_pure ⟨rfl, hx.2⟩
  · rw [if_neg hallow, if_neg hallow]
    exact agree_pure ⟨rfl, h.ample⟩

/-- The body of the loop of `req_drop` counts up once for each key, and once more for each key and once
in vain if the hook refuses. -/
theorem Tracks.agree_dropOne (h : Tracks (more id (fun k => 2 * k + 1) spare) w v)
    (hooks : CString → ObjClass) (sender : Sender) :
    Agree (Returns spare) (dropOne asserts hooks sender w id) (dropOne asserts hooks sender v id) := by
  have hparts : Tracks (more id (fun _ => 1) (more id (fun k => k - 1)
      (more id (fun _ => 1) (more id (fun k => k) spare)))) w v := by
    refine h.mono fun x o _ => ?_
    have hkeys : 0 < o.keys.length := Nat.succ_pos _
    simp only [more]
    split <;> omega
  refine hparts.agree_objDup.bind fun w₁ v₁ h₁ => (h₁.agree_roomObjAdd sender.room).bind fun r r' hr => ?_
  refine (hr.2.agree_delObjByPtr (.inventory sender.user) id).bind fun x x' hx => ?_
  refine (hx.2.agree_deref id).bind ?_
  rintro o _ ⟨-, rfl⟩
  show Agree _ (ite _ _ _) (ite (allows (hooks o.cls).hookDrop id sender = true) _ _)
  by_cases hallow : allows (hooks o.cls).hookDrop id sender = true
  · rw [if_pos hallow, if_pos hallow]
    exact agree_pure ⟨rfl, hx.2.ample.ample⟩
  · rw [if_neg hallow, if_neg hallow]
    refine hx.2.agree_objDup.bind fun w₂ v₂ h₂ => (h₂.agree_userdbAddObj sender.user).bind fun y y' hy => ?_
    exact (hy.2.agree_delObjByPtr (.room sender.room) id).bind fun z z' hz => agree_pure ⟨rfl, hz.2⟩

/-- **`req_take`**, if there is room for as many references as there are cells and keys. -/
theorem agree_reqTake {hooks : CString → ObjClass} {sender : Sender} {name : CString}
    (h : ∀ l, roomObjGet asserts w sender.room ⟨name, none⟩ = .ok l →
      Tracks (fun _ k => l.length * k) w v) (h0 : Tracks noMore w v) :
    Agree (Returns noMore) (reqTake asserts hooks sender name w) (reqTake asserts hooks sender name v) := by
  unfold reqTake
  rw [← h0.eq, roomObjGet_toNat, h0.eq]
  refine (agree_refl (S := fun l l' => l = l' ∧ Tracks (fun _ k => l.length * k) w v)
    fun l hl => ⟨rfl, h l hl⟩).bind ?_
  rintro l _ ⟨rfl, hl⟩
  cases l with
  | nil => exact agree_pure ⟨rfl, h0⟩
  | cons p rest => exact agree_walkList (fun spare w v id h => h.agree_takeOne hooks sender) hl

/-- **`req_drop`**, if there is room for what may be moved there and back. -/
theorem agree_reqDrop {hooks : CString → ObjClass} {sender : Sender} {name : CString}
    (h : ∀ l, lookupObjs asserts w (.inventory sender.user) ⟨name, none⟩ = .ok l →
      Tracks (fun _ k => l.length * (2 * k + 1)) w v) (h0 : Tracks noMore w v) :
    Agree (Returns noMore) (reqDrop asserts hooks sender name w) (reqDrop asserts hooks sender name v) := by
  unfold reqDrop
  rw [← h0.eq, lookupObjs_toNat, World.map?_toNat, h0.eq]
  cases w.map? (.inventory sender.user) with
  | none => exact agree_pure ⟨rfl, h0⟩
  | some m =>
    refine (agree_refl (S := fun l l' => l = l' ∧ Tracks (fun _ k => l.length * (2 * k + 1)) w v)
      fun l hl => ⟨rfl, h l hl⟩).bind ?_
    rintro l _ ⟨rfl, hl⟩
    cases l with
    | nil => exact agree_pure ⟨rfl, h0⟩
    | cons p rest => exact agree_walkList (fun spare w v id h => h.agree_dropOne hooks sender) hl

/-! ## Operations -/

/-- What a lookup finds. -/
theorem eq_listed_of_lookupObjs {l : List ObjPair} {key : ObjKey} (h : lookupObjs asserts w c key = .ok l) :
    l = w.toNat.listed asserts c key := by
  obtain ⟨m, hm, h⟩ := bind_eq_ok h
  obtain ⟨_, -, h⟩ := bind_eq_ok h
  have hmap : w.toNat.map? c = some m := by
    rw [World.map?_toNat]
    unfold World.getMap at hm
    cases hc : w.map? c with
    | some m' =>
      rw [hc] at hm
      exact congrArg some (Except.ok.inj hm)
    | none =>
      rw [hc] at hm
      cases c <;> exact absurd hm (by simp)
  rw [World.listed_eq hmap]
  exact (Except.ok.inj h).symm

end

/-- The counter of every object of `k` keys can be counted up `n k` times. -/
def World.HasRoom (w : World UInt32) (n : ℕ → ℕ) : Prop :=
  ∀ id < w.idcounter, ∀ o ∈ w.objects id, o.refcount.toNat + n o.keys.length < 2 ^ 32

/-- **When no counter comes around**: there is room for the references of an object that is added, for
those of one that is given an alias, and for those that are made while all objects found are moved, and
moved back. -/
def ObjOp.Fits (asserts : Bool) (w : World UInt32) : ObjOp → Prop
  | .add _ _ _ aliasList => aliasList.length + 1 < 2 ^ 32
  | .newAlias .. | .roomDel .. | .userDel .. => True
  | .addAlias _ id _ => ∀ o ∈ w.objects id, o.refcount.toNat + o.keys.length < 2 ^ 32
  | .take _ sender name =>
      w.HasRoom fun k => (w.toNat.listed asserts (.room sender.room) ⟨name, none⟩).length * k
  | .drop _ sender name =>
      w.HasRoom fun k =>
        (w.toNat.listed asserts (.inventory sender.user) ⟨name, none⟩).length * (2 * k + 1)

instance (w : World UInt32) (n : ℕ → ℕ) : Decidable (w.HasRoom n) :=
  inferInstanceAs (Decidable (∀ id < w.idcounter, ∀ o ∈ w.objects id, _))

instance ObjOp.decidableFits (asserts : Bool) (w : World UInt32) :
    (op : ObjOp) → Decidable (op.Fits asserts w)
  | .add .. => inferInstanceAs (Decidable (_ < _))
  | .newAlias .. | .roomDel .. | .userDel .. => inferInstanceAs (Decidable True)
  | .addAlias _ id _ => inferInstanceAs (Decidable (∀ o ∈ w.objects id, _))
  | .take _ sender name => inferInstanceAs (Decidable (w.HasRoom fun k =>
      (w.toNat.listed asserts (.room sender.room) ⟨name, none⟩).length * k))
  | .drop _ sender name => inferInstanceAs (Decidable (w.HasRoom fun k =>
      (w.toNat.listed asserts (.inventory sender.user) ⟨name, none⟩).length * (2 * k + 1)))

section

variable {asserts : Bool} {w : World UInt32} {v : World ℕ} {id : ObjId}

theorem World.HasRoom.tracks {n : ℕ → ℕ} (hroom : w.HasRoom n) (h : Tracks noMore w v) :
    Tracks (fun _ k => n k) w v where
  eq := h.eq
  counted := h.counted
  spare x o ho := hroom x (h.lt_idcounter ho) o ho
  fresh := h.fresh

/-- Room that one object has. -/
theorem Tracks.raise {n : ℕ → ℕ} (h : Tracks noMore w v)
    (hroom : ∀ o ∈ w.objects id, o.refcount.toNat + n o.keys.length < 2 ^ 32) :
    Tracks (more id n noMore) w v := by
  refine ⟨h.eq, h.counted, fun x o ho => ?_, h.fresh⟩
  by_cases hx : x = id
  · subst hx
    rw [more_self, Nat.zero_add]
    exact hroom o ho
  · rw [more_other hx]
    exact h.spare x o ho

/-- An object that has yet to be made has all the room. -/
theorem Tracks.reserve (h : Tracks noMore w v) (n : ℕ → ℕ) : Tracks (more w.idcounter n noMore) w v := by
  refine h.mono fun x o ho => ?_
  rw [more_other (Nat.ne_of_lt (h.lt_idcounter ho))]

/-- A request that is not about more than can be counted. -/
theorem Tracks.agree_take (h : Tracks noMore w v) (hooks : CString → ObjClass) {sender : Sender}
    {name : CString} (hfits : (ObjOp.take hooks sender name).Fits asserts w) :
    Agree (Returns noMore) (reqTake asserts hooks sender name w) (reqTake asserts hooks sender name v) := by
  refine agree_reqTake (fun l hl => ?_) h
  rw [eq_listed_of_lookupObjs hl]
  exact World.HasRoom.tracks hfits h

theorem Tracks.agree_drop (h : Tracks noMore w v) (hooks : CString → ObjClass) {sender : Sender}
    {name : CString} (hfits : (ObjOp.drop hooks sender name).Fits asserts w) :
    Agree (Returns noMore) (reqDrop asserts hooks sender name w) (reqDrop asserts hooks sender name v) := by
  refine agree_reqDrop (fun l hl => ?_) h
  rw [eq_listed_of_lookupObjs hl]
  exact World.HasRoom.tracks hfits h

/-- **An operation does what it does with numbers**, if no counter comes around. -/
theorem Tracks.agree_objStep (h : Tracks noMore w v) (classes : List CString) {op : ObjOp}
    (hfits : op.Fits asserts w) :
    Agree (Tracks noMore) (objStep asserts classes w op) (objStep asserts classes v op) := by
  cases op with
  | add room cls name aliasList =>
    have hkeys : aliasList.length + 1 < 2 ^ 32 := hfits
    refine ((h.reserve fun k => k - 1).agree_objNew classes cls name ?_).bind ?_
    · rw [more_self, noMore]
      omega
    · rintro ⟨_, w₁⟩ ⟨_, v₁⟩ ⟨rfl, rfl, h₁⟩
      exact (Tracks.agree_roomObjAdd h₁ room).bind fun _ _ hr => agree_pure hr.2
  | newAlias room cls name aliasName =>
    refine ((h.reserve fun k => k).agree_objNew classes cls name ?_).bind ?_
    · rw [more_self]
      exact (by decide : 1 + (0 + 1) < 2 ^ 32)
    · rintro ⟨_, w₁⟩ ⟨_, v₁⟩ ⟨rfl, rfl, h₁⟩
      exact (Tracks.agree_roomObjAddAlias h₁ room aliasName).bind fun _ _ hr => agree_pure hr.2
  | addAlias room id aliasName =>
    have hroom : Tracks (more id (fun k => k) noMore) w v := h.raise hfits
    exact Agree.map ((hroom.agree_roomObjAddAlias room aliasName).mono fun _ _ hr => hr.2)
  | take hooks sender name => exact Agree.map ((h.agree_take hooks hfits).mono fun _ _ hr => hr.2)
  | drop hooks sender name => exact Agree.map ((h.agree_drop hooks hfits).mono fun _ _ hr => hr.2)
  | roomDel room id => exact Agree.map ((h.agree_delObjByPtr _ id).mono fun _ _ hr => hr.2)
  | userDel user id => exact Agree.map ((h.agree_delObjByPtr _ id).mono fun _ _ hr => hr.2)

/-- A server without objects. -/
theorem tracks_init (sizes : List (Container × ℕ)) (distinct : (sizes.map Prod.fst).Nodup) :
    Tracks noMore (World.init sizes distinct) (World.init sizes distinct) where
  eq := rfl
  counted _ _ ho := absurd ho (by simp [World.init])
  spare _ _ ho := absurd ho (by simp [World.init])
  fresh _ _ := rfl

end

end NetCosm
