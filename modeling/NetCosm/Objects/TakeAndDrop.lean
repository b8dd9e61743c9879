import NetCosm.Objects.Conservation
import NetCosm.Objects.RefCount

/-!
# Runs of takes and drops

The states `req_take` and `req_drop` are called in are built by `room_obj_add` and
`room_obj_add_alias`, and by earlier takes and drops.  This file follows such runs.
Between two requests a world is `Settled`: every object is in exactly one container,
every map is sound, and no key of a table has been freed.

A new object that is given an alias in a room where another object has its name is
not added under its name: `room_obj_add_alias` looks the name up and is content with
what it finds.  The object is in the room under the alias then, and the reference
its creator had is forgotten.  This is why `PrimaryStored` has a second case.
-/

namespace NetCosm

open World

variable {asserts : Bool} {classes : List CString} {held : ObjId → ℕ} {w w' : World ℕ}
  {c : Container} {id : ObjId} {o : Object ℕ}

/-! ## Insertions into a room -/

/-- A world without pairs is settled. -/
theorem settled_init (asserts : Bool) (sizes : List (Container × ℕ))
    (distinct : (sizes.map Prod.fst).Nodup) : (World.init sizes distinct).Settled asserts := by
  have hmap : ∀ c m, (World.init sizes distinct : World ℕ).map? c = some m → ∃ n, m = multimapInit n := by
    intro c m h
    obtain ⟨e, -, heq⟩ := List.mem_map.mp (mem_maps_iff.mpr h)
    exact ⟨e.2, (congrArg Prod.snd heq).symm⟩
  have hnone : ∀ c p, p ∉ (World.init sizes distinct : World ℕ).pairsIn c := by
    intro c p hp
    obtain ⟨m, hm, hpm⟩ := exists_map_of_mem_pairsIn hp
    obtain ⟨n, rfl⟩ := hmap c m hm
    exact absurd hpm (by simp)
  refine ⟨⟨0, ⟨booked_init asserts sizes distinct, keysLive_iff.mpr fun c m hm n hn => ?_⟩,
    fun c id o ho => absurd ho (by simp [World.descr, World.init])⟩, ⟨fun c m hm => ?_,
    fun c p hp => absurd hp (hnone c p)⟩, fun id hlive => absurd hlive (by simp [World.init])⟩
  · obtain ⟨k, rfl⟩ := hmap c m hm
    exact absurd hn (by simp [multimapInit, hashInit])
  · obtain ⟨k, rfl⟩ := hmap c m hm
    exact sound_init (objEnv asserts) k

/-- A world that is settled but for one object, which may go into one container: it is
there or nowhere. -/
structure World.Ready (asserts : Bool) (held : ObjId → ℕ) (c : Container) (id : ObjId)
    (o : Object ℕ) (w : World ℕ) : Prop where
  tidy : w.Tidy asserts
  object : ∃ n, w.objects id = some { o with refcount := n }
  one : ∀ x, x ≠ id → (w.objects x).isSome = true → ∃! c, w.InContainer c x
  only : ∀ c', w.InContainer c' id → c' = c
  others : ∀ c x ox, x ≠ id → w.descr x = some ox → w.InContainer c x →
    (∃ p ∈ w.pairsIn c, p.val = x ∧ p.key.text = ox.name) ∨ 0 < held x

theorem World.Ready.descr_eq (hw : w.Ready asserts held c id o) :
    w.descr id = some { o with refcount := 0 } := by
  obtain ⟨n, ho⟩ := hw.object
  rw [NetCosm.descr_eq ho]

/-- A settled world is ready for an object of the container. -/
theorem World.Ready.of_settled (htidy : w.Tidy asserts) (hone : w.EachInOne)
    (hprimary : w.PrimaryStored held) (ho : w.objects id = some o) (hin : w.InContainer c id) :
    w.Ready asserts held c id o where
  tidy := htidy
  object := ⟨o.refcount, ho⟩
  one x _ hx := hone x hx
  only c' hin' := (hone id (by rw [ho]; rfl)).unique hin' hin
  others c' x ox _ hox hx := hprimary c' x ox hox hx

/-- A ready world is settled once the object is in the container. -/
theorem World.Ready.settled (hw : w.Ready asserts held c id o) (horder : w.InOrder asserts held)
    (hin : w.InContainer c id)
    (hprimary : (∃ p ∈ w.pairsIn c, p.val = id ∧ p.key.text = o.name) ∨ 0 < held id) :
    w.Settled asserts := by
  refine ⟨⟨held, horder, fun c' x ox hox hx => ?_⟩, hw.tidy, fun x hx => ?_⟩
  · by_cases hxid : x = id
    · subst hxid
      rw [hw.descr_eq] at hox
      obtain rfl := hw.only c' hx
      rw [← Option.some.inj hox]
      exact hprimary
    · exact hw.others c' x ox hxid hox hx
  · by_cases hxid : x = id
    · subst hxid
      exact ⟨c, hin, fun c' h => hw.only c' h⟩
    · exact hw.one x hxid hx

/-- **Inserting the object into its container** leaves the world ready, and stores it
under the keys. -/
theorem World.Ready.insert {keys : List ObjKey} (hw : w.Ready asserts held c id o)
    (hacts : Acts asserts c id (keys.map fun key => .insert key id) w w')
    (hgrow : w.GrowsAlong asserts c (keys.map fun key => .insert key id))
    (hlive : (w'.objects id).isSome = true) (hkeys : ∀ key ∈ keys, key.text ∈ o.keys) :
    w'.Ready asserts held c id o ∧ (∀ p ∈ w.pairsIn c, p ∈ w'.pairsIn c) ∧
      ∀ key ∈ keys, ∃ p ∈ w'.pairsIn c, p.val = id ∧ p.key = key := by
  obtain ⟨n, ho⟩ := hw.object
  obtain ⟨m, ho'⟩ := hacts.same_object ho hlive
  have hdescr : w'.descr = w.descr := hacts.descr ho hlive
  obtain ⟨new, hmem, hnew, hall⟩ := hacts.mem_pairsIn_insert hw.tidy
  have hsub : ∀ c' p, p ∈ w.pairsIn c' → p ∈ w'.pairsIn c' := by
    intro c' p hp
    by_cases hc : c' = c
    · subst hc
      exact (hmem p).mpr (Or.inr hp)
    · rwa [hacts.pairsIn_of_ne hc]
  have hback : ∀ c' p, p ∈ w'.pairsIn c' → p ∈ w.pairsIn c' ∨ c' = c ∧ p ∈ new := by
    intro c' p hp
    by_cases hc : c' = c
    · subst hc
      exact ((hmem p).mp hp).symm.imp_right fun h => ⟨rfl, h⟩
    · exact Or.inl (hacts.pairsIn_of_ne hc ▸ hp)
  have hsame : ∀ c' x, x ≠ id → (w'.InContainer c' x ↔ w.InContainer c' x) := by
    intro c' x hx
    constructor
    · rintro ⟨p, hp, rfl⟩
      exact ⟨p, (hback c' p hp).resolve_right fun h => hx (hnew p h.2).1, rfl⟩
    · rintro ⟨p, hp, rfl⟩
      exact ⟨p, hsub c' p hp, rfl⟩
  refine ⟨⟨⟨hacts.sound hw.tidy.sound hgrow, fun c' p hp ox hox => ?_⟩, ⟨m, ho'⟩,
    fun x hxid hx => ?_, fun c' hin => ?_, fun c' x ox hxid hox hin => ?_⟩, hsub c,
    fun key hkey => ?_⟩
  · rw [hdescr] at hox
    rcases hback c' p hp with hp | ⟨-, hp⟩
    · exact hw.tidy.named c' p hp ox hox
    · obtain ⟨hval, hkey⟩ := hnew p hp
      rw [hval, NetCosm.descr_eq ho] at hox
      rw [← Option.some.inj hox]
      exact hkeys p.key hkey
  · rw [hacts.objects x hxid] at hx
    obtain ⟨c₀, hin, huniq⟩ := hw.one x hxid hx
    exact ⟨c₀, (hsame c₀ x hxid).mpr hin, fun c' h => huniq c' ((hsame c' x hxid).mp h)⟩
  · obtain ⟨p, hp, hval⟩ := hin
    exact (hback c' p hp).elim (fun h => hw.only c' ⟨p, h, hval⟩) And.left
  · rw [hdescr] at hox
    refine (hw.others c' x ox hxid hox ((hsame c' x hxid).mp hin)).imp_left ?_
    rintro ⟨p, hp, hval⟩
    exact ⟨p, hsub c' p hp, hval⟩
  · obtain ⟨p, hp, hpk⟩ := hall key hkey
    exact ⟨p, (hmem p).mpr (Or.inl hp), (hnew p hp).1, hpk⟩

/-- Giving the object another alias leaves the world ready. -/
theorem World.Ready.withAlias (hw : w.Ready asserts held c id o) (aliasName : CString) {n : ℕ} :
    (w.withAlias id { o with refcount := n } aliasName).Ready asserts held c id
      { o with aliasList := aliasName :: o.aliasList } := by
  have hother : ∀ x, x ≠ id →
      (w.withAlias id { o with refcount := n } aliasName).objects x = w.objects x :=
    fun x hx => by simp [World.withAlias, World.setObject, hx]
  have hdescr : ∀ x, x ≠ id →
      (w.withAlias id { o with refcount := n } aliasName).descr x = w.descr x :=
    fun x hx => by rw [World.descr, World.descr, hother x hx]
  refine ⟨⟨hw.tidy.sound, fun c' p hp ox hox => ?_⟩, ⟨n, objects_withAlias⟩,
    fun x hxid hx => hw.one x hxid (hother x hxid ▸ hx), hw.only,
    fun c' x ox hxid hox => hw.others c' x ox hxid (hdescr x hxid ▸ hox)⟩
  by_cases hval : p.val = id
  · rw [hval, NetCosm.descr_eq objects_withAlias] at hox
    have hold := hw.tidy.named c' p hp { o with refcount := 0 } (by rw [hval, hw.descr_eq])
    rw [← Option.some.inj hox]
    rcases List.mem_cons.mp hold with hname | halias
    · exact hname ▸ List.mem_cons_self ..
    · exact List.mem_cons_of_mem _ (List.mem_cons_of_mem _ halias)
  · exact hw.tidy.named c' p hp ox (hdescr p.val hval ▸ hox)

/-- Which references are held matters for the other objects only. -/
theorem World.Ready.of_held {held' : ObjId → ℕ} (hw : w.Ready asserts held c id o)
    (h : ∀ x, x ≠ id → held' x = held x) : w.Ready asserts held' c id o :=
  { hw with others := fun c' x ox hx hox hin => h x hx ▸ hw.others c' x ox hx hox hin }

/-- The world with a new object, which is nowhere. -/
theorem ready_new (htidy : w.Tidy asserts) (horder : w.InOrder asserts held)
    (hone : w.EachInOne) (hprimary : w.PrimaryStored held) (hnone : w.objects id = none)
    (ho : w'.objects id = some o) (hother : ∀ x, x ≠ id → w'.objects x = w.objects x)
    (hmaps : w'.maps = w.maps) (c : Container) :
    w'.Ready asserts held c id o ∧ ∀ c', ¬ w'.InContainer c' id := by
  have hmap : ∀ c', w'.map? c' = w.map? c' := fun c' => by rw [World.map?, World.map?, hmaps]
  have hpairs : ∀ c', w'.pairsIn c' = w.pairsIn c' := fun c' => by
    rw [World.pairsIn, World.pairsIn, hmap]
  have hnowhere : ∀ c', ∀ p ∈ w'.pairsIn c', p.val ≠ id := by
    intro c' p hp heq
    rw [hpairs] at hp
    have hpos := refs_pos_of_mem (mem_cells_of_mem_pairsIn hp)
    have hzero := horder.dead id hnone
    rw [heq] at hpos
    omega
  have hin : ∀ c' x, w'.InContainer c' x ↔ w.InContainer c' x := fun c' x => by
    rw [World.InContainer, hpairs, World.InContainer]
  have hdescr : ∀ x, x ≠ id → w'.descr x = w.descr x := fun x hx => by
    rw [World.descr, World.descr, hother x hx]
  refine ⟨⟨⟨fun c' m hm => htidy.sound c' m (hmap c' ▸ hm), fun c' p hp ox hox => ?_⟩,
    ⟨o.refcount, ho⟩, fun x hx hlive => ?_, fun c' h => ?_, fun c' x ox hx hox h => ?_⟩,
    fun c' h => ?_⟩
  · rw [hdescr p.val (hnowhere c' p hp)] at hox
    exact htidy.named c' p (hpairs c' ▸ hp) ox hox
  · simp only [hin]
    exact hone x (hother x hx ▸ hlive)
  · obtain ⟨p, hp, hval⟩ := h
    exact absurd hval (hnowhere c' p hp)
  · rw [hdescr x hx] at hox
    rw [hpairs]
    exact hprimary c' x ox hox ((hin c' x).mp h)
  · obtain ⟨p, hp, hval⟩ := h
    exact hnowhere c' p hp hval

/-! ## The operations that add -/

/-- What `room_obj_add_alias` does to the map of the room. -/
def World.aliasOps (asserts : Bool) (w : World ℕ) (room : RoomId) (id : ObjId) (o : Object ℕ)
    (aliasName : CString) : List (MultimapOp ObjKey ObjId) :=
  (if w.listed asserts (.room room) ⟨o.name, some id⟩ = [] then insertOps id o.keys else []) ++
    if AliasNew o aliasName then [.insert ⟨aliasName, none⟩ id] else []

/-- **`room_obj_add`** of a new object keeps a world settled. -/
theorem sat_add_settled {room : RoomId} {cls name : CString} {aliasList : List CString}
    {m : ObjMap} (hw : w.Settled asserts) (hm : w.map? (.room room) = some m)
    (hgrow : w.GrowsAlong asserts (.room room) (insertOps w.idcounter (name :: aliasList))) :
    Sat (fun e => e = .fatal) (objStep asserts classes w (.add room cls name aliasList))
      fun w' => w'.Settled asserts := by
  obtain ⟨held, horder, hprimary⟩ := hw.order
  refine sat_bind (sat_objNew horder rfl) ?_
  rintro ⟨id, w₁⟩ ⟨hid, hw₁, ho, hother, hmaps⟩
  dsimp only at hid hw₁ ho hother hmaps
  subst hid
  have hnone := horder.fresh w.idcounter (Nat.le_refl _)
  obtain ⟨hready, -⟩ := ready_new hw.tidy horder hw.one hprimary hnone ho hother hmaps (.room room)
  have hmap : w₁.map? (.room room) = w.map? (.room room) := by rw [World.map?, World.map?, hmaps]
  have hgrow₁ := hgrow.of_map_eq hmap
  refine sat_bind (sat_roomObjAdd hw₁ ho (hmap.trans hm) fun e he =>
    (hgrow₁.completes hready.tidy (hmap.trans hm) he).elim) ?_
  rintro r ⟨hacts, hw₂, hlive⟩
  rw [Object.keys] at hacts
  rw [insertOps_eq] at hacts hgrow₁
  obtain ⟨hready', -, hall⟩ := hready.insert hacts hgrow₁ hlive fun key hkey => by
    obtain ⟨text, htext, rfl⟩ := List.mem_map.mp hkey
    exact htext
  obtain ⟨p, hp, hval, hkey⟩ := hall ⟨name, some w.idcounter⟩ (List.mem_cons_self ..)
  exact sat_pure (hready'.settled hw₂ ⟨p, hp, hval⟩ (Or.inl ⟨p, hp, hval, by rw [hkey]⟩))

/-- Storing an alias settles a ready world, if the object is in the room before or
gets there by it. -/
theorem World.Ready.storeAlias {room : RoomId} {aliasName : CString} {n : ℕ}
    (hw : w.Ready asserts held (.room room) id o)
    (hgrow : AliasNew o aliasName →
      w.GrowsAlong asserts (.room room) [.insert ⟨aliasName, none⟩ id])
    (horder : w'.InOrder asserts held) (hlive : (w'.objects id).isSome = true)
    (hcases : ¬ AliasNew o aliasName ∧ w' = w ∨ AliasNew o aliasName ∧
      Acts asserts (.room room) id [.insert ⟨aliasName, none⟩ id]
        (w.withAlias id { o with refcount := n } aliasName) w')
    (hin : w.InContainer (.room room) id ∨ AliasNew o aliasName)
    (hprimary : (∃ p ∈ w.pairsIn (.room room), p.val = id ∧ p.key.text = o.name) ∨ 0 < held id) :
    w'.Settled asserts := by
  rcases hcases with ⟨hold, rfl⟩ | ⟨hnew, hacts⟩
  · exact hw.settled horder (hin.resolve_right hold) hprimary
  · have hacts' : Acts asserts (.room room) id
        ([(⟨aliasName, none⟩ : ObjKey)].map fun key => .insert key id)
        (w.withAlias id { o with refcount := n } aliasName) w' := hacts
    obtain ⟨hready, hsub, hall⟩ :=
      (hw.withAlias aliasName).insert hacts' (hgrow hnew) hlive fun key hkey => by
        rw [List.mem_singleton.mp hkey]
        exact List.mem_cons_of_mem _ (List.mem_cons_self ..)
    obtain ⟨p, hp, hval, -⟩ := hall ⟨aliasName, none⟩ (List.mem_singleton.mpr rfl)
    refine hready.settled horder ⟨p, hp, hval⟩ (hprimary.imp_left ?_)
    rintro ⟨q, hq, hqval⟩
    exact ⟨q, hsub q hq, hqval⟩

/-- **`room_obj_add_alias`** in a ready world.  The object is in the room, or comes
there by being added under its name or by its new alias. -/
theorem sat_roomObjAddAlias_settled {room : RoomId} {aliasName : CString} {m : ObjMap}
    (hw : w.Ready asserts held (.room room) id o) (ho : w.objects id = some o)
    (horder : w.InOrder asserts held) (hm : w.map? (.room room) = some m)
    (hgrow : w.GrowsAlong asserts (.room room) (w.aliasOps asserts room id o aliasName))
    (hin : w.InContainer (.room room) id ∨ AliasNew o aliasName ∨
      w.listed asserts (.room room) ⟨o.name, some id⟩ = [])
    (hprimary : (∃ p ∈ w.pairsIn (.room room), p.val = id ∧ p.key.text = o.name) ∨ 0 < held id) :
    Sat (fun _ => False) (roomObjAddAlias asserts w room id aliasName)
      fun r => r.2.Settled asserts := by
  by_cases hlisted : w.listed asserts (.room room) ⟨o.name, some id⟩ = []
  · -- the name is not there, so the reference that is stored is one nobody else has
    have hheld : 0 < held id := by
      refine hprimary.resolve_left ?_
      rintro ⟨p, hp, hval, htext⟩
      have hmem := hw.tidy.mem_listed hp (show (⟨o.name, some id⟩ : ObjKey).text = _ from htext.symm)
      rw [hlisted] at hmem
      exact absurd hmem List.not_mem_nil
    rw [World.aliasOps, if_pos hlisted] at hgrow
    have hsplit := held_sub_add hheld
    rw [listed_eq hm] at hlisted
    have hw' : w.Ready asserts (held - Pi.single id 1) (.room room) id o :=
      hw.of_held fun x hx => by simp [hx]
    refine (sat_roomObjAddAlias_of_held (hsplit ▸ horder) ho hm hlisted
      (fun e he => hgrow.left.completes hw.tidy hm he) fun hnew e he => ?_).mono ?_
    · rw [if_pos hnew] at hgrow
      exact hgrow.completes hw.tidy hm he
    rintro r ⟨horder', hlive, w₁, o₁, hacts, ho₁, ⟨n, rfl⟩, hcases⟩
    have hright := hgrow.right hacts
    have hleft := hgrow.left
    rw [insertOps_eq] at hacts hleft
    obtain ⟨hready, -, hall⟩ := hw'.insert hacts hleft (by rw [ho₁]; rfl) fun key hkey => by
      obtain ⟨text, htext, rfl⟩ := List.mem_map.mp hkey
      exact htext
    obtain ⟨p, hp, hval, hkey⟩ := hall ⟨o.name, some id⟩ (List.mem_cons_self ..)
    refine hready.storeAlias (fun hnew => ?_) horder' hlive hcases (Or.inl ⟨p, hp, hval⟩)
      (Or.inl ⟨p, hp, hval, by rw [hkey]⟩)
    rwa [if_pos hnew] at hright
  · rw [World.aliasOps, if_neg hlisted, List.nil_append] at hgrow
    have hin' : w.InContainer (.room room) id ∨ AliasNew o aliasName :=
      hin.imp_right fun h => h.resolve_right hlisted
    rw [listed_eq hm] at hlisted
    refine (sat_roomObjAddAlias_of_found horder ho hm hlisted fun hnew e he => ?_).mono ?_
    · rw [if_pos hnew] at hgrow
      refine hgrow.completes (e := e) hw.tidy hm (Runs.run_cons_error ?_ [])
      rw [multimapStep, he]
      rfl
    rintro r ⟨horder', hlive, hcases⟩
    refine hw.storeAlias (n := o.refcount) (fun hnew => ?_) horder' hlive hcases hin' hprimary
    rwa [if_pos hnew] at hgrow

/-! ## Runs -/

/-- The operations are about rooms, users and objects that are there, objects are not
destroyed, and an object that is created gets somewhere: if another object has its
name in the room, the alias it is given is not that name. -/
def ObjOp.InPlay (asserts : Bool) (w : World ℕ) : ObjOp → Prop
  | .add room _ _ _ => (w.map? (.room room)).isSome = true
  | .newAlias room _ name aliasName =>
      (w.map? (.room room)).isSome = true ∧
        (w.listed asserts (.room room) ⟨name, some w.idcounter⟩ = [] ∨ aliasName ≠ name)
  | .addAlias room id _ => ∃ p ∈ w.pairsIn (.room room), p.val = id
  | .take _ sender _ | .drop _ sender _ =>
      (w.map? (.room sender.room)).isSome = true ∧
        (w.map? (.inventory sender.user)).isSome = true
  | .roomDel _ _ | .userDel _ _ => False

/-- **When an operation is safe.**  The maps it inserts into grow well, and the walk
of a take or a drop never stands before another cell of the object it is moving. -/
def ObjOp.Safe (asserts : Bool) (w : World ℕ) : ObjOp → Prop
  | .add room _ name aliasList =>
      w.GrowsAlong asserts (.room room) (insertOps w.idcounter (name :: aliasList))
  | .newAlias room cls name aliasName =>
      w.GrowsAlong asserts (.room room)
        (w.aliasOps asserts room w.idcounter ⟨cls, name, [], 1⟩ aliasName)
  | .addAlias room id aliasName =>
      ∀ o ∈ w.objects id,
        w.GrowsAlong asserts (.room room) (w.aliasOps asserts room id o aliasName)
  | .take hooks sender name =>
      let l := w.listed asserts (.room sender.room) ⟨name, none⟩
      let moves := w.asks ObjClass.hookTake hooks sender
      StepsClear moves l.length l ∧
        w.GrowsAlong asserts (.inventory sender.user)
          ((visits moves l.length l).flatMap (w.takeOps hooks sender))
  | .drop hooks sender name =>
      let l := w.listed asserts (.inventory sender.user) ⟨name, none⟩
      StepsClear (fun _ => true) l.length l ∧
        w.GrowsAlong asserts (.inventory sender.user)
          ((visits (fun _ => true) l.length l).flatMap (w.dropInventoryOps hooks sender)) ∧
        w.GrowsAlong asserts (.room sender.room)
          ((visits (fun _ => true) l.length l).flatMap (w.dropRoomOps hooks sender))
  | .roomDel _ _ | .userDel _ _ => True

/-- A take or a drop completes, and carries what it should. -/
def ObjOp.Carries (asserts : Bool) (w : World UInt32) : ObjOp → Prop
  | .take hooks sender name =>
      ∃ msgs w', reqTake asserts hooks sender name w = .ok (msgs, w') ∧
        Carried asserts (.room sender.room) (.inventory sender.user) name
          (w.toNat.asks ObjClass.hookTake hooks sender) w.toNat w'.toNat
  | .drop hooks sender name =>
      ∃ msgs w', reqDrop asserts hooks sender name w = .ok (msgs, w') ∧
        Carried asserts (.inventory sender.user) (.room sender.room) name
          (w.toNat.asks ObjClass.hookDrop hooks sender) w.toNat w'.toNat
  | _ => True

/-- The same where counts are numbers. -/
def ObjOp.CarriesIdeally (asserts : Bool) (w : World ℕ) : ObjOp → Prop
  | .take hooks sender name =>
      ∃ msgs w', reqTake asserts hooks sender name w = .ok (msgs, w') ∧
        Carried asserts (.room sender.room) (.inventory sender.user) name
          (w.asks ObjClass.hookTake hooks sender) w w'
  | .drop hooks sender name =>
      ∃ msgs w', reqDrop asserts hooks sender name w = .ok (msgs, w') ∧
        Carried asserts (.inventory sender.user) (.room sender.room) name
          (w.asks ObjClass.hookDrop hooks sender) w w'
  | _ => True

/-- What a request does with numbers it does, if no counter comes around. -/
theorem ObjOp.CarriesIdeally.carries {w : World UInt32} {v : World ℕ} {op : ObjOp}
    (h : op.CarriesIdeally asserts v) (hwv : Tracks noMore w v) (hfits : op.Fits asserts w) :
    op.Carries asserts w := by
  have heq := hwv.eq
  subst heq
  cases op with
  | take hooks sender name =>
    obtain ⟨_, v', hv', hcarried⟩ := h
    obtain ⟨⟨msgs, w'⟩, hw', -, htracks⟩ := (hwv.agree_take hooks hfits).of_ok_right hv'
    exact ⟨msgs, w', hw', htracks.eq ▸ hcarried⟩
  | drop hooks sender name =>
    obtain ⟨_, v', hv', hcarried⟩ := h
    obtain ⟨⟨msgs, w'⟩, hw', -, htracks⟩ := (hwv.agree_drop hooks hfits).of_ok_right hv'
    exact ⟨msgs, w', hw', htracks.eq ▸ hcarried⟩
  | add _ _ _ _ | newAlias _ _ _ _ | addAlias _ _ _ | roomDel _ _ | userDel _ _ => trivial

/-- A request that meets a specification without failing returns. -/
theorem exists_of_sat {α : Type} {x : Except Fault (List String × α)} {P : α → Prop}
    (h : Sat (fun _ => False) x fun r => P r.2) : ∃ msgs a, x = .ok (msgs, a) ∧ P a := by
  cases hx : x with
  | ok r =>
    rw [hx] at h
    exact ⟨r.1, r.2, rfl, h⟩
  | error e =>
    rw [hx] at h
    exact h.elim

/-- **One safe operation** keeps a world settled. -/
theorem sat_objStep_settled {op : ObjOp} (hw : w.Settled asserts) (hd : op.InPlay asserts w)
    (hs : op.Safe asserts w) :
    Sat (fun e => e = .fatal) (objStep asserts classes w op) fun w' => w'.Settled asserts := by
  cases op with
  | add room cls name aliasList =>
    obtain ⟨m, hm⟩ := Option.isSome_iff_exists.mp hd
    exact sat_add_settled hw hm hs
  | newAlias room cls name aliasName =>
    obtain ⟨m, hm⟩ := Option.isSome_iff_exists.mp hd.1
    obtain ⟨held, horder, hprimary⟩ := hw.order
    refine sat_bind (sat_objNew horder rfl) ?_
    rintro ⟨id, w₁⟩ ⟨hid, hw₁, ho, hother, hmaps⟩
    dsimp only at hid hw₁ ho hother hmaps
    subst hid
    have hnone := horder.fresh w.idcounter (Nat.le_refl _)
    obtain ⟨hready, -⟩ :=
      ready_new hw.tidy horder hw.one hprimary hnone ho hother hmaps (.room room)
    have hmap : w₁.map? (.room room) = w.map? (.room room) := by
      rw [World.map?, World.map?, hmaps]
    have hlisted : w₁.listed asserts (.room room) ⟨name, some w.idcounter⟩ =
        w.listed asserts (.room room) ⟨name, some w.idcounter⟩ := by
      rw [World.listed, World.listed, hmap]
    have hgrow : w₁.GrowsAlong asserts (.room room)
        (w₁.aliasOps asserts room w.idcounter ⟨cls, name, [], 1⟩ aliasName) := by
      rw [World.aliasOps, hlisted]
      exact World.GrowsAlong.of_map_eq hs hmap
    refine sat_bind ((sat_roomObjAddAlias_settled (hready.of_held fun x hx => by simp [hx]) ho hw₁
      (hmap.trans hm) hgrow (Or.inr ?_) (Or.inr (by simp))).tolerate fun _ => False.elim) ?_
    · rw [hlisted]
      exact hd.2.symm.imp_left fun h => ⟨h, by simp⟩
    · rintro r hr
      exact sat_pure hr
  | addAlias room id aliasName =>
    obtain ⟨held, horder, hprimary⟩ := hw.order
    obtain ⟨p, hp, rfl⟩ := hd
    obtain ⟨o, ho⟩ := hw.exists_object hp
    obtain ⟨m, hm, -⟩ := exists_map_of_mem_pairsIn hp
    have hin : w.InContainer (.room room) p.val := ⟨p, hp, rfl⟩
    have hname := hprimary (.room room) p.val _ (descr_eq ho) hin
    exact sat_map ((sat_roomObjAddAlias_settled (.of_settled hw.tidy hw.one hprimary ho hin) ho
      horder hm (hs o ho) (Or.inl hin) hname).tolerate fun _ => False.elim)
  | take hooks sender name =>
    obtain ⟨mr, hmr⟩ := Option.isSome_iff_exists.mp hd.1
    obtain ⟨mi, hmi⟩ := Option.isSome_iff_exists.mp hd.2
    exact sat_map (((sat_reqTake_carried hw hmr hmi (Nat.le_refl _) hs.1 hs.2).mono
      fun _ h => h.1).tolerate fun _ => False.elim)
  | drop hooks sender name =>
    obtain ⟨mr, hmr⟩ := Option.isSome_iff_exists.mp hd.1
    obtain ⟨mi, hmi⟩ := Option.isSome_iff_exists.mp hd.2
    exact sat_map (((sat_reqDrop_carried hw hmr hmi (Nat.le_refl _) hs.1 hs.2.1 hs.2.2).mono
      fun _ h => h.1).tolerate fun _ => False.elim)
  | roomDel room id => exact hd.elim
  | userDel user id => exact hd.elim

/-- **One safe take or drop** carries what it should. -/
theorem carries_of_safe {op : ObjOp} (hw : w.Settled asserts) (hd : op.InPlay asserts w)
    (hs : op.Safe asserts w) : op.CarriesIdeally asserts w := by
  cases op with
  | take hooks sender name =>
    obtain ⟨mr, hmr⟩ := Option.isSome_iff_exists.mp hd.1
    obtain ⟨mi, hmi⟩ := Option.isSome_iff_exists.mp hd.2
    exact exists_of_sat ((sat_reqTake_carried hw hmr hmi (Nat.le_refl _) hs.1 hs.2).mono
      fun _ h => h.2)
  | drop hooks sender name =>
    obtain ⟨mr, hmr⟩ := Option.isSome_iff_exists.mp hd.1
    obtain ⟨mi, hmi⟩ := Option.isSome_iff_exists.mp hd.2
    exact exists_of_sat ((sat_reqDrop_carried hw hmr hmi (Nat.le_refl _) hs.1 hs.2.1 hs.2.2).mono
      fun _ h => h.2)
  | add _ _ _ _ | newAlias _ _ _ _ | addAlias _ _ _ | roomDel _ _ | userDel _ _ => trivial

/-- **Take and drop along a run** where counts are numbers. -/
theorem takes_and_drops_carry_ideally (asserts : Bool) (classes : List CString)
    (sizes : List (Container × ℕ)) (distinct : (sizes.map Prod.fst).Nodup) (ops : List ObjOp)
    (h : Runs.EachStep (objStep asserts classes)
      (fun w op => op.InPlay asserts w ∧ op.Safe asserts w) (World.init sizes distinct) ops) :
    Runs.Always (objStep asserts classes) (fun w => w.Settled asserts) (World.init sizes distinct) ops ∧
      Runs.EachStep (objStep asserts classes) (fun w op => op.CarriesIdeally asserts w)
        (World.init sizes distinct) ops ∧
      ∀ e, Runs.run (objStep asserts classes) (World.init sizes distinct : World ℕ) ops = .error e →
        e = .fatal := by
  have hinit := settled_init asserts sizes distinct
  obtain ⟨halways, herror⟩ := Runs.sat_always
    (fun w op hw hg => sat_objStep_settled hw hg.1 hg.2) hinit h
  refine ⟨halways, ?_, herror⟩
  exact h.mono (fun w op w' hw hg hstep => (sat_objStep_settled hw hg.1 hg.2).of_eq hstep)
    (fun w op hw hg => carries_of_safe hw hg.1 hg.2) hinit

section

variable {classes : List CString} {sizes : List (Container × ℕ)} {distinct : (sizes.map Prod.fst).Nodup}
  {ops : List ObjOp}

/-- What is safe, and counts no further than there is room, is done as with numbers. -/
theorem agree_objStep_of_safe (w : World UInt32) (v : World ℕ) (op : ObjOp) (hwv : Tracks noMore w v)
    (hg : op.InPlay asserts w.toNat ∧ op.Safe asserts w.toNat ∧ op.Fits asserts w) :
    Agree (Tracks noMore) (objStep asserts classes w op) (objStep asserts classes v op) :=
  hwv.agree_objStep classes hg.2.2

/-- The run with numbers is safe too. -/
theorem eachStep_ideally (h : Runs.EachStep (objStep asserts classes)
      (fun (w : World UInt32) op =>
        op.InPlay asserts w.toNat ∧ op.Safe asserts w.toNat ∧ op.Fits asserts w)
      (World.init sizes distinct) ops) :
    Runs.EachStep (objStep asserts classes) (fun w op => op.InPlay asserts w ∧ op.Safe asserts w)
      (World.init sizes distinct : World ℕ) ops :=
  Runs.agree_eachStep agree_objStep_of_safe (fun _ _ _ hwv hg => hwv.eq ▸ ⟨hg.1, hg.2.1⟩)
    (tracks_init sizes distinct) h

/-- **Between two requests a world is settled**, as long as every operation is safe and no counter comes
around. -/
theorem always_settled (h : Runs.EachStep (objStep asserts classes)
      (fun (w : World UInt32) op =>
        op.InPlay asserts w.toNat ∧ op.Safe asserts w.toNat ∧ op.Fits asserts w)
      (World.init sizes distinct) ops) :
    Runs.Always (objStep asserts classes) (fun (w : World UInt32) => w.toNat.Settled asserts)
      (World.init sizes distinct) ops :=
  Runs.always_of_agree agree_objStep_of_safe (fun _ _ hwv hv => hwv.eq ▸ hv) (tracks_init sizes distinct) h
    (takes_and_drops_carry_ideally asserts classes sizes distinct ops (eachStep_ideally h)).1

end

/-- **Take and drop along a run.**  From a server without objects, as long as every
operation is safe and no counter comes around: every object is in exactly one container
in every state reached, every take and every drop completes and carries what it should,
and the run can be stopped only by an object class that does not exist. -/
theorem takes_and_drops_carry (asserts : Bool) (classes : List CString)
    (sizes : List (Container × ℕ)) (distinct : (sizes.map Prod.fst).Nodup) (ops : List ObjOp)
    (h : Runs.EachStep (objStep asserts classes)
      (fun (w : World UInt32) op =>
        op.InPlay asserts w.toNat ∧ op.Safe asserts w.toNat ∧ op.Fits asserts w)
      (World.init sizes distinct) ops) :
    Runs.Always (objStep asserts classes) (fun (w : World UInt32) => w.toNat.EachInOne)
        (World.init sizes distinct) ops ∧
      Runs.EachStep (objStep asserts classes) (fun (w : World UInt32) op => op.Carries asserts w)
        (World.init sizes distinct) ops ∧
      ∀ e, Runs.run (objStep asserts classes) (World.init sizes distinct : World UInt32) ops = .error e →
        e = .fatal := by
  have hinit := tracks_init sizes distinct
  obtain ⟨-, hcarries, herror⟩ := takes_and_drops_carry_ideally asserts classes sizes distinct ops
    (eachStep_ideally h)
  refine ⟨(always_settled h).mono fun _ hw => hw.one, ?_, fun e he => ?_⟩
  · exact Runs.eachStep_of_agree agree_objStep_of_safe
      (fun w v op hwv hg hcarries => hcarries.carries hwv hg.2.2) hinit h hcarries
  · exact herror e ((Runs.agree_run agree_objStep_of_safe hinit h).error_of_eq he)

/-! ## One spelling too many -/

instance (leaves : ObjId → Bool) (n : ℕ) (l : List ObjPair) : Decidable (StepsClear leaves n l) :=
  match n, l with
  | 0, _ | _ + 1, [] => .isTrue trivial
  | n + 1, p :: rest =>
      have := instDecidableStepsClear leaves n
      by unfold StepsClear; infer_instance

instance (asserts : Bool) (w : World ℕ) (c : Container) (ops : List (MultimapOp ObjKey ObjId)) :
    Decidable (w.GrowsAlong asserts c ops) :=
  inferInstanceAs (Decidable (∀ m ∈ w.map? c, _))

instance (asserts : Bool) (w : World ℕ) : (op : ObjOp) → Decidable (op.InPlay asserts w)
  | .add room _ _ _ => inferInstanceAs (Decidable ((w.map? (.room room)).isSome = true))
  | .newAlias .. | .take .. | .drop .. => inferInstanceAs (Decidable (_ ∧ _))
  | .addAlias room id _ => inferInstanceAs (Decidable (∃ p ∈ w.pairsIn (.room room), p.val = id))
  | .roomDel .. | .userDel .. => inferInstanceAs (Decidable False)

instance (asserts : Bool) (w : World ℕ) : (op : ObjOp) → Decidable (op.Safe asserts w)
  | .add .. | .newAlias .. => inferInstanceAs (Decidable (w.GrowsAlong ..))
  | .addAlias room id aliasName =>
      inferInstanceAs (Decidable (∀ o ∈ w.objects id,
        w.GrowsAlong asserts (.room room) (w.aliasOps asserts room id o aliasName)))
  | .take .. | .drop .. => inferInstanceAs (Decidable (_ ∧ _))
  | .roomDel .. | .userDel .. => inferInstanceAs (Decidable True)

/-- A take, and a drop that is refused. -/
theorem takes_and_drops_carry_takeAndDrop :
    Runs.Always (objStep true [letter 99]) (fun w => w.toNat.EachInOne) roomAndUser
        (takeAndDrop false) ∧
      Runs.EachStep (objStep true [letter 99]) (fun w op => op.Carries true w) roomAndUser
        (takeAndDrop false) ∧
      ∀ e, Runs.run (objStep true [letter 99]) roomAndUser (takeAndDrop false) = .error e →
        e = .fatal :=
  takes_and_drops_carry true [letter 99] _ _ _ (by decide +kernel)

/-- An object `X` is added to the room, and given the alias `x`. -/
def spelledTwice : List ObjOp := [.add 0 (letter 99) (letter 88) [], .addAlias 0 1 (letter 120)]

/-- Somebody takes `x`. -/
def takeSpelledTwice : ObjOp := .take (fun _ => ⟨none, none⟩) ⟨letter 117, 0⟩ (letter 120)

/-- The two keys of the object are in one list, and the take goes on from a cell that
it has freed. -/
theorem take_steps_to_freed_cell :
    Runs.EachStep (objStep true [letter 99]) (fun w op => op.InPlay true w.toNat) roomAndUser
        (spelledTwice ++ [takeSpelledTwice]) ∧
      ¬ Runs.EachStep (objStep true [letter 99]) (fun w op => op.Carries true w) roomAndUser
        (spelledTwice ++ [takeSpelledTwice]) := by
  refine ⟨by decide +kernel, fun h => ?_⟩
  have hfreed : (match Runs.run (objStep true [letter 99]) roomAndUser spelledTwice with
    | .ok w => objStep true [letter 99] w takeSpelledTwice |>.map fun _ => ()
    | .error _ => .ok ()) = .error .useAfterFree := by decide +kernel
  cases hr : Runs.run (objStep true [letter 99]) roomAndUser spelledTwice with
  | error e =>
    rw [hr] at hfreed
    exact absurd hfreed (by simp)
  | ok w =>
    rw [hr] at hfreed
    obtain ⟨msgs, w', htake, -⟩ := ((Runs.eachStep_append_iff.mp h).2 w hr).1
    have hstep := map_eq_error (map_eq_error hfreed)
    rw [htake] at hstep
    exact absurd hstep (by simp)

end NetCosm
