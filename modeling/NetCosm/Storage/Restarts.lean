import NetCosm.Library.Runs
import NetCosm.Storage.UserRoundTrip

/-!
# Ids across restarts

Every object has an id, and two objects are the same if their ids are (`obj_compare`).  `obj_new` takes ids from a
counter that is saved with the world.  A server that is started again loads the world, and the counter with it, and
then the users; each object that is read takes an id from the counter, and gives it up for the one in the file.

`lifeStep` is the life of a server, as far as ids are concerned: objects are made, copied, written to and freed, the
tables change, and now and then the server is stopped and started.  `ids_unique_iff` says when no two objects ever
have the same id: if and only if at each restart every object is written once, over the tables of all rooms and all
inventories.  An object that is in two of them, or in one of them twice under its name, becomes two objects.

## What is written

`heldAddrs` are the addresses of the objects that are written, in order.  What is loaded lies in memory in the same
order (`Lists`), so the ids in memory are the ids at these addresses, one by one.
-/

namespace NetCosm

namespace Storage

variable {U R V : Type}

/-! ## Memory that was just loaded -/

/-- The objects in memory are these, one after another. -/
structure Lists (h : ObjStore U) (objs : List (StoredObject U)) : Prop where
  fresh : h.fresh = objs.length
  objects : ∀ addr, h.objects addr = objs[addr]?.map fun o => o.restored o.keys.length

theorem lists_init : Lists (ObjStore.init : ObjStore U) [] := ⟨rfl, fun _ => rfl⟩

theorem Lists.of_objects {h h' : ObjStore U} {objs : List (StoredObject U)} (hl : Lists h objs)
    (hobjects : h'.objects = h.objects) (hfresh : h'.fresh = h.fresh) : Lists h' objs :=
  ⟨hfresh.trans hl.fresh, fun addr => (congrFun hobjects addr).trans (hl.objects addr)⟩

theorem Lists.allocAll {h : ObjStore U} {objs : List (StoredObject U)} (hl : Lists h objs)
    (objs' : List (StoredObject U)) : Lists (h.allocAll objs') (objs ++ objs') := by
  induction objs' generalizing h objs with
  | nil =>
    rw [List.append_nil]
    exact hl
  | cons o objs' ih =>
    have hone : Lists (h.alloc (o.restored o.keys.length)) (objs ++ [o]) := by
      refine ⟨?_, fun addr => ?_⟩
      · rw [List.length_append, List.length_singleton, ← hl.fresh]
        rfl
      · show Function.update h.objects h.fresh _ addr = _
        rw [Function.update_apply, hl.fresh]
        split
        · rename_i heq
          rw [heq, List.getElem?_concat_length]
          rfl
        · rename_i hne
          rcases lt_or_gt_of_ne hne with hlt | hgt
          · rw [List.getElem?_append_left hlt, hl.objects]
          · rw [hl.objects, List.getElem?_eq_none hgt.le,
              List.getElem?_eq_none (by rw [List.length_append, List.length_singleton]; exact hgt)]
    have hall := ih hone
    rw [List.append_assoc] at hall
    exact hall

/-- No two objects in memory have the same id. -/
def UniqueIds (h : ObjStore U) : Prop :=
  ∀ addr addr' o o', h.objects addr = some o → h.objects addr' = some o' → o.id = o'.id → addr = addr'

/-- **The ids of objects that lie one after another** are unique if they are as a list. -/
theorem Lists.uniqueIds_iff {h : ObjStore U} {objs : List (StoredObject U)} (hl : Lists h objs) :
    UniqueIds h ↔ (objs.map StoredObject.id).Nodup := by
  have hid : ∀ {addr : ℕ} {o : StoredObject U}, h.objects addr = some o →
      (objs.map StoredObject.id)[addr]? = some o.id := by
    intro addr o ho
    rw [hl.objects] at ho
    obtain ⟨o', ho', rfl⟩ := Option.map_eq_some_iff.mp ho
    rw [List.getElem?_map, ho']
    rfl
  rw [List.nodup_iff_getElem?_ne_getElem?]
  constructor
  · intro hunique i j hij hj heq
    rw [List.length_map] at hj
    have hobject : ∀ {k : ℕ} (hk : k < objs.length), h.objects k = some (objs[k].restored objs[k].keys.length) :=
      fun {k} hk => (hl.objects k).trans (by rw [List.getElem?_eq_getElem hk]; rfl)
    have hi := hobject (hij.trans hj)
    have hsame := (hid hi).symm.trans (heq.trans (hid (hobject hj)))
    exact Nat.ne_of_lt hij (hunique i j _ _ hi (hobject hj) (Option.some.inj hsame))
  · intro hne addr addr' o o' ho ho' heq
    have hlt : ∀ {k : ℕ} {o : StoredObject U}, h.objects k = some o →
        k < (objs.map StoredObject.id).length := fun ho => (List.getElem?_eq_some_iff.mp (hid ho)).1
    rcases Nat.lt_trichotomy addr addr' with hless | heq' | hless
    · exact absurd ((hid ho).trans ((congrArg some heq).trans (hid ho').symm)) (hne _ _ hless (hlt ho'))
    · exact heq'
    · exact absurd ((hid ho').trans ((congrArg some heq.symm).trans (hid ho).symm)) (hne _ _ hless (hlt ho))

/-! ## The server -/

/-- What a server has in memory, of what it saves. -/
structure ServerData (U R V : Type) where
  objects : ObjStore U
  world : WorldData R
  users : UserTable V

/-- The addresses of the objects of a user that are written. -/
def userAddrs (h : ObjStore U) (user : StoredUser V) : List ℕ :=
  match user.objects with
  | some objects => savedAddrs h objects
  | none => []

/-- The addresses of the objects that are written, in order. -/
def heldAddrs (s : ServerData U R V) : List ℕ :=
  s.world.world.flatMap (fun room => savedAddrs s.objects room.objects) ++
    (usersOf s.users).flatMap (userAddrs s.objects)

variable (m : WorldModule U R) (cb : UserCallbacks V) (asserts : Bool) (junk : List UInt8)

/-- The server is stopped, and started again: `server_save_state`, `load_worldfile` and `userdb_init`.  The file of
the world was `old`. -/
def restart (s : ServerData U R V) (old : List UInt8) : Except Fault (ServerData U R V) := do
  let world ← worldSave m s.objects s.world
  let users ← userdbWrite m.objClasses cb s.objects s.users
  let r ← worldLoadFile m ObjStore.init asserts junk (some (world ++ old.drop world.length))
  match r with
  | (some w, h) => do
      let (map, h) ← userdbInit m.objClasses cb asserts h (some users)
      .ok ⟨h, w, map⟩
  | (none, _) => .error .fatal

/-- `obj_copy`, with what `hook_dupdata` returns. -/
def objCopy (classes : CString → Option (ObjHooks U)) (dupdata : StoredObject U → Option U) (addr : ℕ) :
    StateT (ObjStore U) (Except Fault) ℕ := fun h =>
  match h.objects addr with
  | some obj => (objNew classes obj.cls h).map fun r =>
      (r.1.1, r.2.setObject r.1.1 { (newObject obj.cls h.idcounter : StoredObject U) with
        name := obj.name
        hidden := obj.hidden
        userdata := dupdata obj })
  | none => .error .useAfterFree

/-- What happens to objects. -/
inductive LifeEvent (U R V : Type) where
  | objNew (className : CString)
  | objCopy (dupdata : StoredObject U → Option U) (addr : ℕ)
  /-- An object is written to. -/
  | write (addr : ℕ) (f : StoredObject U → StoredObject U)
  /-- The last reference is given up. -/
  | free (addr : ℕ)
  /-- Rooms and users get other tables. -/
  | arrange (world : WorldData R) (users : UserTable V)
  | restart (old : List UInt8)

/-- One event.  Nothing writes the id of an object that is there. -/
def lifeStep (s : ServerData U R V) : LifeEvent U R V → Except Fault (ServerData U R V)
  | .objNew className => do
      let (_, h) ← objNew m.objClasses className s.objects
      .ok { s with objects := h }
  | .objCopy dupdata addr => do
      let (_, h) ← objCopy m.objClasses dupdata addr s.objects
      .ok { s with objects := h }
  | .write addr f =>
      match s.objects.objects addr with
      | some o => .ok { s with objects := s.objects.setObject addr { f o with id := o.id } }
      | none => .error .useAfterFree
  | .free addr => .ok { s with objects :=
      { s.objects with objects := Function.update s.objects.objects addr none } }
  | .arrange world users => .ok { s with world, users }
  | .restart old => restart m cb asserts junk s old

/-! ## What is loaded -/

section Loaded

variable {m cb asserts junk} {h : ObjStore U} {w : WorldData R} {s s' : ServerData U R V}

/-- The objects of the rooms. -/
def worldObjects (h : ObjStore U) (w : WorldData R) : List (StoredObject U) :=
  w.world.flatMap fun room => savedObjects h room.objects

theorem foldlM_rebuildRoom_store {rooms : List (Room R)}
    (hverbs : ∀ room ∈ rooms, ((verbsOf room.verbs).map Verb.name).Nodup) {world world' : List (Room R)}
    {s s' : ObjStore U} (hr : rooms.foldlM (rebuildRoom asserts h) world s = some (world', s')) :
    s' = s.allocAll (rooms.flatMap fun room => savedObjects h room.objects) := by
  induction rooms generalizing world s with
  | nil => exact (Prod.mk.inj (Option.some.inj hr)).2.symm
  | cons room rooms ih =>
    rw [List.foldlM_cons] at hr
    obtain ⟨world₁, s₁, h₁, h₂⟩ := stateT_bind_eq_some_iff.mp hr
    obtain ⟨rfl, -⟩ := (rebuildRoom_spec (hverbs room (List.mem_cons_self ..)) world s).2 world₁ s₁ h₁
    rw [ih (fun r hr => hverbs r (List.mem_cons_of_mem room hr)) h₂, List.flatMap_cons, allocAll_append]

/-- **What is in memory when a world was loaded.** -/
theorem rebuildWorld_store (hw : RestorableWorld asserts m h w) {s s' : ObjStore U} {r : Option (WorldData R)}
    (hr : rebuildWorld asserts h w s = some (r, s')) :
    s' = { ({ s with idcounter := 1 } : ObjStore U).allocAll (worldObjects h w) with idcounter := h.idcounter } := by
  have hlt : w.world.length < unsignedRange := by
    have hle := hw.length_le
    unfold unsignedRange
    omega
  obtain ⟨verbMap, s₁, world, s₂, worldMap, s₃, h₁, h₂, h₃, hx⟩ := rebuildWorld_eq_some_iff.mp hr
  obtain ⟨rfl, rfl⟩ := Prod.mk.inj hx
  obtain ⟨rfl, -⟩ := (rebuildVerbs_spec 32 hw.verbs.nodup _).2 verbMap s₁ h₁
  rw [rebuildRooms, if_pos hlt] at h₂
  have hrooms := foldlM_rebuildRoom_store (fun room hroom => (hw.rooms room hroom).verbs.nodup) h₂
  have hmap : s₃ = { s₂ with idcounter := h.idcounter } := by
    obtain ⟨t, ht, -⟩ := rebuildMap_spec hw.nodup_entries (by rw [hw.length_entries]; exact hlt)
      ({ s₂ with idcounter := h.idcounter } : ObjStore U)
    rw [hw.length_entries] at ht
    exact (Prod.mk.inj (Option.some.inj (h₃.symm.trans ht))).2
  rw [hmap, hrooms]
  rfl

/-- The same in a process that has just been started: the counter is the one that was saved. -/
theorem rebuildWorld_lists (hw : RestorableWorld asserts m h w) {s' : ObjStore U} {r : Option (WorldData R)}
    (hr : rebuildWorld asserts h w ObjStore.init = some (r, s')) :
    Lists s' (worldObjects h w) ∧ s'.idcounter = h.idcounter := by
  rw [rebuildWorld_store hw hr]
  exact ⟨(lists_init.allocAll _).of_objects rfl rfl, rfl⟩

/-- A server that can be stopped and started: what it saves can be read back. -/
structure Kept (asserts : Bool) (m : WorldModule U R) (cb : UserCallbacks V) (s : ServerData U R V) : Prop where
  world : KeptWorld asserts m s.objects s.world
  order : InOrder asserts s.users
  users : KeptUserdb m.objClasses cb s.objects s.users

/-- **What a restart returns**: what is made of the world, and then what is made of the users. -/
theorem Kept.restart_eq_ok_iff (hk : Kept asserts m cb s) (hjunk : junk.length = 4) {old : List UInt8} :
    restart m cb asserts junk s old = .ok s' ↔ (Walkable s.world ∧ WalkableUserdb s.users) ∧
      ∃ h, rebuildWorld asserts s.objects s.world ObjStore.init = some (some s'.world, h) ∧
        (usersOf s.users).foldlM (rebuildUser asserts s.objects) (hashInit 256) h = some (s'.users, s'.objects) := by
  have hlt := fun user (hu : user ∈ usersOf s.users) => (hk.users.users user hu).objects_lt
  constructor
  · intro hs'
    obtain ⟨world, hworld, hs'⟩ := bind_eq_ok hs'
    obtain ⟨users, husers, hs'⟩ := bind_eq_ok hs'
    obtain ⟨⟨r, h⟩, hload, hs'⟩ := bind_eq_ok hs'
    refine ⟨⟨hk.world.exists_worldSave_iff.mp ⟨_, hworld⟩,
      (hk.users.exists_userdbWrite_iff hk.order).mp ⟨_, husers⟩⟩, ?_⟩
    obtain ⟨rfl, -⟩ := worldSave_ok s.objects m hworld
    obtain rfl := userdbWrite_ok hlt husers
    have hp := (worldLoadFile_eq_ok_iff hjunk hk.world.toRestorableWorld).mp hload
    cases r with
    | none => exact absurd hs' (by simp)
    | some w =>
      obtain ⟨⟨map, h'⟩, hinit, hs'⟩ := bind_eq_ok hs'
      obtain rfl := Except.ok.inj hs'
      exact ⟨h, hp, (userdbInit_eq_ok_iff hk.order hk.users).mp hinit⟩
  · rintro ⟨⟨hwalk, hwalk'⟩, h, hp, hq⟩
    obtain ⟨world, hworld⟩ := hk.world.exists_worldSave_iff.mpr hwalk
    obtain ⟨users, husers⟩ := (hk.users.exists_userdbWrite_iff hk.order).mpr hwalk'
    rw [restart, hworld, ok_bind, husers, ok_bind]
    obtain ⟨rfl, -⟩ := worldSave_ok s.objects m hworld
    obtain rfl := userdbWrite_ok hlt husers
    rw [(worldLoadFile_eq_ok_iff hjunk hk.world.toRestorableWorld).mpr hp, ok_bind]
    dsimp only
    rw [(userdbInit_eq_ok_iff hk.order hk.users).mpr hq]
    rfl

/-- The objects of the users. -/
def userObjects (s : ServerData U R V) : List (StoredObject U) := (usersOf s.users).flatMap (heldObjects s.objects)

theorem idcounter_allocAll (h : ObjStore U) (objs : List (StoredObject U)) :
    (h.allocAll objs).idcounter = h.idcounter + UInt64.ofNat objs.length := by
  induction objs generalizing h with
  | nil => exact (UInt64.add_zero _).symm
  | cons o objs ih =>
    rw [ObjStore.allocAll, List.foldl_cons, ← ObjStore.allocAll, ih, List.length_cons, UInt64.ofNat_add,
      UInt64.add_comm (UInt64.ofNat objs.length), ← UInt64.add_assoc]
    rfl

/-- **A restart**: the objects lie in memory in the order in which they were written, and the counter has gone on by
one for each object of a user. -/
theorem Kept.restart_lists (hk : Kept asserts m cb s) (hjunk : junk.length = 4) {old : List UInt8}
    (hs' : restart m cb asserts junk s old = .ok s') :
    Lists s'.objects (worldObjects s.objects s.world ++ userObjects s) ∧
      s'.objects.idcounter = s.objects.idcounter + UInt64.ofNat (userObjects s).length := by
  obtain ⟨-, h, hp, hq⟩ := (hk.restart_eq_ok_iff hjunk).mp hs'
  obtain ⟨hlists, hcounter⟩ := rebuildWorld_lists hk.world.toRestorableWorld hp
  obtain ⟨hobjects, -⟩ := (rebuildUserdb_spec hk.order h).2 s'.users s'.objects hq
  rw [hobjects]
  refine ⟨hlists.allocAll _, ?_⟩
  rw [idcounter_allocAll, hcounter]
  rfl

/-- **What is loaded are the objects at the addresses that were written.** -/
theorem heldAddrs_objects (s : ServerData U R V) :
    (heldAddrs s).filterMap s.objects.objects = worldObjects s.objects s.world ++ userObjects s := by
  rw [heldAddrs, List.filterMap_append, List.filterMap_flatMap, List.filterMap_flatMap]
  refine congrArg₂ (· ++ ·) (List.flatMap_congr fun room _ => (savedObjects_eq ..).symm)
    (List.flatMap_congr fun user _ => ?_)
  rw [userAddrs, heldObjects]
  cases user.objects with
  | none => rfl
  | some objects => exact (savedObjects_eq ..).symm

/-- There are objects at these addresses. -/
theorem Kept.live (hk : Kept asserts m cb s) : ∀ addr ∈ heldAddrs s, (s.objects.objects addr).isSome := by
  intro addr haddr
  rcases List.mem_append.mp haddr with haddr | haddr
  · obtain ⟨room, hroom, haddr⟩ := List.mem_flatMap.mp haddr
    exact (hk.world.objects room hroom).live_of_mem haddr
  · obtain ⟨user, huser, haddr⟩ := List.mem_flatMap.mp haddr
    rw [userAddrs] at haddr
    cases hobjects : user.objects with
    | none =>
      rw [hobjects] at haddr
      exact absurd haddr List.not_mem_nil
    | some objects =>
      rw [hobjects] at haddr
      exact (hk.users.objects user huser objects hobjects).live_of_mem haddr

/-- Objects at different addresses have different ids, so they are written once if their ids are. -/
theorem nodup_ids_iff {h : ObjStore U} (hunique : UniqueIds h) {addrs : List ℕ}
    (hlive : ∀ addr ∈ addrs, (h.objects addr).isSome) :
    ((addrs.filterMap h.objects).map StoredObject.id).Nodup ↔ addrs.Nodup := by
  let id : ℕ → UInt64 := fun addr => ((h.objects addr).map StoredObject.id).getD 0
  have hids : (addrs.filterMap h.objects).map StoredObject.id = addrs.map id := by
    rw [List.map_filterMap, ← List.filterMap_eq_map]
    refine List.filterMap_congr fun addr haddr => ?_
    obtain ⟨o, ho⟩ := Option.isSome_iff_exists.mp (hlive addr haddr)
    simp [id, ho]
  rw [hids]
  refine ⟨List.Nodup.of_map id, List.Nodup.map_on fun a ha b hb heq => ?_⟩
  obtain ⟨o, ho⟩ := Option.isSome_iff_exists.mp (hlive a ha)
  obtain ⟨o', ho'⟩ := Option.isSome_iff_exists.mp (hlive b hb)
  refine hunique a b o o' ho ho' ?_
  simpa [id, ho, ho'] using heq

/-- **When ids are unique after a restart.** -/
theorem Kept.uniqueIds_iff (hk : Kept asserts m cb s) (hjunk : junk.length = 4) (hunique : UniqueIds s.objects)
    {old : List UInt8} (hs' : restart m cb asserts junk s old = .ok s') :
    UniqueIds s'.objects ↔ (heldAddrs s).Nodup := by
  rw [(hk.restart_lists hjunk hs').1.uniqueIds_iff, ← heldAddrs_objects, nodup_ids_iff hunique hk.live]

end Loaded

/-! ## A server that is the same -/

/-- The server has the same rooms and the same users, with the same objects. -/
structure SameServer (asserts : Bool) (s s' : ServerData U R V) : Prop where
  rooms : List.Forall₂ (SameRoom asserts s.objects s'.objects) s.world.world s'.world.world
  worldName : s'.world.worldName = s.world.worldName
  verbs : SameTable (namesEnv asserts) s.world.verbMap s'.world.verbMap
  ids : ∀ uniqId, roomGetId asserts s'.world uniqId = roomGetId asserts s.world uniqId
  users : SameUserdb asserts s.objects s'.objects s.users s'.users

section Same

variable {m : WorldModule U R} {cb : UserCallbacks V} {asserts : Bool} {junk : List UInt8} {s s' : ServerData U R V}

/-- **A server that is stopped and started is the same server if and only if what it has is portable.** -/
theorem restart_same_iff (hk : Kept asserts m cb s) (hjunk : junk.length = 4) (old : List UInt8) :
    (∃ s', restart m cb asserts junk s old = .ok s' ∧ SameServer asserts s s') ↔
      Portable asserts s.objects s.world ∧ PortableUserdb asserts s.objects s.users := by
  obtain ⟨htakes, hspec⟩ := rebuildWorld_spec hk.world.toRestorableWorld ObjStore.init
  -- what was made of the world is the same when the users have been loaded
  have hrooms : ∀ {h : ObjStore U} {w : WorldData R}, RebuiltWorld asserts s.objects s.world w h →
      ∀ objs, List.Forall₂ (SameRoom asserts s.objects (h.allocAll objs)) s.world.world w.world ↔
        ∀ room ∈ s.world.world, ∀ o ∈ savedObjects s.objects room.objects, o.name ∉ o.aliasList :=
    fun hr objs => forall₂_iff_of (hr.world.imp fun _ _ hroom => hroom.allocAll objs) fun room hroom room' hr' =>
      hr'.sameRoom_iff (hk.world.rooms room hroom) (hk.world.objects room hroom)
  constructor
  · rintro ⟨s', hs', hsame⟩
    obtain ⟨⟨hwalk, hwalk'⟩, h, hp, hq⟩ := (hk.restart_eq_ok_iff hjunk).mp hs'
    obtain ⟨w, heq, hr⟩ := hspec _ _ hp
    obtain rfl := Option.some.inj heq
    obtain ⟨htakes', hspec'⟩ := rebuildUserdb_spec (h := s.objects) hk.order h
    obtain ⟨husers, hnames⟩ := htakes'.mp (Option.isSome_iff_exists.mpr ⟨_, hq⟩)
    obtain ⟨hstore, hr'⟩ := hspec' _ _ hq
    refine ⟨⟨hwalk, htakes.mp (Option.isSome_iff_exists.mpr ⟨_, hp⟩), ?_⟩,
      ⟨hwalk', hnames, husers, (hr'.sameUserdb_iff hk.order hk.users).mp hsame.users⟩⟩
    have hsame := hsame.rooms
    rw [hstore] at hsame
    exact (hrooms hr _).mp hsame
  · rintro ⟨hworld, husers⟩
    obtain ⟨⟨r, h⟩, hp⟩ := Option.isSome_iff_exists.mp (htakes.mpr hworld.takes)
    obtain ⟨w, rfl, hr⟩ := hspec r h hp
    obtain ⟨htakes', hspec'⟩ := rebuildUserdb_spec (h := s.objects) hk.order h
    obtain ⟨⟨map, h'⟩, hq⟩ := Option.isSome_iff_exists.mp (htakes'.mpr ⟨husers.users, husers.takes⟩)
    obtain ⟨rfl, hr'⟩ := hspec' map h' hq
    refine ⟨⟨_, w, map⟩, (hk.restart_eq_ok_iff hjunk).mpr ⟨⟨hworld.walkable, husers.walkable⟩, h, hp, hq⟩, ?_⟩
    exact
      { rooms := (hrooms hr _).mpr hworld.names
        worldName := hr.worldName
        verbs := hr.verbMap.sameTable hk.world.verbs
        ids := hr.roomGetId_eq hk.world.toRestorableWorld
        users := (hr'.sameUserdb_iff hk.order hk.users).mpr husers.names }

end Same

/-! ## The counter -/

/-- The counter is ahead of the ids of all objects, which are unique. -/
structure Ledger (h : ObjStore U) : Prop where
  unique : UniqueIds h
  below : ∀ addr o, h.objects addr = some o → o.id < h.idcounter
  fresh : ∀ addr, h.fresh ≤ addr → h.objects addr = none

section Ledger

variable {h : ObjStore U}

theorem toNat_add_of_lt {a : UInt64} {n : ℕ} (hlt : a.toNat + n < 2 ^ 64) :
    (a + UInt64.ofNat n).toNat = a.toNat + n := by
  rw [UInt64.toNat_add, UInt64.toNat_ofNat', Nat.mod_eq_of_lt (by omega : n < 2 ^ 64), Nat.mod_eq_of_lt hlt]

/-- Objects that lie one after another, with ids below the counter. -/
theorem Lists.ledger {objs : List (StoredObject U)} (hl : Lists h objs) (hunique : UniqueIds h)
    (hbelow : ∀ o ∈ objs, o.id < h.idcounter) : Ledger h := by
  refine ⟨hunique, fun addr o ho => ?_, fun addr haddr => ?_⟩
  · rw [hl.objects] at ho
    obtain ⟨o', ho', rfl⟩ := Option.map_eq_some_iff.mp ho
    exact hbelow o' (List.mem_of_getElem? ho')
  · rw [hl.objects, List.getElem?_eq_none (hl.fresh ▸ haddr)]
    rfl

/-- An object is made, with an id from the counter. -/
theorem Ledger.alloc (hl : Ledger h) (hlt : h.idcounter.toNat + 1 < 2 ^ 64) {o : StoredObject U}
    (hid : o.id = h.idcounter) : Ledger (h.alloc o) := by
  have hcounter : h.idcounter < h.idcounter + 1 := by
    rw [UInt64.lt_iff_toNat_lt]
    exact lt_of_lt_of_eq (Nat.lt_succ_self _) (toNat_add_of_lt hlt).symm
  have hobject : ∀ {addr : ℕ} {o' : StoredObject U}, (h.alloc o).objects addr = some o' →
      addr = h.fresh ∧ o' = o ∨ addr ≠ h.fresh ∧ h.objects addr = some o' := by
    intro addr o' ho'
    have ho' : Function.update h.objects h.fresh (some o) addr = some o' := ho'
    rw [Function.update_apply] at ho'
    split at ho'
    · rename_i heq
      exact .inl ⟨heq, (Option.some.inj ho').symm⟩
    · rename_i hne
      exact .inr ⟨hne, ho'⟩
  refine ⟨fun a b oa ob ha hb heq => ?_, fun a oa ha => ?_, fun a ha => ?_⟩
  · rcases hobject ha with ⟨rfl, rfl⟩ | ⟨-, hold⟩ <;> rcases hobject hb with ⟨rfl, rfl⟩ | ⟨-, hold'⟩
    · rfl
    · exact absurd (hid ▸ heq ▸ hl.below b ob hold') (UInt64.lt_irrefl _)
    · exact absurd (hid ▸ heq ▸ hl.below a oa hold) (UInt64.lt_irrefl _)
    · exact hl.unique a b oa ob hold hold' heq
  · rcases hobject ha with ⟨-, rfl⟩ | ⟨-, hold⟩
    · rw [hid]
      exact hcounter
    · exact UInt64.lt_trans (hl.below a oa hold) hcounter
  · have ha : h.fresh + 1 ≤ a := ha
    exact (Function.update_of_ne (by omega) _ _).trans (hl.fresh a (by omega))

/-- An object is written to, but not its id. -/
theorem Ledger.setObject (hl : Ledger h) {addr : ℕ} {o o' : StoredObject U} (ho : h.objects addr = some o)
    (hid : o'.id = o.id) : Ledger (h.setObject addr o') := by
  have hobject : ∀ {a : ℕ} {oa : StoredObject U}, (h.setObject addr o').objects a = some oa →
      ∃ old, h.objects a = some old ∧ oa.id = old.id := by
    intro a oa ha
    have ha : Function.update h.objects addr (some o') a = some oa := ha
    rw [Function.update_apply] at ha
    split at ha
    · rename_i heq
      obtain rfl := Option.some.inj ha
      exact ⟨o, heq ▸ ho, hid⟩
    · exact ⟨oa, ha, rfl⟩
  refine ⟨fun a b oa ob ha hb heq => ?_, fun a oa ha => ?_, fun a ha => ?_⟩
  · obtain ⟨olda, ha, hida⟩ := hobject ha
    obtain ⟨oldb, hb, hidb⟩ := hobject hb
    exact hl.unique a b olda oldb ha hb (hida.symm.trans (heq.trans hidb))
  · obtain ⟨olda, ha, hida⟩ := hobject ha
    rw [hida]
    exact hl.below a olda ha
  · have hne : a ≠ addr := by
      rintro rfl
      exact absurd ((hl.fresh a ha).symm.trans ho) (by simp)
    exact (Function.update_of_ne hne _ _).trans (hl.fresh a ha)

theorem Ledger.free (hl : Ledger h) (addr : ℕ) :
    Ledger ({ h with objects := Function.update h.objects addr none } : ObjStore U) := by
  have hobject : ∀ {a : ℕ} {o : StoredObject U}, Function.update h.objects addr none a = some o →
      h.objects a = some o := by
    intro a o ha
    rw [Function.update_apply] at ha
    split at ha
    · exact absurd ha (by simp)
    · exact ha
  refine ⟨fun a b oa ob ha hb heq => hl.unique a b oa ob (hobject ha) (hobject hb) heq,
    fun a oa ha => hl.below a oa (hobject ha), fun a ha => ?_⟩
  show Function.update h.objects addr none a = none
  rw [Function.update_apply, hl.fresh a ha, ite_self]

end Ledger

/-! ## The life of a server -/

section Life

variable {m : WorldModule U R} {cb : UserCallbacks V} {asserts : Bool} {junk : List UInt8} {s s' : ServerData U R V}

/-- The counter does not wrap around, and a server that is stopped has what it saves in order. -/
def Admissible (m : WorldModule U R) (cb : UserCallbacks V) (asserts : Bool) (s : ServerData U R V) :
    LifeEvent U R V → Prop
  | .objNew _ | .objCopy _ _ => s.objects.idcounter.toNat + 1 < 2 ^ 64
  | .restart _ => Kept asserts m cb s ∧ s.objects.idcounter.toNat + (userObjects s).length < 2 ^ 64
  | .write _ _ | .free _ | .arrange _ _ => True

/-- If it is a restart, then every object is written once. -/
def WritesOnce (s : ServerData U R V) : LifeEvent U R V → Prop
  | .restart _ => (heldAddrs s).Nodup
  | .objNew _ | .objCopy _ _ | .write _ _ | .free _ | .arrange _ _ => True

theorem objNew_ok {classes : CString → Option (ObjHooks U)} {className : CString} {h : ObjStore U}
    {r : (ℕ × ObjHooks U) × ObjStore U} (hr : objNew classes className h = .ok r) :
    r.1.1 = h.fresh ∧ r.2 = h.alloc (newObject className h.idcounter) := by
  rw [objNew] at hr
  split at hr
  · obtain rfl := Except.ok.inj hr
    exact ⟨rfl, rfl⟩
  · exact absurd hr (by simp)

/-- **What a restart does to the counter.** -/
theorem Ledger.restart (hl : Ledger s.objects) (hk : Kept asserts m cb s) (hjunk : junk.length = 4)
    (hlt : s.objects.idcounter.toNat + (userObjects s).length < 2 ^ 64) {old : List UInt8}
    (hs' : Storage.restart m cb asserts junk s old = .ok s') (hnodup : (heldAddrs s).Nodup) :
    Ledger s'.objects := by
  obtain ⟨hlists, hcounter⟩ := hk.restart_lists hjunk hs'
  refine hlists.ledger ((hk.uniqueIds_iff hjunk hl.unique hs').mpr hnodup) fun o ho => ?_
  rw [← heldAddrs_objects] at ho
  obtain ⟨addr, -, hobj⟩ := List.mem_filterMap.mp ho
  have hbelow := UInt64.lt_iff_toNat_lt.mp (hl.below addr o hobj)
  rw [hcounter, UInt64.lt_iff_toNat_lt, toNat_add_of_lt hlt]
  exact Nat.lt_add_right _ hbelow

/-- **What an event does to the counter.** -/
theorem Ledger.step (hl : Ledger s.objects) (hjunk : junk.length = 4) {e : LifeEvent U R V}
    (hadmissible : Admissible m cb asserts s e) (honce : WritesOnce s e)
    (hs' : lifeStep m cb asserts junk s e = .ok s') : Ledger s'.objects := by
  cases e with
  | objNew className =>
    obtain ⟨r, hr, hs'⟩ := bind_eq_ok hs'
    obtain rfl := Except.ok.inj hs'
    have hstore := (objNew_ok hr).2
    show Ledger r.2
    rw [hstore]
    exact hl.alloc hadmissible rfl
  | objCopy dupdata addr =>
    obtain ⟨r, hr, hs'⟩ := bind_eq_ok hs'
    obtain rfl := Except.ok.inj hs'
    rw [objCopy] at hr
    split at hr
    · obtain ⟨r', hr', rfl⟩ := map_eq_ok hr
      obtain ⟨haddr, hstore⟩ := objNew_ok hr'
      show Ledger (r'.2.setObject r'.1.1 _)
      rw [haddr, hstore]
      exact (hl.alloc hadmissible rfl).setObject (Function.update_self ..) rfl
    · exact absurd hr (by simp)
  | write addr f =>
    rw [lifeStep] at hs'
    split at hs'
    · rename_i o ho
      obtain rfl := Except.ok.inj hs'
      exact hl.setObject ho rfl
    · exact absurd hs' (by simp)
  | free addr =>
    obtain rfl := Except.ok.inj hs'
    exact hl.free addr
  | arrange world users =>
    obtain rfl := Except.ok.inj hs'
    exact hl
  | restart old => exact hl.restart hadmissible.1 hjunk hadmissible.2 hs' honce

/-- **Ids are unique over the life of a server if and only if every restart writes every object once.** -/
theorem ids_unique_iff (hjunk : junk.length = 4) (hl : Ledger s.objects) {events : List (LifeEvent U R V)}
    (hadmissible : Runs.EachStep (lifeStep m cb asserts junk) (Admissible m cb asserts) s events) :
    Runs.Always (lifeStep m cb asserts junk) (fun s => UniqueIds s.objects) s events ↔
      Runs.EachDone (lifeStep m cb asserts junk) WritesOnce s events := by
  refine Runs.always_iff_eachDone_given (I := fun s => Ledger s.objects) (fun s hl => hl.unique)
    (fun s e s' hl hB honce hs' => hl.step hjunk hB honce hs')
    (fun s e s' hl hB honce hs' hunique => ?_) hl hadmissible
  cases e with
  | restart old => exact honce ((hB.1.uniqueIds_iff hjunk hl.unique hs').mp hunique)
  | _ => exact honce trivial

/-! ### A colliery with a miner -/

/-- The colliery, with the miner. -/
def collieryServer : ServerData Bool Bool Bool := ⟨coalStore, colliery, colliers⟩

theorem kept_collieryServer : Kept true collieryModule litHooks collieryServer :=
  ⟨keptWorld_colliery, inOrder_colliers, keptUserdb_colliers⟩

/-- The lump of coal of the miner. -/
theorem userObjects_collieryServer : userObjects collieryServer = [(lump 1).restored 2] := allHeld_colliers

/-- Each lump is in one place. -/
theorem nodup_heldAddrs_collieryServer : (heldAddrs collieryServer).Nodup := by
  decide +kernel

theorem ledger_coalStore : Ledger coalStore := by
  have hlists : Lists coalStore [lump 0, lump 1] := lists_init.allocAll _
  refine hlists.ledger (hlists.uniqueIds_iff.mpr (by decide)) ?_
  rw [List.forall_mem_cons, List.forall_mem_singleton]
  exact ⟨by decide, by decide⟩

/-- The colliery is started again, and then another lump of coal is made. -/
theorem colliery_ids :
    Runs.Always (lifeStep collieryModule litHooks true [1, 2, 3, 4])
      (fun s => UniqueIds s.objects) collieryServer [.restart [], .objNew coalName] := by
  have hk := kept_collieryServer
  have hadmissible : Runs.EachStep (lifeStep collieryModule litHooks true [1, 2, 3, 4])
      (Admissible collieryModule litHooks true) collieryServer [.restart [], .objNew coalName] := by
    refine ⟨⟨hk, by rw [userObjects_collieryServer]; decide⟩, fun s' hs' => ⟨?_, fun _ _ => trivial⟩⟩
    have hcounter := (hk.restart_lists rfl hs').2
    rw [userObjects_collieryServer] at hcounter
    show s'.objects.idcounter.toNat + 1 < 2 ^ 64
    rw [hcounter]
    decide
  exact (ids_unique_iff rfl ledger_coalStore hadmissible).mpr
    ⟨fun _ _ => nodup_heldAddrs_collieryServer, fun _ _ => ⟨fun _ _ => trivial, fun _ _ => trivial⟩⟩

/-- The colliery is the same colliery when it is started again, and the miner is there. -/
theorem colliery_same :
    ∃ s', restart collieryModule litHooks true [1, 2, 3, 4] collieryServer [] = .ok s' ∧
      SameServer true collieryServer s' :=
  (restart_same_iff kept_collieryServer rfl []).mpr ⟨portable_colliery, portable_colliers⟩

end Life

end Storage

end NetCosm
