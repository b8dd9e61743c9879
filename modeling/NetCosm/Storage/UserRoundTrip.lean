import NetCosm.Storage.RoundTrip
import NetCosm.Storage.UserFile

/-!
# User databases that are written and loaded

`userdb_write` and `userdb_init`, one after the other.  `rebuildUsers` is what reading the file makes of the
users, without the bytes, and `UserFileRoundTrips` says that it is the same database.

## Where the database comes from

The table of the users is that of `userdb.c`, with the bytes of every `struct` and with the inventories that
its pointers lead to: `StoredFrom` connects it with the `Userdb` in which `userdb_add`, `userdb_remove` and
the functions that write to inventories take their steps.  That the records are found under the names they
carry, that each has an inventory, and that the table counts them, holds in every state of every run
(`inOrder_of_run`).

## What can go wrong

The same as with a world (`NetCosm.Storage.RoundTrip`): an alias that is the name of its object, and lists
and tables that are too long for an `unsigned`.
-/

namespace NetCosm

namespace Storage

open Reader

variable {U V : Type} {classes : CString → Option (ObjHooks U)} {cb : UserCallbacks V} {asserts : Bool}
  {h s : ObjStore U} {map map' : UserTable V}

/-! ## Reading users -/

/-- A user that can be read back. -/
structure RestorableUser (classes : CString → Option (ObjHooks U)) (cb : UserCallbacks V) (h : ObjStore U)
    (user : StoredUser V) : Prop where
  objects : ∀ o ∈ heldObjects h user, Restorable classes o
  objects_lt : (heldObjects h user).length < 2 ^ 64
  restores : cb.Restores user.userdata

theorem StorableUser.restorable {user : StoredUser V} (hu : StorableUser classes cb h user) :
    RestorableUser classes cb h user where
  objects o ho := (hu.objects o ho).restorable
  objects_lt := hu.length_lt
  restores := hu.restores

/-- The name in the `struct userdata_t`. -/
def userName (user : StoredUser V) : CString := (decodeUserData user.image).name

/-- A user is put into the table, if there is none of that name. -/
def insertUser (asserts : Bool) (map : UserTable V) (key : CString) (user : StoredUser V) :
    StateT (ObjStore U) Option (UserTable V) := fun s =>
  (hashInsert (namesEnv asserts) map key user).toOption.map fun r => (r.2, s)

/-- A user is made, with the objects of the inventory. -/
def rebuildUser (asserts : Bool) (h : ObjStore U) (map : UserTable V) (user : StoredUser V) :
    StateT (ObjStore U) Option (UserTable V) := do
  let objects ← rebuildObjects asserts (min 8 (heldObjects h user).length) (heldObjects h user)
  insertUser asserts map (userName user) { user with objects := some objects }

/-- What is behind the `struct` is read. -/
theorem replays_readUserTail {user : StoredUser V} (hu : RestorableUser classes cb h user) :
    Replays (readUserTail classes cb asserts user.image user.length_image) (userTail classes cb h user)
      (rebuildObjects asserts (min 8 (heldObjects h user).length) (heldObjects h user) >>= fun objects =>
        pure { user with objects := some objects }) := by
  have hcount : (UInt64.ofNat (heldObjects h user).length).toNat = (heldObjects h user).length := by
    rw [UInt64.toNat_ofNat']
    exact Nat.mod_eq_of_lt hu.objects_lt
  have hhook : Replays (ofFile cb.deserialize : FileReader (ObjStore U) (Option V))
      (cb.serialize user.userdata) (pure user.userdata) := by
    intro rest s
    show ((cb.deserialize (cb.serialize user.userdata ++ rest)).map _).toOption = _
    rw [hu.restores rest]
    rfl
  rw [readUserTail, userTail]
  simp only [List.flatten_cons, List.flatten_nil, List.append_nil]
  refine (decodes_readSize _).replays.andThen ?_
  rw [hcount]
  refine (replays_objects hu.objects _).bind fun objects => ?_
  rw [← List.append_nil (cb.serialize user.userdata)]
  exact hhook.andThen (replays_pure _)

/-- **A user is read.** -/
theorem replays_readUser {user : StoredUser V} (hu : RestorableUser classes cb h user) (map : UserTable V) :
    Replays (readUser classes cb asserts user.image user.length_image map) (userTail classes cb h user)
      (rebuildUser asserts h map user) := by
  have htail : Replays (readUserTail classes cb asserts user.image user.length_image) (userTail classes cb h user)
      (rebuildObjects asserts (min 8 (heldObjects h user).length) (heldObjects h user) >>= fun objects =>
        pure { user with objects := some objects }) := replays_readUserTail hu
  have hread := htail.finish (f := fun user' => do
      let r ← call (hashInsert (namesEnv asserts) map (userName user) user')
      pure r.2) (q := insertUser asserts map (userName user)) fun user' rest s => by
    rw [on_bind, insertUser]
    cases hashInsert (namesEnv asserts) map (userName user) user' <;> rfl
  rw [bind_assoc] at hread
  exact hread

/-- **The users are read**, one after another. -/
theorem replays_readUsers {users : List (StoredUser V)} (hu : ∀ user ∈ users, RestorableUser classes cb h user)
    (map : UserTable V) :
    Replays (readUsers classes cb asserts users.length map) (users.flatMap (userBytes classes cb h))
      (users.foldlM (rebuildUser asserts h) map) := by
  induction users generalizing map with
  | nil => exact replays_pure map
  | cons user users ih =>
    have hread : Replays (readUser classes cb asserts user.image user.length_image map) (userTail classes cb h user)
        (rebuildUser asserts h map user) := replays_readUser (hu user (List.mem_cons_self ..)) map
    have hbind := hread.bind fun map' => ih (fun user' huser' => hu user' (List.mem_cons_of_mem user huser')) map'
    intro rest s
    rw [List.flatMap_cons, userBytes, List.append_assoc, List.append_assoc, List.length_cons, on_readUsers_succ,
      ← List.append_assoc]
    exact hbind rest s

/-- The table of the users, as `userdb_write` finds it: the records are found under the names they carry, they
are counted, and each has an inventory. -/
structure InOrder (asserts : Bool) (map : UserTable V) : Prop where
  placed : map.WellPlaced (namesEnv asserts)
  counted : map.nEntries = UInt64.ofNat map.stored
  name_eq : ∀ n ∈ map.nodes, userName n.data = n.key
  inventory : ∀ n ∈ map.nodes, n.data.objects.isSome

/-- **A file of users is read.** -/
theorem replays_readUserdb (hmap : InOrder asserts map) (hlt : map.stored < 2 ^ 64)
    (hu : ∀ user ∈ usersOf map, RestorableUser classes cb h user) :
    Replays (readUserdb classes cb asserts) (userdbHead map ++ (usersOf map).flatMap (userBytes classes cb h))
      ((usersOf map).foldlM (rebuildUser asserts h) (hashInit 256)) := by
  have hsize : (hashSize map).toNat = (usersOf map).length := by
    rw [hashSize, hmap.counted, UInt64.toNat_ofNat', usersOf, List.length_map]
    exact Nat.mod_eq_of_lt hlt
  rw [readUserdb, userdbHead, List.append_assoc]
  refine (decodes_readUint32 _).replays.andThen ?_
  rw [if_neg (not_not.mpr rfl)]
  refine (decodes_readSize _).replays.andThen ?_
  rw [hsize]
  exact replays_readUsers hu (hashInit 256)

/-! ## What is made of the users -/

/-- `user'` is what is made of `user`: its objects lie one after another in `s`. -/
structure RebuiltUser (asserts : Bool) (h s : ObjStore U) (user user' : StoredUser V) : Prop where
  same : user' = { user with objects := user'.objects }
  objects : ∃ objects addr, user'.objects = some objects ∧ objects.Regular (roomEnv asserts) ∧
    Holds s addr (heldObjects h user) ∧
    (objects.pairs.map MultimapPair.pair).Perm (keysFrom addr (heldObjects h user))

/-- The pairs in the inventory of a user. -/
def userPairs (user : StoredUser V) : List (MultimapPair CString ℕ) :=
  match user.objects with
  | some objects => objects.pairs
  | none => []

theorem RebuiltUser.allocAll {user user' : StoredUser V} (hr : RebuiltUser asserts h s user user')
    (objs : List (StoredObject U)) : RebuiltUser asserts h (s.allocAll objs) user user' :=
  let ⟨objects, addr, hsome, hregular, hholds, hpairs⟩ := hr.objects
  { hr with objects := ⟨objects, addr, hsome, hregular, hholds.allocAll objs, hpairs⟩ }

theorem RebuiltUser.name_eq {user user' : StoredUser V} (hr : RebuiltUser asserts h s user user') :
    userName user' = userName user := by
  rw [hr.same]
  rfl

/-- A table for the inventory of a user takes its objects. -/
def TakesUser (asserts : Bool) (h : ObjStore U) (user : StoredUser V) : Prop :=
  TakesObjects asserts (min 8 (heldObjects h user).length) (heldObjects h user)

theorem rebuildUser_eq_some_iff {user : StoredUser V} {x : UserTable V × ObjStore U} :
    rebuildUser asserts h map user s = some x ↔ ∃ objects s' r,
      rebuildObjects asserts (min 8 (heldObjects h user).length) (heldObjects h user) s = some (objects, s') ∧
      hashInsert (namesEnv asserts) map (userName user) { user with objects := some objects } = .ok r ∧
      (r.2, s') = x := by
  rw [rebuildUser, stateT_bind_eq_some_iff]
  constructor
  · rintro ⟨objects, s', hobjects, hins⟩
    obtain ⟨r, hr, hx⟩ := Option.map_eq_some_iff.mp hins
    refine ⟨objects, s', r, hobjects, ?_, hx⟩
    cases hres : hashInsert (namesEnv asserts) map (userName user) { user with objects := some objects } with
    | error e =>
      rw [hres] at hr
      cases hr
    | ok r' =>
      rw [hres] at hr
      exact congrArg Except.ok (Option.some.inj hr)
  · rintro ⟨objects, s', r, hobjects, hins, hx⟩
    refine ⟨objects, s', hobjects, ?_⟩
    rw [insertUser, hins]
    exact congrArg some hx

/-- The names alone. -/
def nameTable (map : UserTable V) : HashMap CString Unit := map.mapData fun _ => ()

/-- **When a user can be made, and what it is.** -/
theorem rebuildUser_spec {user : StoredUser V} (hmap : map.WellPlaced (namesEnv asserts))
    (hnew : ∀ n ∈ map.nodes, userName user ≠ n.key) (s : ObjStore U) :
    ((rebuildUser asserts h map user s).isSome ↔ TakesUser asserts h user ∧
      ∃ t, (hashInsert (namesEnv asserts) (nameTable map) (userName user) ()).map Prod.snd = .ok t) ∧
      ∀ map' s', rebuildUser asserts h map user s = some (map', s') → map'.WellPlaced (namesEnv asserts) ∧
        (hashInsert (namesEnv asserts) (nameTable map) (userName user) ()).map Prod.snd = .ok (nameTable map') ∧
        s' = s.allocAll (heldObjects h user) ∧ ∃ user',
          map'.nodes.Perm (⟨userName user', user'⟩ :: map.nodes) ∧ RebuiltUser asserts h s' user user' ∧
            ((userPairs user').map MultimapPair.pair).Perm (keysFrom s.fresh (heldObjects h user)) := by
  obtain ⟨htakes, hspec⟩ : ((rebuildObjects asserts (min 8 (heldObjects h user).length)
      (heldObjects h user) s).isSome ↔ _) ∧ _ := rebuildObjects_spec _ (heldObjects h user) s
  have hkeys : ∀ user' : StoredUser V,
      (hashInsert (namesEnv asserts) (nameTable map) (userName user) ()).map Prod.snd =
        (hashInsert (namesEnv asserts) map (userName user) user').map fun r => nameTable r.2 := by
    intro user'
    rw [nameTable, hashInsert_mapData (namesEnv asserts) (fun _ => ()) map (userName user) user']
    cases hashInsert (namesEnv asserts) map (userName user) user' <;> rfl
  have hnone : hashLookup (namesEnv asserts) map (userName user) = none := by
    cases hl : hashLookup (namesEnv asserts) map (userName user) with
    | none => rfl
    | some d =>
      obtain ⟨n, hn, hs, -⟩ := (hashLookup_eq_some_iff (compatible_namesEnv asserts).equiv hmap).mp hl
      exact absurd ((namesEnv_same_iff asserts).mp hs) (hnew n (Buckets.mem_items_iff.mpr ⟨_, hn⟩))
  refine ⟨⟨fun hsome => ?_, fun ⟨htake, t, ht⟩ => ?_⟩, fun map' s' hr => ?_⟩
  · obtain ⟨x, hx⟩ := Option.isSome_iff_exists.mp hsome
    obtain ⟨objects, s', r, hobjects, hins, -⟩ := rebuildUser_eq_some_iff.mp hx
    refine ⟨htakes.mp (Option.isSome_iff_exists.mpr ⟨_, hobjects⟩), nameTable r.2, ?_⟩
    rw [hkeys { user with objects := some objects }, hins]
    rfl
  · obtain ⟨⟨objects, s'⟩, hobjects⟩ := Option.isSome_iff_exists.mp (htakes.mpr htake)
    obtain ⟨r, hins, -⟩ := map_eq_ok ((hkeys { user with objects := some objects }).symm.trans ht)
    exact Option.isSome_iff_exists.mpr ⟨_, rebuildUser_eq_some_iff.mpr ⟨objects, s', r, hobjects, hins, rfl⟩⟩
  · obtain ⟨objects, s₁, r, hobjects, hins, hx⟩ := rebuildUser_eq_some_iff.mp hr
    obtain ⟨rfl, rfl⟩ := Prod.mk.inj hx
    obtain ⟨rfl, hregular, -, hpairs⟩ := hspec objects s₁ hobjects
    obtain ⟨-, hplaced, hperm, -⟩ := wellPlaced_insertNew (compatible_namesEnv asserts).equiv hmap hnone
      (hins : hashInsert (namesEnv asserts) map (userName user) _ = .ok (r.1, r.2))
    have hrebuilt : RebuiltUser asserts h (s.allocAll (heldObjects h user)) user
        { user with objects := some objects } :=
      ⟨rfl, objects, s.fresh, rfl, hregular, holds_allocAll s _, hpairs⟩
    refine ⟨hplaced, ?_, rfl, { user with objects := some objects }, hperm, hrebuilt, hpairs⟩
    rw [hkeys { user with objects := some objects }, hins]
    rfl

/-- **When the users can be made, and what they are.** -/
theorem foldlM_rebuildUser {users : List (StoredUser V)} (hmap : map.WellPlaced (namesEnv asserts))
    (hnew : ∀ user ∈ users, ∀ n ∈ map.nodes, userName user ≠ n.key) (hdistinct : (users.map userName).Nodup)
    (s : ObjStore U) :
    ((users.foldlM (rebuildUser asserts h) map s).isSome ↔
      (∀ user ∈ users, TakesUser asserts h user) ∧
        ∃ t, insertAll (namesEnv asserts) (nameTable map) (users.map fun user => (userName user, ())) = .ok t) ∧
      ∀ map' s', users.foldlM (rebuildUser asserts h) map s = some (map', s') →
        map'.WellPlaced (namesEnv asserts) ∧ s' = s.allocAll (users.flatMap (heldObjects h)) ∧
          ∃ new, map'.nodes.Perm (new.map (fun user => ⟨userName user, user⟩) ++ map.nodes) ∧
            List.Forall₂ (RebuiltUser asserts h s') users new ∧
              ((new.flatMap userPairs).map MultimapPair.pair).Perm
                (keysFrom s.fresh (users.flatMap (heldObjects h))) := by
  induction users generalizing map s with
  | nil =>
    refine ⟨iff_of_true rfl ⟨fun _ hu => absurd hu List.not_mem_nil, _, rfl⟩, fun map' s' hr => ?_⟩
    obtain ⟨rfl, rfl⟩ := Prod.mk.inj (Option.some.inj hr)
    exact ⟨hmap, rfl, [], List.Perm.refl _, List.Forall₂.nil, List.Perm.refl _⟩
  | cons user users ih =>
    rw [List.map_cons, List.nodup_cons] at hdistinct
    obtain ⟨hone, hspec⟩ : ((rebuildUser asserts h map user s).isSome ↔ _) ∧ _ :=
      rebuildUser_spec hmap (hnew user (List.mem_cons_self ..)) s
    -- the names that are left are not in the table either
    have hrest : ∀ map₁ s₁, rebuildUser asserts h map user s = some (map₁, s₁) →
        ∀ u ∈ users, ∀ n ∈ map₁.nodes, userName u ≠ n.key := by
      intro map₁ s₁ hr u hu n hn
      obtain ⟨-, -, -, user', hperm, hrebuilt, -⟩ := hspec map₁ s₁ hr
      rcases List.mem_cons.mp (hperm.mem_iff.mp hn) with rfl | hn
      · intro heq
        have hname : userName u = userName user := heq.trans hrebuilt.name_eq
        exact hdistinct.1 (hname ▸ List.mem_map_of_mem hu)
      · exact hnew u (List.mem_cons_of_mem user hu) n hn
    rw [List.foldlM_cons, List.map_cons, insertAll, List.foldlM_cons, List.forall_mem_cons]
    refine ⟨⟨fun hsome => ?_, fun hright => ?_⟩, fun map' s' hr => ?_⟩
    · obtain ⟨x, hx⟩ := Option.isSome_iff_exists.mp hsome
      obtain ⟨map₁, s₁, h₁, h₂⟩ := stateT_bind_eq_some_iff.mp hx
      obtain ⟨hplaced, hins, -⟩ := hspec map₁ s₁ h₁
      obtain ⟨htakes, t, ht⟩ := (ih hplaced (hrest map₁ s₁ h₁) hdistinct.2 s₁).1.mp
        (Option.isSome_iff_exists.mpr ⟨_, h₂⟩)
      refine ⟨⟨(hone.mp (Option.isSome_iff_exists.mpr ⟨_, h₁⟩)).1, htakes⟩, t, ?_⟩
      rw [hins]
      exact ht
    · obtain ⟨⟨htake, htakes⟩, t, ht⟩ := hright
      obtain ⟨t₁, ht₁, ht⟩ := bind_eq_ok ht
      obtain ⟨⟨map₁, s₁⟩, h₁⟩ := Option.isSome_iff_exists.mp (hone.mpr ⟨htake, t₁, ht₁⟩)
      obtain ⟨hplaced, hins, -⟩ := hspec map₁ s₁ h₁
      obtain rfl := Except.ok.inj (hins.symm.trans ht₁)
      obtain ⟨x, hx⟩ := Option.isSome_iff_exists.mp
        ((ih hplaced (hrest map₁ s₁ h₁) hdistinct.2 s₁).1.mpr ⟨htakes, t, ht⟩)
      exact Option.isSome_iff_exists.mpr ⟨x, stateT_bind_eq_some_iff.mpr ⟨map₁, s₁, h₁, hx⟩⟩
    · obtain ⟨map₁, s₁, h₁, h₂⟩ := stateT_bind_eq_some_iff.mp hr
      obtain ⟨hplaced, -, rfl, user', hperm, huser, hpairs⟩ := hspec map₁ s₁ h₁
      obtain ⟨hplaced', rfl, new, hperm', hnew', hpairs'⟩ := (ih hplaced (hrest map₁ _ h₁) hdistinct.2 _).2 map' s' h₂
      refine ⟨hplaced', (allocAll_append ..).symm, user' :: new, ?_,
        List.Forall₂.cons (huser.allocAll _) hnew', ?_⟩
      · exact hperm'.trans ((hperm.append_left _).trans List.perm_middle)
      · rw [fresh_allocAll] at hpairs'
        rw [List.flatMap_cons, List.map_append, List.flatMap_cons, keysFrom_append]
        exact hpairs.append hpairs'

/-- The objects of all users that are written. -/
def allHeld (h : ObjStore U) (map : UserTable V) : List (StoredObject U) := (usersOf map).flatMap (heldObjects h)

/-- The pairs in all inventories. -/
def inventoryPairs (map : UserTable V) : List (MultimapPair CString ℕ) := (usersOf map).flatMap userPairs

/-- `map'` is what is made of the table `map`; all its objects lie one after another, and they are the last. -/
structure RebuiltUserdb (asserts : Bool) (h s : ObjStore U) (map map' : UserTable V) : Prop where
  placed : map'.WellPlaced (namesEnv asserts)
  nodes : ∃ new, map'.nodes.Perm (new.map fun user => ⟨userName user, user⟩) ∧
    List.Forall₂ (RebuiltUser asserts h s) (usersOf map) new
  pairs : ∃ addr, s.fresh = addr + (allHeld h map).length ∧ Holds s addr (allHeld h map) ∧
    ((inventoryPairs map').map MultimapPair.pair).Perm (keysFrom addr (allHeld h map))

/-- The names of the users are all different. -/
theorem InOrder.nodup (hmap : InOrder asserts map) : ((usersOf map).map userName).Nodup := by
  rw [usersOf, List.map_map, List.Nodup, List.pairwise_map]
  refine (hmap.placed.distinct_nodes (compatible_namesEnv asserts)).imp_of_mem ?_
  intro n n' hn hn' hne heq
  refine hne ((namesEnv_same_iff asserts).mpr ?_)
  rw [← hmap.name_eq n hn, ← hmap.name_eq n' hn']
  exact heq

/-- **When a database can be made, and what it is.** -/
theorem rebuildUserdb_spec (hmap : InOrder asserts map) (s : ObjStore U) :
    (((usersOf map).foldlM (rebuildUser asserts h) (hashInit 256) s).isSome ↔
      (∀ user ∈ usersOf map, TakesUser asserts h user) ∧
        Takes (namesEnv asserts) 256 ((usersOf map).map userName)) ∧
      ∀ map' s', (usersOf map).foldlM (rebuildUser asserts h) (hashInit 256) s = some (map', s') →
        s' = s.allocAll (allHeld h map) ∧ RebuiltUserdb asserts h s' map map' := by
  have hempty : (hashInit 256 : UserTable V).nodes = [] := HashMap.nodes_fresh _
  have hnames : nameTable (hashInit 256 : UserTable V) = hashInit 256 := mapData_fresh _ _
  obtain ⟨hiff, hspec⟩ : (((usersOf map).foldlM (rebuildUser asserts h) (hashInit 256) s).isSome ↔ _) ∧ _ :=
    foldlM_rebuildUser (wellPlaced_hashInit _ 256)
      (by rw [hempty]; exact fun _ _ n hn => absurd hn List.not_mem_nil) hmap.nodup s
  rw [hnames] at hiff
  refine ⟨?_, fun map' s' hr => ?_⟩
  · rw [hiff, Takes, List.map_map]
    rfl
  · obtain ⟨hplaced, rfl, new, hperm, hall, hpairs⟩ := hspec map' s' hr
    rw [hempty, List.append_nil] at hperm
    have husers : (usersOf map').Perm new := by
      have hdata := hperm.map HashNode.data
      rwa [List.map_map, show HashNode.data ∘ (fun user : StoredUser V => ⟨userName user, user⟩) = id from rfl,
        List.map_id] at hdata
    exact ⟨rfl, hplaced, ⟨new, hperm, hall⟩, s.fresh, fresh_allocAll s _, holds_allocAll s _,
      ((husers.flatMap_right userPairs).map _).trans hpairs⟩

/-! ## The same database -/

/-- The same record, and the same objects. -/
structure SameUser (asserts : Bool) (h s : ObjStore U) (user user' : StoredUser V) : Prop where
  image : user'.image = user.image
  userdata : user'.userdata = user.userdata
  objects : ∃ objects objects', user.objects = some objects ∧ user'.objects = some objects' ∧
    SameObjects h s objects objects' ∧ objects'.Regular (roomEnv asserts)

/-- The database `map'`, with the objects `s`, is the database `map`, with the objects `h`. -/
structure SameUserdb (asserts : Bool) (h s : ObjStore U) (map map' : UserTable V) : Prop where
  names : (map'.nodes.map HashNode.key).Perm (map.nodes.map HashNode.key)
  users : ∀ key, Option.Rel (SameUser asserts h s) (hashLookup (namesEnv asserts) map key)
    (hashLookup (namesEnv asserts) map' key)

/-- **A user that was read is the same user** if and only if the objects are the same. -/
theorem RebuiltUser.sameUser_iff {user user' : StoredUser V} (hr : RebuiltUser asserts h s user user')
    {objects : ObjTable} (hobj : user.objects = some objects) (hk : KeptObjects h objects) :
    SameUser asserts h s user user' ↔ ∀ o ∈ heldObjects h user, o.name ∉ o.aliasList := by
  have hheld : heldObjects h user = savedObjects h objects := by rw [heldObjects, hobj]
  obtain ⟨objects', addr, hobj', hregular, hholds, hperm⟩ := hr.objects
  rw [hheld] at hholds hperm ⊢
  rw [← hk.sameObjects_iff hholds hperm]
  constructor
  · rintro ⟨-, -, objects₁, objects₁', h₁, h₁', hsame, -⟩
    obtain rfl := Option.some.inj (hobj.symm.trans h₁)
    obtain rfl := Option.some.inj (hobj'.symm.trans h₁')
    exact hsame
  · intro hsame
    refine ⟨?_, ?_, objects, objects', hobj, hobj', hsame, hregular⟩
    · rw [hr.same]
    · rw [hr.same]

/-- An item that corresponds to one of a list. -/
theorem exists_of_forall₂ {A B : Type} {P : A → B → Prop} {l : List A} {l' : List B} (hall : List.Forall₂ P l l')
    {a : A} (ha : a ∈ l) : ∃ b ∈ l', P a b := by
  induction hall with
  | nil => exact absurd ha List.not_mem_nil
  | cons hab _ ih =>
    rcases List.mem_cons.mp ha with rfl | ha
    · exact ⟨_, List.mem_cons_self .., hab⟩
    · obtain ⟨b, hb, hP⟩ := ih ha
      exact ⟨b, List.mem_cons_of_mem _ hb, hP⟩

/-- A node is found under its name. -/
theorem lookup_of_mem_nodes {D : Type} {t : HashMap CString D} (ht : t.WellPlaced (namesEnv asserts))
    {n : HashNode CString D} (hn : n ∈ t.nodes) : hashLookup (namesEnv asserts) t n.key = some n.data := by
  rw [hashLookup_eq_map, (hashEntry_eq_some_iff (compatible_namesEnv asserts) ht).mpr
    ⟨n, hn, (namesEnv_same_iff asserts).mpr rfl, rfl⟩]
  rfl

/-- What is found is in a node. -/
theorem mem_nodes_of_lookup {D : Type} {t : HashMap CString D} (ht : t.WellPlaced (namesEnv asserts))
    {key : CString} {d : D} (hd : hashLookup (namesEnv asserts) t key = some d) : ⟨key, d⟩ ∈ t.nodes := by
  rw [hashLookup_eq_map, Option.map_eq_some_iff] at hd
  obtain ⟨e, he, rfl⟩ := hd
  obtain ⟨n, hn, hs, rfl⟩ := (hashEntry_eq_some_iff (compatible_namesEnv asserts) ht).mp he
  rw [(namesEnv_same_iff asserts).mp hs]
  exact hn

/-- **A name leads to what was made of the user it led to.** -/
theorem RebuiltUserdb.lookup (hmap : InOrder asserts map) (hr : RebuiltUserdb asserts h s map map')
    (key : CString) : Option.Rel (RebuiltUser asserts h s) (hashLookup (namesEnv asserts) map key)
      (hashLookup (namesEnv asserts) map' key) := by
  obtain ⟨new, hperm, hall⟩ := hr.nodes
  cases hl : hashLookup (namesEnv asserts) map key with
  | some user =>
    have hn := mem_nodes_of_lookup hmap.placed hl
    obtain ⟨user', huser', hrebuilt⟩ := exists_of_forall₂ hall (List.mem_map_of_mem hn)
    have hkey : userName user' = key := hrebuilt.name_eq.trans (hmap.name_eq _ hn)
    have hl' := lookup_of_mem_nodes hr.placed (hperm.mem_iff.mpr (List.mem_map_of_mem huser'))
    rw [hkey] at hl'
    rw [hl']
    exact Option.Rel.some hrebuilt
  | none =>
    cases hl' : hashLookup (namesEnv asserts) map' key with
    | none => exact Option.Rel.none
    | some user' =>
      obtain ⟨user', huser', hnode⟩ := List.mem_map.mp (hperm.mem_iff.mp (mem_nodes_of_lookup hr.placed hl'))
      obtain ⟨user, huser, hrebuilt⟩ := exists_of_forall₂ (P := fun u' u => RebuiltUser asserts h s u u')
        hall.flip huser'
      obtain ⟨n, hn, rfl⟩ := List.mem_map.mp huser
      have hkey : n.key = key :=
        (hmap.name_eq n hn).symm.trans (hrebuilt.name_eq.symm.trans (congrArg HashNode.key hnode))
      have hfound := lookup_of_mem_nodes hmap.placed hn
      rw [hkey, hl] at hfound
      cases hfound

/-- The users keep their names. -/
theorem map_userName_of_rebuilt {users users' : List (StoredUser V)}
    (hall : List.Forall₂ (RebuiltUser asserts h s) users users') :
    users'.map userName = users.map userName := by
  induction hall with
  | nil => rfl
  | cons hrebuilt _ ih => rw [List.map_cons, List.map_cons, hrebuilt.name_eq, ih]

theorem RebuiltUserdb.names (hmap : InOrder asserts map) (hr : RebuiltUserdb asserts h s map map') :
    (map'.nodes.map HashNode.key).Perm (map.nodes.map HashNode.key) := by
  obtain ⟨new, hperm, hall⟩ := hr.nodes
  have hkeys : (usersOf map).map userName = map.nodes.map HashNode.key := by
    rw [usersOf, List.map_map]
    exact List.map_congr_left hmap.name_eq
  have hnew := hperm.map HashNode.key
  rw [List.map_map] at hnew
  rw [← hkeys, ← map_userName_of_rebuilt hall]
  exact hnew

/-- What is known of a database before it is written, that is not so in every state. -/
structure KeptUserdb (classes : CString → Option (ObjHooks U)) (cb : UserCallbacks V) (h : ObjStore U)
    (map : UserTable V) : Prop where
  stored_lt : map.stored < 2 ^ 64
  users : ∀ user ∈ usersOf map, RestorableUser classes cb h user
  objects : ∀ user ∈ usersOf map, ∀ objects ∈ user.objects, KeptObjects h objects

/-- **A database that was read is the same database** if and only if the objects are the same. -/
theorem RebuiltUserdb.sameUserdb_iff (hmap : InOrder asserts map) (hk : KeptUserdb classes cb h map)
    (hr : RebuiltUserdb asserts h s map map') :
    SameUserdb asserts h s map map' ↔
      ∀ user ∈ usersOf map, ∀ o ∈ heldObjects h user, o.name ∉ o.aliasList := by
  have hiff : ∀ n ∈ map.nodes, ∀ user', RebuiltUser asserts h s n.data user' →
      (SameUser asserts h s n.data user' ↔ ∀ o ∈ heldObjects h n.data, o.name ∉ o.aliasList) := by
    intro n hn user' hrebuilt
    obtain ⟨objects, hobj⟩ := Option.isSome_iff_exists.mp (hmap.inventory n hn)
    exact hrebuilt.sameUser_iff hobj (hk.objects _ (List.mem_map_of_mem hn) objects hobj)
  constructor
  · intro hsame user huser
    obtain ⟨n, hn, rfl⟩ := List.mem_map.mp huser
    have hrebuilt := hr.lookup hmap n.key
    have hsame := hsame.users n.key
    rw [lookup_of_mem_nodes hmap.placed hn] at hrebuilt hsame
    generalize hashLookup (namesEnv asserts) map' n.key = found at hrebuilt hsame
    cases hrebuilt with
    | some hrebuilt =>
      cases hsame with
      | some hsame => exact (hiff n hn _ hrebuilt).mp hsame
  · intro hnames
    refine ⟨hr.names hmap, fun key => ?_⟩
    have hrebuilt := hr.lookup hmap key
    cases hl : hashLookup (namesEnv asserts) map key with
    | none =>
      rw [hl] at hrebuilt
      generalize hashLookup (namesEnv asserts) map' key = found at hrebuilt
      cases hrebuilt
      exact Option.Rel.none
    | some user =>
      have hn := mem_nodes_of_lookup hmap.placed hl
      rw [hl] at hrebuilt
      generalize hashLookup (namesEnv asserts) map' key = found at hrebuilt
      cases hrebuilt with
      | some hrebuilt =>
        exact Option.Rel.some ((hiff _ hn _ hrebuilt).mpr (hnames user (List.mem_map_of_mem hn)))

/-! ## When a database is written -/

/-- **When a user is written.** -/
theorem exists_saveUser_iff {user : StoredUser V} (hu : RestorableUser classes cb h user) {objects : ObjTable}
    (hobj : user.objects = some objects) (hk : KeptObjects h objects) :
    (∃ out, saveUser classes cb h user = .ok out) ↔ objects.hashTab.tableSz < unsignedRange := by
  rw [saveUser, hobj]
  constructor
  · rintro ⟨out, hout⟩
    obtain ⟨n, hn, -⟩ := bind_eq_ok hout
    exact tableSz_lt_of_hashForEach hn
  · intro hsz
    have hheld : heldObjects h user = savedObjects h objects := by rw [heldObjects, hobj]
    obtain ⟨⟨n, hn⟩, out, hout⟩ := hk.exists_write (hheld ▸ hu.objects) hsz
    dsimp only
    rw [hn, ok_bind]
    split
    · rw [hout]
      exact ⟨_, rfl⟩
    · exact ⟨_, rfl⟩

/-- The tables of a database can be walked. -/
structure WalkableUserdb (map : UserTable V) : Prop where
  table : map.tableSz < unsignedRange
  users : ∀ user ∈ usersOf map, ∀ objects ∈ user.objects, objects.hashTab.tableSz < unsignedRange

/-- **When a database is written.** -/
theorem KeptUserdb.exists_userdbWrite_iff (hk : KeptUserdb classes cb h map) (hmap : InOrder asserts map) :
    (∃ file, userdbWrite classes cb h map = .ok file) ↔ WalkableUserdb map := by
  have huser : ∀ n ∈ map.nodes, (∃ out, saveUser classes cb h n.data = .ok out) ↔
      ∀ objects ∈ n.data.objects, objects.hashTab.tableSz < unsignedRange := by
    intro n hn
    have hmem : n.data ∈ usersOf map := List.mem_map_of_mem hn
    obtain ⟨objects, hobj⟩ := Option.isSome_iff_exists.mp (hmap.inventory n hn)
    rw [exists_saveUser_iff (hk.users _ hmem) hobj (hk.objects _ hmem objects hobj), hobj]
    exact ⟨fun hlt o ho => Option.some.inj ho ▸ hlt, fun hall => hall objects rfl⟩
  constructor
  · rintro ⟨file, hfile⟩
    obtain ⟨users, husers, -⟩ := bind_eq_ok hfile
    refine ⟨tableSz_lt_of_hashForEach husers, fun user hmem => ?_⟩
    obtain ⟨n, hn, rfl⟩ := List.mem_map.mp hmem
    obtain ⟨-, hall⟩ := forall_of_foldlM (g := fun n => userBytes classes cb h n.data)
      (fun n hn out hout => saveUser_ok (hk.users _ (List.mem_map_of_mem hn)).objects_lt hout)
      (foldlM_of_hashForEach husers)
    exact (huser n hn).mp (hall n hn)
  · intro hwalk
    have husers : ∃ out, hashForEach map
        (fun out node => (saveUser classes cb h node.data).map (out ++ ·)) [] = .ok out := by
      rw [hashForEach_of_lt hwalk.table]
      refine exists_foldlM (fun n hn out => ?_) []
      obtain ⟨b, hb⟩ := (huser n hn).mpr (hwalk.users _ (List.mem_map_of_mem hn))
      rw [hb]
      exact ⟨_, rfl⟩
    obtain ⟨out, hout⟩ := husers
    rw [userdbWrite, hout]
    exact ⟨_, rfl⟩

/-! ## When a database goes round -/

/-- The database is written to a file, which is read by another process.  What that process has already, the objects of
the world, is left alone. -/
def UserFileRoundTrips (classes : CString → Option (ObjHooks U)) (cb : UserCallbacks V) (asserts : Bool)
    (h : ObjStore U) (map : UserTable V) (h₀ : ObjStore U) : Prop :=
  ∃ file, userdbWrite classes cb h map = .ok file ∧ ∃ map' s,
    userdbInit classes cb asserts h₀ (some file) = .ok (map', s) ∧ SameUserdb asserts h s map map' ∧
      ∀ addr < h₀.fresh, s.objects addr = h₀.objects addr

/-- Nothing in the database stops it from going round. -/
structure PortableUserdb (asserts : Bool) (h : ObjStore U) (map : UserTable V) : Prop where
  walkable : WalkableUserdb map
  takes : Takes (namesEnv asserts) 256 ((usersOf map).map userName)
  users : ∀ user ∈ usersOf map, TakesUser asserts h user
  names : ∀ user ∈ usersOf map, ∀ o ∈ heldObjects h user, o.name ∉ o.aliasList

/-- **A database with fewer than `fillLimit` users, who have fewer than `fillLimit` names in each inventory, is
portable**, if none of them is twice the name of an object. -/
theorem WalkableUserdb.portable (hwalk : WalkableUserdb map) (hlt : map.stored < fillLimit)
    (husers : ∀ user ∈ usersOf map, keyCount (heldObjects h user) < fillLimit)
    (hnames : ∀ user ∈ usersOf map, ∀ o ∈ heldObjects h user, o.name ∉ o.aliasList) :
    PortableUserdb asserts h map := by
  have hsmall : ∀ n, min 8 n ≤ 2 * unsignedRange := fun n => (Nat.min_le_left 8 n).trans (by decide)
  refine ⟨hwalk, ?_, fun user huser => takesObjects_of_lt (hsmall _) (husers user huser), hnames⟩
  refine takes_of_lt (compatible_namesEnv asserts).equiv (by decide) ?_
  rw [List.length_map, usersOf, List.length_map]
  exact hlt

/-- What is loaded from a file of users. -/
theorem userdbInit_eq_ok_iff (hmap : InOrder asserts map) (hk : KeptUserdb classes cb h map) {h₀ : ObjStore U} :
    userdbInit classes cb asserts h₀
        (some (userdbHead map ++ (usersOf map).flatMap (userBytes classes cb h))) = .ok (map', s) ↔
      (usersOf map).foldlM (rebuildUser asserts h) (hashInit 256) h₀ = some (map', s) := by
  have hread := replays_readUserdb hmap hk.stored_lt hk.users
  have hfile : ∀ file : List UInt8, userdbInit classes cb asserts h₀ (some file) =
      (on (readUserdb classes cb asserts) file h₀).map fun x => (x.1.1, x.2) := fun _ => rfl
  rw [hfile, ← List.append_nil (userdbHead map ++ _)]
  constructor
  · intro hload
    obtain ⟨x, hx, heq⟩ := map_eq_ok hload
    obtain ⟨r', s', hp, rfl⟩ := hread.of_ok hx
    obtain ⟨rfl, rfl⟩ := Prod.mk.inj heq
    exact hp
  · intro hp
    rw [hread.eq_ok hp]
    rfl

/-- What is loaded is what is made of the users. -/
theorem KeptUserdb.rebuilt (hk : KeptUserdb classes cb h map) (hmap : InOrder asserts map) {h₀ : ObjStore U}
    {file : List UInt8} (hfile : userdbWrite classes cb h map = .ok file)
    (hload : userdbInit classes cb asserts h₀ (some file) = .ok (map', s)) :
    ((∀ user ∈ usersOf map, TakesUser asserts h user) ∧ Takes (namesEnv asserts) 256 ((usersOf map).map userName)) ∧
      s = h₀.allocAll (allHeld h map) ∧ RebuiltUserdb asserts h s map map' := by
  obtain rfl := userdbWrite_ok (fun user hu => (hk.users user hu).objects_lt) hfile
  obtain ⟨htakes, hspec⟩ := rebuildUserdb_spec (h := h) hmap h₀
  have hp := (userdbInit_eq_ok_iff hmap hk).mp hload
  exact ⟨htakes.mp (Option.isSome_iff_exists.mpr ⟨_, hp⟩), hspec _ _ hp⟩

/-- A database that is the same again is portable. -/
theorem SameUserdb.portable (hsame : SameUserdb asserts h s map map') (hk : KeptUserdb classes cb h map)
    (hmap : InOrder asserts map) {h₀ : ObjStore U} {file : List UInt8}
    (hfile : userdbWrite classes cb h map = .ok file)
    (hload : userdbInit classes cb asserts h₀ (some file) = .ok (map', s)) : PortableUserdb asserts h map := by
  obtain ⟨⟨husers, hnames⟩, -, hrebuilt⟩ := hk.rebuilt hmap hfile hload
  exact ⟨(hk.exists_userdbWrite_iff hmap).mp ⟨_, hfile⟩, hnames, husers, (hrebuilt.sameUserdb_iff hmap hk).mp hsame⟩

/-- A portable database goes round, whatever the process has already. -/
theorem PortableUserdb.roundTrips (hportable : PortableUserdb asserts h map) (hmap : InOrder asserts map)
    (hk : KeptUserdb classes cb h map) (h₀ : ObjStore U) : UserFileRoundTrips classes cb asserts h map h₀ := by
  obtain ⟨file, hfile⟩ := (hk.exists_userdbWrite_iff hmap).mpr hportable.walkable
  obtain rfl := userdbWrite_ok (fun user hu => (hk.users user hu).objects_lt) hfile
  obtain ⟨htakes, hspec⟩ := rebuildUserdb_spec (h := h) hmap h₀
  obtain ⟨⟨map', s⟩, hp⟩ := Option.isSome_iff_exists.mp (htakes.mpr ⟨hportable.users, hportable.takes⟩)
  obtain ⟨hstore, hrebuilt⟩ := hspec _ _ hp
  refine ⟨_, hfile, map', s, (userdbInit_eq_ok_iff hmap hk).mpr hp,
    (hrebuilt.sameUserdb_iff hmap hk).mpr hportable.names, fun addr haddr => ?_⟩
  rw [hstore]
  exact objects_allocAll haddr _

/-! ## Databases of a running server -/

/-- `map` is the table of `db`, with the bytes of every record, the inventory that it points to, and what the
world module keeps with the user. -/
def StoredFrom (db : Userdb CString ℕ) (map : UserTable V) : Prop :=
  ∃ g : UserRecord → StoredUser V, map = db.map.mapData g ∧ ∀ n ∈ db.map.nodes,
    decodeUserData (g n.data).image = n.data.data ∧ (g n.data).objects = n.data.objects.bind db.maps

/-- **The table is in order in every state of every run.** -/
theorem inOrder_of_run {ops : List (UserdbOp CString ℕ)} {db : Userdb CString ℕ}
    (hrun : Runs.run (userdbStep asserts) Userdb.init ops = .ok db) (hstored : StoredFrom db map) :
    InOrder asserts map := by
  obtain ⟨g, rfl, hg⟩ := hstored
  obtain ⟨howned, hexact⟩ := Userdb.exact_run (Userdb.owned_init asserts) (sane_fresh 256).entries hrun
  have hnode : ∀ n' ∈ (db.map.mapData g).nodes, ∃ n ∈ db.map.nodes, n' = n.mapData g ∧
      db.lookup asserts n.key = some n.data := by
    intro n' hn'
    rw [nodes_mapData] at hn'
    obtain ⟨n, hn, rfl⟩ := List.mem_map.mp hn'
    exact ⟨n, hn, rfl, lookup_of_mem_nodes howned.placed hn⟩
  refine ⟨howned.placed.mapData g, ?_, fun n' hn' => ?_, fun n' hn' => ?_⟩
  · rw [stored_mapData]
    exact hexact
  · obtain ⟨n, hn, rfl, hlookup⟩ := hnode n' hn'
    show (decodeUserData (g n.data).image).name = n.key
    rw [(hg n hn).1]
    exact howned.name_eq n.key n.data hlookup
  · obtain ⟨n, hn, rfl, hlookup⟩ := hnode n' hn'
    obtain ⟨a, m, ha, hm, -⟩ := howned.objects n.key n.data hlookup
    show (g n.data).objects.isSome
    rw [(hg n hn).2, ha, Option.bind_some, hm]
    rfl

/-- **Databases go round if and only if they are portable**, in every state of every run, and whatever the process that
loads them has already. -/
theorem userFile_roundTrips_iff {ops : List (UserdbOp CString ℕ)} {db : Userdb CString ℕ}
    (hrun : Runs.run (userdbStep asserts) Userdb.init ops = .ok db) (hstored : StoredFrom db map)
    (hk : KeptUserdb classes cb h map) (h₀ : ObjStore U) :
    UserFileRoundTrips classes cb asserts h map h₀ ↔ PortableUserdb asserts h map := by
  have hmap := inOrder_of_run hrun hstored
  constructor
  · rintro ⟨file, hfile, map', s, hload, hsame, -⟩
    exact hsame.portable hk hmap hfile hload
  · intro hportable
    exact hportable.roundTrips hmap hk h₀

/-! ### A miner -/

/-- The record of a user called `m`. -/
def minerImage : List UInt8 := 109 :: List.replicate 207 0

theorem length_minerImage : minerImage.length = sizeofUserdata := by
  rw [minerImage, List.length_cons, List.length_replicate]
  rfl

/-- What a world module keeps with a user: that it is one. -/
def minerCallbacks : UserCallbacks Unit := ⟨some fun _ => [], some fun s => .ok (some (), s)⟩

/-- The miner is added, and gets an inventory. -/
def minerOps (objects : ObjTable) : List (UserdbOp CString ℕ) :=
  [.add (decodeUserData minerImage), .writeObjects (decodeUserData minerImage).name objects]

/-- The table with the record of the miner. -/
def minerTable : HashMap CString UserRecord :=
  appendNode (hashInit 256) (decodeUserData minerImage).name ⟨decodeUserData minerImage, some 0⟩
    ((namesEnv true).bucket (decodeUserData minerImage).name 256)

/-- The database with the miner. -/
def minerDb (objects : ObjTable) : Userdb CString ℕ where
  map := minerTable
  maps := Function.update (Function.update (fun _ => none) 0 (some (multimapInit 8))) 0
    (some { objects with refcount := 1 })
  fresh := 1

/-- The table of the users. -/
def miners (objects : ObjTable) : UserTable Unit :=
  (minerDb objects).map.mapData fun r =>
    ⟨minerImage, length_minerImage, r.objects.bind (minerDb objects).maps, some ()⟩

theorem lookup_miner : hashLookup (namesEnv true) minerTable (decodeUserData minerImage).name =
    some ⟨decodeUserData minerImage, some 0⟩ := by
  decide +kernel

theorem overwrite_miner : hashOverwrite (namesEnv true) (hashInit 256) (decodeUserData minerImage).name
    ⟨decodeUserData minerImage, some 0⟩ = .ok (none, minerTable) := by
  decide +kernel

/-- The run that makes the database. -/
theorem minerDb_run (objects : ObjTable) :
    Runs.run (userdbStep true) Userdb.init (minerOps objects) = .ok (minerDb objects) := by
  have hnone : (Userdb.init : Userdb CString ℕ).lookup true (decodeUserData minerImage).name = none :=
    Userdb.lookup_eq_none_iff.mpr (hashEntry_fresh _ _ _)
  have hadd : userdbStep true (Userdb.init : Userdb CString ℕ) (.add (decodeUserData minerImage)) =
      .ok ⟨minerTable, Function.update (fun _ => none) 0 (some (multimapInit 8)), 1⟩ := by
    have hshare : (Userdb.init : Userdb CString ℕ).shareObjects none =
        .ok (0, ⟨hashInit 256, Function.update (fun _ => none) 0 (some (multimapInit 8)), 1⟩) := rfl
    rw [userdbStep, Userdb.add, hnone, hshare, ok_bind]
    dsimp only
    rw [overwrite_miner]
    rfl
  have hwrite : userdbStep true ⟨minerTable, Function.update (fun _ => none) 0 (some (multimapInit 8)), 1⟩
      (.writeObjects (decodeUserData minerImage).name objects) = .ok (minerDb objects) := by
    rw [userdbStep, Userdb.writeObjects, Userdb.lookup, lookup_miner]
    rfl
  rw [minerOps, Runs.run_cons_ok hadd, Runs.run_cons_ok hwrite]
  rfl

theorem nodes_minerTable :
    minerTable.nodes = [⟨(decodeUserData minerImage).name, decodeUserData minerImage, some 0⟩] := by
  have hempty : (hashInit 256 : HashMap CString UserRecord).nodes = [] := HashMap.nodes_fresh _
  have hb : (namesEnv true).bucket (decodeUserData minerImage).name 256 <
      (hashInit 256 : HashMap CString UserRecord).tableSz := by
    rw [hashInit, HashMap.tableSz_fresh]
    exact (namesEnv true).bucket_lt _ (by decide)
  have hperm := perm_nodes_appendNode (hashInit 256 : HashMap CString UserRecord) hb
    (decodeUserData minerImage).name ⟨decodeUserData minerImage, some 0⟩
  rw [hempty] at hperm
  exact List.perm_singleton.mp hperm

theorem storedFrom_miners (objects : ObjTable) : StoredFrom (minerDb objects) (miners objects) := by
  refine ⟨_, rfl, fun n hn => ?_⟩
  rw [minerDb, nodes_minerTable] at hn
  obtain rfl := List.mem_singleton.mp hn
  exact ⟨rfl, rfl⟩

/-- The only user. -/
theorem usersOf_miners (objects : ObjTable) : usersOf (miners objects) =
    [⟨minerImage, length_minerImage, some { objects with refcount := 1 }, some ()⟩] := by
  rw [usersOf, miners, nodes_mapData, minerDb, nodes_minerTable]
  rfl

theorem heldObjects_miner (h : ObjStore Unit) (objects : ObjTable) :
    heldObjects h (⟨minerImage, length_minerImage, some { objects with refcount := 1 }, some ()⟩ : StoredUser Unit) =
      savedObjects h objects := rfl

/-- The database with a miner who has some rocks. -/
theorem keptUserdb_miners {aliases : List CString} {n : ℕ}
    (htakes : Takes (roomEnv true) 8 ((rocks aliases n).flatMap fun o => o.keys))
    (haliases : ∀ a ∈ aliases, Fits a ∧ a.bytes ≠ []) (hlt : keyCount (rocks aliases n) < 2 ^ 64) :
    KeptUserdb quarryModule.objClasses minerCallbacks (rockStore aliases n) (miners (rockTable aliases n)) := by
  refine ⟨?_, fun user huser => ?_, fun user huser objects hobj => ?_⟩
  · rw [miners, stored_mapData, HashMap.stored, minerDb, nodes_minerTable]
    decide
  all_goals
    rw [usersOf_miners] at huser
    obtain rfl := List.mem_singleton.mp huser
  · exact
      { objects := restorable_rocks htakes haliases
        objects_lt := (length_saved_le htakes).trans_lt hlt
        restores := fun rest => rfl }
  · obtain rfl := Option.some.inj hobj
    obtain ⟨hlive, hkeys⟩ := keptObjects_rocks htakes
    exact ⟨hlive, hkeys⟩

/-- A miner who has a rock that is also called a stone is loaded as they were, where there are two rocks already. -/
theorem miner_roundTrips :
    UserFileRoundTrips quarryModule.objClasses minerCallbacks true (rockStore [stoneName] 1)
      (miners (rockTable [stoneName] 1)) (rockStore [] 2) := by
  have htakes : Takes (roomEnv true) 8 ((rocks [stoneName] 1).flatMap fun o => o.keys) := ⟨_, rfl⟩
  have hkept := keptUserdb_miners htakes (by decide) (by decide)
  have hsaved : savedObjects (rockStore [stoneName] 1) (rockTable [stoneName] 1) =
      [(rock [stoneName] 0).restored 2] := by
    rfl
  have hsz : (miners (rockTable [stoneName] 1)).tableSz = 256 := by
    rw [miners, tableSz_mapData, minerDb, minerTable, tableSz_appendNode, hashInit, HashMap.tableSz_fresh]
    rfl
  have hwalk : WalkableUserdb (miners (rockTable [stoneName] 1)) := by
    refine ⟨by rw [hsz]; decide, fun user huser objects hobj => ?_⟩
    rw [usersOf_miners] at huser
    obtain rfl := List.mem_singleton.mp huser
    obtain rfl := Option.some.inj hobj
    decide +kernel
  have hstored : (miners (rockTable [stoneName] 1)).stored = 1 := by
    rw [miners, stored_mapData, HashMap.stored, minerDb, nodes_minerTable, List.length_singleton]
  refine (userFile_roundTrips_iff (minerDb_run _) (storedFrom_miners _) hkept _).mpr
    (hwalk.portable (by rw [hstored]; decide) (fun user huser => ?_) fun user huser o ho => ?_)
  all_goals
    rw [usersOf_miners] at huser
    obtain rfl := List.mem_singleton.mp huser
  · rw [heldObjects_miner, hsaved]
    decide
  · rw [heldObjects_miner] at ho
    obtain ⟨i, -, rfl⟩ := exists_rock_of_saved htakes ho
    exact (by decide : rockName ∉ [stoneName])

/-! ### A collier -/

/-- The table of the users of the colliery: the miner has a lump of coal. -/
def colliers : UserTable Bool :=
  minerTable.mapData fun _ => ⟨minerImage, length_minerImage, some (shelf 1 [lump 1]), some true⟩

theorem nodes_colliers : colliers.nodes = [⟨(decodeUserData minerImage).name,
    minerImage, length_minerImage, some (shelf 1 [lump 1]), some true⟩] := by
  rw [colliers, nodes_mapData, nodes_minerTable]
  rfl

theorem stored_colliers : colliers.stored = 1 := congrArg List.length nodes_colliers

theorem usersOf_colliers :
    usersOf colliers = [⟨minerImage, length_minerImage, some (shelf 1 [lump 1]), some true⟩] := by
  rw [usersOf, nodes_colliers]
  rfl

theorem savedObjects_inventory : savedObjects coalStore (shelf 1 [lump 1]) = [(lump 1).restored 2] := by rfl

theorem allHeld_colliers : allHeld coalStore colliers = [(lump 1).restored 2] := by
  rw [allHeld, usersOf_colliers, List.flatMap_singleton]
  exact savedObjects_inventory

theorem forall_collier {P : StoredUser Bool → Prop}
    (h : P ⟨minerImage, length_minerImage, some (shelf 1 [lump 1]), some true⟩) :
    ∀ user ∈ usersOf colliers, P user := by
  rw [usersOf_colliers]
  exact List.forall_mem_singleton.mpr h

theorem inOrder_colliers : InOrder true colliers := by
  have hempty : (hashInit 256 : HashMap CString UserRecord).WellPlaced (namesEnv true) := wellPlaced_hashInit _ 256
  have hplaced := wellPlaced_appendNode (equivalence_namesEnv true) hempty
    (hashLookup_hashInit _ 256 (decodeUserData minerImage).name) ⟨decodeUserData minerImage, some 0⟩
  rw [hashInit, HashMap.tableSz_fresh] at hplaced
  refine ⟨hplaced.mapData _, ?_, ?_, ?_⟩
  · rw [stored_colliers]
    rfl
  · rw [nodes_colliers]
    exact List.forall_mem_singleton.mpr rfl
  · rw [nodes_colliers]
    exact List.forall_mem_singleton.mpr rfl

theorem storableUser_colliers :
    ∀ user ∈ usersOf colliers, StorableUser collieryModule.objClasses litHooks coalStore user := by
  have hheld : heldObjects coalStore
      (⟨minerImage, length_minerImage, some (shelf 1 [lump 1]), some true⟩ : StoredUser Bool) =
        [(lump 1).restored 2] := savedObjects_inventory
  refine forall_collier ⟨?_, ?_, readLit_append true, fun _ hs hne => readLit_cut hs hne⟩
  · rw [hheld]
    exact List.forall_mem_singleton.mpr (writable_lump 1)
  · rw [hheld]
    decide

theorem keptUserdb_colliers : KeptUserdb collieryModule.objClasses litHooks coalStore colliers := by
  refine ⟨by rw [stored_colliers]; decide, fun user hu => (storableUser_colliers user hu).restorable, ?_⟩
  refine forall_collier fun objects hobj => ?_
  obtain rfl := Option.some.inj hobj
  exact Holds.keptObjects holds_coalStore.2 (pairs_shelf 1 (takes_lump 1))

theorem portable_colliers : PortableUserdb true coalStore colliers := by
  have hwalk : WalkableUserdb colliers := by
    refine ⟨by decide +kernel, forall_collier fun objects hobj => ?_⟩
    obtain rfl := Option.some.inj hobj
    decide +kernel
  refine hwalk.portable (by rw [stored_colliers]; decide) (forall_collier ?_) (forall_collier ?_)
  · show keyCount (savedObjects coalStore (shelf 1 [lump 1])) < fillLimit
    rw [savedObjects_inventory]
    decide
  · show ∀ o ∈ savedObjects coalStore (shelf 1 [lump 1]), o.name ∉ o.aliasList
    rw [savedObjects_inventory]
    exact List.forall_mem_singleton.mpr (by decide : coalName ∉ [lumpName])

end Storage

end NetCosm
