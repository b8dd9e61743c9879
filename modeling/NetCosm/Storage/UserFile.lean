import NetCosm.Storage.WorldLoading

/-!
# The user database on disk

`userdb_write` and `userdb_init` of `userdb.c`.

A magic number, the number of users, and for every user the bytes of the `struct userdata_t` as
they are in memory, the objects of the inventory, and what a world module keeps with the user.  The
pointers in the `struct` are written too, and mean nothing in another process.

## Short reads

`userdb_init` takes the bytes of a `struct userdata_t` with one call of `read`.  If there are not
enough of them, it leaves the loop, and is content with the users it has.  Everything else is read
by functions that call `error`.
-/

namespace NetCosm

namespace Storage

open Reader

/-- `USERDB_MAGIC`. -/
def USERDB_MAGIC : UInt32 := 0x27182818

/-- `netcosm_write_userdata_cb` and `netcosm_read_userdata_cb`.  They are of the same kind as the
hooks of a room. -/
abbrev UserCallbacks (V : Type) := RoomHooks V

/-- A user in memory: the bytes of the `struct userdata_t`, and what its pointers point to.  Without
callbacks nothing is known of `userdata`. -/
structure StoredUser (V : Type) where
  image : List UInt8
  length_image : image.length = sizeofUserdata
  objects : Option ObjTable
  userdata : Option V

/-- `map` of `userdb.c`. -/
abbrev UserTable (V : Type) := HashMap CString (StoredUser V)

section

variable {U V : Type}

/-! ## Writing -/

/-- What `userdb_write` writes of a user. -/
def saveUser (classes : CString → Option (ObjHooks U)) (cb : UserCallbacks V) (h : ObjStore U)
    (user : StoredUser V) : Except Fault (List UInt8) := do
  let nObjects ← (match user.objects with
    | some objects => objCountNoalias h objects
    | none => .ok 0)
  let objects ← (match user.objects with
    | some objects => if nObjects ≠ 0 then writeObjects h classes objects else .ok []
    | none => .ok [])
  pure [user.image, writeSize nObjects, objects, cb.serialize user.userdata].flatten

/-- `userdb_write`: what is written. -/
def userdbWrite (classes : CString → Option (ObjHooks U)) (cb : UserCallbacks V) (h : ObjStore U)
    (map : UserTable V) : Except Fault (List UInt8) := do
  let users ← hashForEach map (fun out node => (saveUser classes cb h node.data).map (out ++ ·)) []
  pure [writeUint32 USERDB_MAGIC, writeSize (hashSize map), users].flatten

/-! ## Reading -/

variable (classes : CString → Option (ObjHooks U)) (cb : UserCallbacks V) (asserts : Bool)

/-- What `userdb_init` reads of a user behind the `struct`. -/
def readUserTail (image : List UInt8) (hlen : image.length = sizeofUserdata) :
    FileReader (ObjStore U) (StoredUser V) := do
  let nObjects ← readSize
  let objects ← forUnsigned nObjects.toNat (fun _ => readObject classes asserts)
    (multimapInit (min 8 nObjects.toNat))
  let userdata ← ofFile cb.deserialize
  pure ⟨image, hlen, some objects, userdata⟩

/-- One turn of the loop of `userdb_init`, once the `struct` has been read.  A user whose name is
there already is dropped. -/
def readUser (image : List UInt8) (hlen : image.length = sizeofUserdata) (map : UserTable V) :
    FileReader (ObjStore U) (UserTable V) := do
  let user ← readUserTail classes cb asserts image hlen
  let r ← call (hashInsert (namesEnv asserts) map (decodeUserData image).name user)
  pure r.2

/-- The loop of `userdb_init`, with `n` turns left. -/
def readUsers : ℕ → UserTable V → FileReader (ObjStore U) (UserTable V)
  | 0, map => pure map
  | n + 1, map => do
      let image ← readUpTo sizeofUserdata
      if hlen : image.length = sizeofUserdata then do
        let map ← readUser classes cb asserts image hlen map
        readUsers n map
      else pure map

/-- `userdb_init` of a file that can be opened. -/
def readUserdb : FileReader (ObjStore U) (UserTable V) := do
  let magic ← readUint32
  if magic ≠ USERDB_MAGIC then fail .fatal
  else do
    let nUsers ← readSize
    readUsers classes cb asserts nUsers.toNat (hashInit 256)

/-- `userdb_init`, in a process with the objects `h`. -/
def userdbInit (h : ObjStore U) (file : Option (List UInt8)) :
    Except Fault (UserTable V × ObjStore U) :=
  match file with
  | some s => (on (readUserdb classes cb asserts) s h).map fun x => (x.1.1, x.2)
  | none => .ok (hashInit 256, h)

end

/-! ## What is written -/

section

variable {U V : Type} {classes : CString → Option (ObjHooks U)} {cb : UserCallbacks V}
  {h : ObjStore U}

/-- The objects of a user that are written. -/
def heldObjects (h : ObjStore U) (user : StoredUser V) : List (StoredObject U) :=
  match user.objects with
  | some objects => savedObjects h objects
  | none => []

/-- What is written of a user behind the `struct`. -/
def userTail (classes : CString → Option (ObjHooks U)) (cb : UserCallbacks V) (h : ObjStore U)
    (user : StoredUser V) : List UInt8 :=
  [writeSize (UInt64.ofNat (heldObjects h user).length),
    (heldObjects h user).flatMap (objBytes classes), cb.serialize user.userdata].flatten

/-- What is written of a user. -/
def userBytes (classes : CString → Option (ObjHooks U)) (cb : UserCallbacks V) (h : ObjStore U)
    (user : StoredUser V) : List UInt8 := user.image ++ userTail classes cb h user

/-- The users of a table. -/
def usersOf (map : UserTable V) : List (StoredUser V) := map.nodes.map HashNode.data

/-- What is in the file in front of the users. -/
def userdbHead (map : UserTable V) : List UInt8 :=
  writeUint32 USERDB_MAGIC ++ writeSize (hashSize map)

theorem saveUser_ok {user : StoredUser V} {out : List UInt8}
    (hlt : (heldObjects h user).length < 2 ^ 64) (hout : saveUser classes cb h user = .ok out) :
    out = userBytes classes cb h user := by
  obtain ⟨n, hn, hout⟩ := bind_eq_ok hout
  obtain ⟨objects, hobjects, hout⟩ := bind_eq_ok hout
  have hboth : n = UInt64.ofNat (heldObjects h user).length ∧
      objects = (heldObjects h user).flatMap (objBytes classes) := by
    unfold heldObjects at hlt ⊢
    cases hobj : user.objects with
    | none =>
      rw [hobj] at hn hobjects
      exact ⟨(Except.ok.inj hn).symm, (Except.ok.inj hobjects).symm⟩
    | some table =>
      rw [hobj] at hn hobjects hlt
      obtain rfl := objCountNoalias_ok h hn
      refine ⟨rfl, ?_⟩
      dsimp only at hobjects hlt ⊢
      split at hobjects
      · exact writeObjects_ok h hobjects
      · rename_i hzero
        have hnil := congrArg UInt64.toNat (not_not.mp hzero)
        rw [UInt64.toNat_ofNat', Nat.mod_eq_of_lt hlt, UInt64.toNat_zero] at hnil
        rw [← Except.ok.inj hobjects, List.length_eq_zero_iff.mp hnil, List.flatMap_nil]
  rw [← Except.ok.inj hout, hboth.1, hboth.2, userBytes, userTail]
  rfl

/-- **What `userdb_write` writes.** -/
theorem userdbWrite_ok {map : UserTable V} {file : List UInt8}
    (hlt : ∀ user ∈ usersOf map, (heldObjects h user).length < 2 ^ 64)
    (hwrite : userdbWrite classes cb h map = .ok file) :
    file = userdbHead map ++ (usersOf map).flatMap (userBytes classes cb h) := by
  obtain ⟨users, husers, hwrite⟩ := bind_eq_ok hwrite
  obtain ⟨hbytes, -⟩ := forall_of_foldlM (g := fun node => userBytes classes cb h node.data)
    (fun node hnode out hout => saveUser_ok (hlt _ (List.mem_map_of_mem hnode)) hout)
    (foldlM_of_hashForEach husers)
  rw [← Except.ok.inj hwrite, hbytes, usersOf, List.flatMap_map, userdbHead]
  simp only [List.flatten_cons, List.flatten_nil, List.nil_append, List.append_nil,
    List.append_assoc]

/-! ## Reading it back -/

/-- A user that can be loaded. -/
structure StorableUser (classes : CString → Option (ObjHooks U)) (cb : UserCallbacks V)
    (h : ObjStore U) (user : StoredUser V) : Prop where
  objects : ∀ o ∈ heldObjects h user, Writable classes o
  keyCount_lt : keyCount (heldObjects h user) < fillLimit
  restores : cb.Restores user.userdata
  notices : cb.Notices user.userdata

/-- `user'` is `user`, loaded. -/
structure LoadedUser (asserts : Bool) (h h' : ObjStore U) (user user' : StoredUser V) :
    Prop where
  image : user'.image = user.image
  userdata : user'.userdata = user.userdata
  objects : ∃ objects addr, user'.objects = some objects ∧ objects.Regular (roomEnv asserts) ∧
    Holds h' addr (heldObjects h user) ∧
    (objects.pairs.map MultimapPair.pair).Perm (keysFrom addr (heldObjects h user))

variable {asserts : Bool} {user : StoredUser V}

theorem StorableUser.length_lt (hu : StorableUser classes cb h user) :
    (heldObjects h user).length < 2 ^ 64 := by
  have hlen := length_le_keyCount (heldObjects h user)
  have hlt := hu.keyCount_lt
  unfold fillLimit at hlt
  omega

/-- **A user is loaded.**  What had been loaded before stays. -/
theorem loads_readUserTail (hu : StorableUser classes cb h user) (s : ObjStore U) :
    Loads Stops (· = s) (readUserTail classes cb asserts user.image user.length_image)
      (userTail classes cb h user)
      (fun user' s' => LoadedUser asserts h s' user user' ∧ s' = s.allocAll (heldObjects h user))
      fun _ => False := by
  have hcount : (UInt64.ofNat (heldObjects h user).length).toNat = (heldObjects h user).length := by
    rw [UInt64.toNat_ofNat']
    exact Nat.mod_eq_of_lt hu.length_lt
  rw [readUserTail, userTail]
  simp only [List.flatten_cons, List.flatten_nil, List.append_nil]
  refine (decodes_readSize _).andThen ?_
  rw [hcount]
  refine (loads_objects hu.objects hu.keyCount_lt s (Multimap.filling_init _ ?_)
    (Multimap.pairs_init _)).andThen fun objects => ?_
  · have hlimit : 8 ≤ 2 * unsignedRange := by decide
    omega
  refine Loads.finish (decodes_roomHook hu.restores hu.notices _) (fun _ hf => hf.elim)
    fun userdata => loads_pure ?_
  rintro s' ⟨rfl, hobjects⟩
  obtain rfl := hobjects.store
  refine ⟨?_, rfl⟩
  exact
    { image := rfl
      userdata := rfl
      objects := ⟨objects, s.fresh, rfl, hobjects.filling.toRegular, holds_allocAll s _,
        hobjects.pairs⟩ }

/-- A loaded user is put into the table, or there is one of that name. -/
theorem loads_readUser (hu : StorableUser classes cb h user) {map : UserTable V} {n : ℕ}
    (hmap : map.Filling (namesEnv asserts) n) (hn : n + 1 < fillLimit) :
    Loads Stops (fun _ => True) (readUser classes cb asserts user.image user.length_image map)
      (userTail classes cb h user) (fun map' _ => map'.Filling (namesEnv asserts) (n + 1))
      fun _ => False := by
  refine loads_of_forall fun s _ => ?_
  refine Loads.finish (loads_readUserTail hu s) (fun _ hf => hf.elim) fun user' => ?_
  obtain ⟨r, hins, hfill⟩ := hmap.exists_hashInsert (equivalence_namesEnv asserts) hn
    (decodeUserData user.image).name user'
  refine Loads.finish (R := fun r' _ => r' = r ∧ True) (A := fun _ => False)
    (loads_call hins fun _ _ => ⟨rfl, trivial⟩) (fun _ hf => hf.elim) fun r' => ?_
  exact loads_of_eq (f := fun r' => (pure r'.2 : FileReader (ObjStore U) (UserTable V)))
    (Q := fun map' _ => map'.Filling (namesEnv asserts) (n + 1)) (loads_pure fun _ _ => hfill) r'

theorem on_readStruct (user : StoredUser V) (t : List UInt8) (st : ObjStore U) :
    on (readUpTo sizeofUserdata : FileReader (ObjStore U) (List UInt8)) (user.image ++ t) st =
      .ok ((user.image, t), st) := by
  show Except.ok (((user.image ++ t).take sizeofUserdata, (user.image ++ t).drop sizeofUserdata),
    st) = _
  rw [List.take_left' user.length_image, List.drop_left' user.length_image]

/-- A turn of the loop that gets a whole `struct`. -/
theorem on_readUsers_succ (n : ℕ) (map : UserTable V) (user : StoredUser V) (t : List UInt8)
    (st : ObjStore U) :
    on (readUsers classes cb asserts (n + 1) map) (user.image ++ t) st =
      on (readUser classes cb asserts user.image user.length_image map >>=
        readUsers classes cb asserts n) t st := by
  rw [readUsers, on_bind_of_ok (on_readStruct user t st), dif_pos user.length_image]

end

end Storage

end NetCosm
