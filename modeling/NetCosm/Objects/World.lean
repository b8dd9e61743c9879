import NetCosm.Table.MultimapCells
import NetCosm.Text.CString

/-!
# Objects, rooms and inventories

The objects of a running server, the maps that hold them, and the functions of
`obj.c`, `room.c`, `userdb.c` and `server_reqs.c` that move objects between maps.

## Memory

Objects are allocated and freed, and pointers to them are kept in maps, so the
model keeps the heap: `objects` maps an id to the object, or to nothing once it has
been destroyed.  An object is the same thing as its id here; ids are handed out in
order by `objNew` and never twice.

Every read through a pointer that the source makes is made here too, and may fail
with `Fault.useAfterFree`: reading an object (`deref`), comparing with the keys of
a chain (`touch`), comparing with the objects of a list (`touchObjects`), stepping
to a list cell (`walkList`).

A key is a string in somebody's memory.  The name and the aliases of an object are
the object's, and are freed with it; the string passed to `room_obj_add_alias` is
the caller's, and is taken to stay.  So a key has an owner.

## The numbers of references

`refcount` is an `unsigned`.  The functions are written for counters of any type `κ` that one can be
added to and taken from.  The server is `World UInt32`; `World ℕ` is a server whose counters never come
around, which `Objects/Counters` compares it with.

## What is left out

Saving the state after a request, the fields of an object that nothing here reads, and
the hook that is called when an object is destroyed.
-/

namespace NetCosm

/-- `obj_id`. -/
abbrev ObjId := ℕ

/-- `room_id`. -/
abbrev RoomId := ℕ

/-- `NUM_DIRECTIONS`. -/
def NUM_DIRECTIONS : ℕ := 12

/-- A key of a room or an inventory: a string, and the object in whose memory it
is. -/
structure ObjKey where
  text : CString
  owner : Option ObjId
  deriving DecidableEq

/-- How rooms and inventories hash and compare keys. -/
def objEnv (asserts : Bool) : HashEnv ObjKey where
  hash key := hashDjb key.text
  compare a b := compareStringsNocase a.text b.text
  asserts := asserts

/-- `obj_compare`. -/
def objCompare (a b : ObjId) : ℤ := if a = b then 0 else 1

abbrev ObjMap := Multimap ObjKey ObjId

abbrev ObjPair := MultimapPair ObjKey ObjId

/-- `struct object_t`. -/
structure Object (κ : Type) where
  cls : CString
  name : CString
  aliasList : List CString
  refcount : κ

/-- The strings an object is stored under. -/
def Object.keys {κ : Type} (o : Object κ) : List CString := o.name :: o.aliasList

/-- What holds objects: a room, or the inventory of a user. -/
inductive Container where
  | room (id : RoomId)
  | inventory (user : CString)
  deriving DecidableEq

/-- The objects and the maps of the server. -/
structure World (κ : Type) where
  idcounter : ObjId
  objects : ObjId → Option (Object κ)
  maps : List (Container × ObjMap)
  /-- A room or a user has one map. -/
  distinct : (maps.map Prod.fst).Nodup

/-- The fields of `struct child_data` that are read here. -/
structure Sender where
  user : CString
  room : RoomId

/-- The hooks of an object class.  They may look at anything and change nothing; an
object is asked once in a request, so within one request an answer depends on the
object and the sender only. -/
structure ObjClass where
  hookTake : Option (ObjId → Sender → Bool)
  hookDrop : Option (ObjId → Sender → Bool)

/-- A hook that is not there allows. -/
def allows (hook : Option (ObjId → Sender → Bool)) (id : ObjId) (sender : Sender) : Bool :=
  match hook with
  | some h => h id sender
  | none => true

namespace World

variable {κ : Type}

/-- The map of a container. -/
def map? (w : World κ) (c : Container) : Option ObjMap :=
  (w.maps.find? fun e => e.1 = c).map Prod.snd

/-- The world with another map for a container that has one. -/
def setMap (w : World κ) (c : Container) (m : ObjMap) : World κ :=
  { w with
    maps := w.maps.map fun e => if e.1 = c then (c, m) else e
    distinct := by
      have h : (w.maps.map fun e => if e.1 = c then (c, m) else e).map Prod.fst =
          w.maps.map Prod.fst := by
        rw [List.map_map]
        refine List.map_congr_left fun e _ => ?_
        by_cases he : e.1 = c <;> simp [he]
      rw [h]
      exact w.distinct }

/-- The world with another object, or none, at an id. -/
def setObject (w : World κ) (id : ObjId) (o : Option (Object κ)) : World κ :=
  { w with objects := Function.update w.objects id o }

/-- Follow the pointer to a map.  `userdb_lookup` returns null for a missing user,
and `room_get` does not check its index. -/
def getMap (w : World κ) (c : Container) : Except Fault ObjMap :=
  match w.map? c with
  | some m => .ok m
  | none =>
      match c with
      | .room _ => .error .outOfBounds
      | .inventory _ => .error .nullPointer

/-- Follow a pointer to an object. -/
def deref (w : World κ) (id : ObjId) : Except Fault (Object κ) :=
  match w.objects id with
  | some o => .ok o
  | none => .error .useAfterFree

/-- The string of a key has not been freed. -/
def readable (w : World κ) (key : ObjKey) : Bool :=
  match key.owner with
  | some id => (w.objects id).isSome
  | none => true

/-- Read the strings of some keys. -/
def touch (w : World κ) (keys : List ObjKey) : Except Fault Unit :=
  if keys.all w.readable then .ok () else .error .useAfterFree

/-- Read the ids of the objects of some cells. -/
def touchObjects (w : World κ) (l : List ObjPair) : Except Fault Unit :=
  if l.all fun p => (w.objects p.val).isSome then .ok () else .error .useAfterFree

end World

/-- What may be done to objects. -/
inductive ObjOp where
  /-- A new object, with a name and aliases, is added to a room. -/
  | add (room : RoomId) (cls name : CString) (aliasList : List CString)
  /-- A new object, with a name, is given an alias in a room it was not added to. -/
  | newAlias (room : RoomId) (cls name aliasName : CString)
  | addAlias (room : RoomId) (id : ObjId) (aliasName : CString)
  | take (hooks : CString → ObjClass) (sender : Sender) (name : CString)
  | drop (hooks : CString → ObjClass) (sender : Sender) (name : CString)
  | roomDel (room : RoomId) (id : ObjId)
  | userDel (user : CString) (id : ObjId)

section

variable {κ : Type} [Add κ] [Sub κ] [OfNat κ 0] [OfNat κ 1] [DecidableEq κ]

/-! ## `obj.c` -/

/-- `obj_new`, and the fields its caller fills in.  `classes` are the names of the
object classes of the world module. -/
def objNew (classes : List CString) (w : World κ) (cls name : CString)
    (aliasList : List CString) : Except Fault (ObjId × World κ) :=
  if cls ∈ classes then
    .ok (w.idcounter,
      { w.setObject w.idcounter (some ⟨cls, name, aliasList, 1⟩) with
        idcounter := w.idcounter + 1 })
  else .error .fatal

/-- `obj_dup`: one more reference. -/
def objDup (w : World κ) (id : ObjId) : Except Fault (World κ) := do
  let obj ← w.deref id
  pure (w.setObject id (some { obj with refcount := obj.refcount + 1 }))

/-- `obj_free`: one reference less, and the object is destroyed with the last. -/
def objFree (w : World κ) (id : ObjId) : Except Fault (World κ) := do
  let obj ← w.deref id
  if obj.refcount - 1 = 0 then pure (w.setObject id none)
  else pure (w.setObject id (some { obj with refcount := obj.refcount - 1 }))

/-! ## The multimap calls, with the reads they make -/

variable (asserts : Bool)

/-- `multimap_lookup` in the map of a container. -/
def lookupObjs (w : World κ) (c : Container) (key : ObjKey) : Except Fault (List ObjPair) := do
  let m ← w.getMap c
  w.touch (key :: m.hashTab.walked (objEnv asserts) key)
  pure (multimapLookup (objEnv asserts) m key).1

/-- The keys `multimap_insert` reads: its own, those it walks past, and all of them
when the table grows. -/
def insertReads (m : ObjMap) (key : ObjKey) (id : ObjId) : List ObjKey :=
  key :: m.hashTab.walked (objEnv asserts) key ++
    if m.grows (objEnv asserts) (.insert key id) then
      (m.inserted (objEnv asserts) key id).nodes.map HashNode.key
    else []

/-- `multimap_insert` in the map of a container. -/
def insertObj (w : World κ) (c : Container) (key : ObjKey) (id : ObjId) :
    Except Fault (Bool × World κ) := do
  let m ← w.getMap c
  w.touch (insertReads asserts m key id)
  let r ← multimapInsert (objEnv asserts) m key id
  pure (r.1, w.setMap c r.2)

/-- The call `multimap_insert(map, key, obj_dup(obj))`. -/
def dupInsert (w : World κ) (c : Container) (key : ObjKey) (id : ObjId) :
    Except Fault (Bool × World κ) := do
  let w ← objDup w id
  insertObj asserts w c key id

/-- The loop over the aliases of `room_obj_add` and `userdb_add_obj`.  They differ in
the map and in what they make of the results; `combine` says what. -/
def insertAliases (combine : Bool → Bool → Bool) (c : Container) (id : ObjId)
    (aliasList : List CString) (r : Bool × World κ) : Except Fault (Bool × World κ) :=
  aliasList.foldlM (fun r aliasName =>
    (dupInsert asserts r.2 c ⟨aliasName, some id⟩ id).map fun r' => (combine r.1 r'.1, r'.2)) r

/-- `multimap_delete` in the map of a container, with the callback `obj_free`
installed. -/
def deleteObj (w : World κ) (c : Container) (key : ObjKey) (id : ObjId) :
    Except Fault (ℕ × World κ) := do
  let m ← w.getMap c
  w.touch (key :: m.hashTab.walked (objEnv asserts) key)
  w.touchObjects (multimapLookup (objEnv asserts) m key).1
  let r := multimapDelete (objEnv asserts) objCompare m key id
  let w ← r.1.foldlM (fun w p => objFree w p.val) (w.setMap c r.2)
  pure (r.1.length, w)

/-- One turn of the loop over the aliases of an object that is taken out of a map:
delete under the alias, and read the next one. -/
def deleteAlias (c : Container) (id : ObjId) (w : World κ) (aliasName : CString) :
    Except Fault (World κ) := do
  let r ← deleteObj asserts w c ⟨aliasName, some id⟩ id
  let _ ← r.2.deref id
  pure r.2

/-- The loop over the aliases and the call for the name of `room_obj_del_by_ptr` and
`userdb_del_obj_by_ptr`, which differ in the map only. -/
def delObjByPtr (w : World κ) (c : Container) (id : ObjId) : Except Fault (Bool × World κ) := do
  let obj ← w.deref id
  let w ← obj.aliasList.foldlM (deleteAlias asserts c id) w
  let r ← deleteObj asserts w c ⟨obj.name, some id⟩ id
  pure (r.1 != 0, r.2)

/-- The loop of `room_obj_del`, `req_take` and `req_drop`: read the cell, remember the next
one, do what is to be done to the object, go on.  The first argument bounds the number
of cells visited. -/
def walkList (c : Container) (body : World κ → ObjId → Except Fault (String × World κ)) :
    ℕ → World κ → Option ℕ → Except Fault (List String × World κ)
  | _, w, none => pure ([], w)
  | 0, _, some _ => .error .endlessLoop
  | n + 1, w, some a => do
      let m ← w.getMap c
      match m.suffixAt a with
      | [] => .error .useAfterFree
      | p :: rest =>
          let r ← body w p.val
          let r' ← walkList c body n r.2 (rest.head?.map MultimapPair.addr)
          pure (r.1 :: r'.1, r'.2)

/-! ## `room.c` -/

/-- `room_obj_add`.  The reference stored under the name is the caller's. -/
def roomObjAdd (w : World κ) (room : RoomId) (id : ObjId) : Except Fault (Bool × World κ) := do
  let obj ← w.deref id
  let r ← insertObj asserts w (.room room) ⟨obj.name, some id⟩ id
  insertAliases asserts (fun a b => a && b) (.room room) id obj.aliasList r

/-- `room_obj_get`. -/
def roomObjGet (w : World κ) (room : RoomId) (key : ObjKey) : Except Fault (List ObjPair) :=
  lookupObjs asserts w (.room room) key

/-- `room_obj_add_alias` once the primary name is there: an alias equal to the name,
or equal to another alias up to case, is not stored. -/
def storeAlias (w : World κ) (room : RoomId) (id : ObjId) (aliasName : CString) :
    Except Fault (Bool × World κ) := do
  let obj ← w.deref id
  if aliasName = obj.name then pure (false, w)
  else if obj.aliasList.any fun a => compareStringsNocase a aliasName == 0 then pure (false, w)
  else do
    let w := w.setObject id (some { obj with aliasList := aliasName :: obj.aliasList })
    dupInsert asserts w (.room room) ⟨aliasName, none⟩ id

/-- `room_obj_add_alias`: "the primary name must be added". -/
def roomObjAddAlias (w : World κ) (room : RoomId) (id : ObjId) (aliasName : CString) :
    Except Fault (Bool × World κ) := do
  let obj ← w.deref id
  let list ← roomObjGet asserts w room ⟨obj.name, some id⟩
  let w ← if list.isEmpty then (roomObjAdd asserts w room id).map Prod.snd else pure w
  storeAlias asserts w room id aliasName

/-- `room_obj_del_by_ptr`. -/
def roomObjDelByPtr (w : World κ) (room : RoomId) (id : ObjId) : Except Fault (Bool × World κ) :=
  delObjByPtr asserts w (.room room) id

/-- `room_obj_del`.  The loop reads the next cell before it takes out the object of this
one. -/
def roomObjDel (w : World κ) (room : RoomId) (name : CString) : Except Fault (Bool × World κ) := do
  let list ← roomObjGet asserts w room ⟨name, none⟩
  match list with
  | [] => pure (false, w)
  | p :: rest => do
      let body := fun w id => (roomObjDelByPtr asserts w room id).map fun r => ("", r.2)
      let r ← walkList (.room room) body (rest.length + 1) w (some p.addr)
      pure (true, r.2)

/-! ## `userdb.c` -/

/-- `userdb_add_obj`. -/
def userdbAddObj (w : World κ) (user : CString) (id : ObjId) : Except Fault (Bool × World κ) := do
  let obj ← w.deref id
  -- the results for the aliases are not looked at
  let r ← insertAliases asserts (fun _ b => b) (.inventory user) id obj.aliasList (false, w)
  dupInsert asserts r.2 (.inventory user) ⟨obj.name, some id⟩ id

/-- `userdb_del_obj_by_ptr`. -/
def userdbDelObjByPtr (w : World κ) (user : CString) (id : ObjId) : Except Fault (Bool × World κ) :=
  delObjByPtr asserts w (.inventory user) id

/-! ## `server_reqs.c` -/

/-- The body of the loop of `req_take`, with the message it sends. -/
def takeOne (hooks : CString → ObjClass) (sender : Sender) (w : World κ) (id : ObjId) :
    Except Fault (String × World κ) := do
  let obj ← w.deref id
  if allows (hooks obj.cls).hookTake id sender then do
    let r ← userdbAddObj asserts w sender.user id
    let r ← roomObjDelByPtr asserts r.2 sender.room id
    pure ("Taken.\n", r.2)
  else pure ("You can't take that.\n", w)

/-- `req_take`: the messages sent to the sender, and the world. -/
def reqTake (hooks : CString → ObjClass) (sender : Sender) (name : CString) (w : World κ) :
    Except Fault (List String × World κ) := do
  let list ← roomObjGet asserts w sender.room ⟨name, none⟩
  match list with
  | [] => pure (["I don't know what that is.\n"], w)
  | p :: rest =>
      walkList (.room sender.room) (takeOne asserts hooks sender) (rest.length + 1) w (some p.addr)

/-- The body of the loop of `req_drop`, with the message it sends.  The object is put
into the room before the hook is asked, and moved back if it refuses. -/
def dropOne (hooks : CString → ObjClass) (sender : Sender) (w : World κ) (id : ObjId) :
    Except Fault (String × World κ) := do
  let w ← objDup w id
  let r ← roomObjAdd asserts w sender.room id
  let r ← userdbDelObjByPtr asserts r.2 sender.user id
  let obj ← r.2.deref id
  if allows (hooks obj.cls).hookDrop id sender then pure ("Dropped.\n", r.2)
  else do
    let w ← objDup r.2 id
    let r ← userdbAddObj asserts w sender.user id
    let r ← roomObjDelByPtr asserts r.2 sender.room id
    pure ("You cannot drop that.\n", r.2)

/-- `req_drop`. -/
def reqDrop (hooks : CString → ObjClass) (sender : Sender) (name : CString) (w : World κ) :
    Except Fault (List String × World κ) :=
  match w.map? (.inventory sender.user) with
  | none => pure ([], w)
  | some _ => do
      let list ← lookupObjs asserts w (.inventory sender.user) ⟨name, none⟩
      match list with
      | [] => pure (["You don't have that.\n"], w)
      | p :: rest =>
          walkList (.inventory sender.user) (dropOne asserts hooks sender) (rest.length + 1) w
            (some p.addr)

/-! ## Runs -/

/-- One operation. -/
def objStep (classes : List CString) (w : World κ) : ObjOp → Except Fault (World κ)
  | .add room cls name aliasList => do
      let (id, w) ← objNew classes w cls name aliasList
      let r ← roomObjAdd asserts w room id
      pure r.2
  | .newAlias room cls name aliasName => do
      let (id, w) ← objNew classes w cls name []
      let r ← roomObjAddAlias asserts w room id aliasName
      pure r.2
  | .addAlias room id aliasName => (roomObjAddAlias asserts w room id aliasName).map Prod.snd
  | .take hooks sender name => (reqTake asserts hooks sender name w).map Prod.snd
  | .drop hooks sender name => (reqDrop asserts hooks sender name w).map Prod.snd
  | .roomDel room id => (roomObjDelByPtr asserts w room id).map Prod.snd
  | .userDel user id => (userdbDelObjByPtr asserts w user id).map Prod.snd

end

/-- Rooms and users, with empty maps of the given sizes, and no object. -/
def World.init {κ : Type} (sizes : List (Container × ℕ)) (distinct : (sizes.map Prod.fst).Nodup) :
    World κ where
  idcounter := 1
  objects _ := none
  maps := sizes.map fun e => (e.1, multimapInit e.2)
  distinct := by
    rw [List.map_map]
    exact distinct

end NetCosm
