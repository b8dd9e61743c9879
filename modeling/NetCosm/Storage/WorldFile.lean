import NetCosm.Storage.Objects
import NetCosm.Table.HashIterate
import NetCosm.Users.Userdb

/-!
# The world on disk

`world_save` and `world_load` of `world.c`, and the functions of `verb.c`, `room.c` and `obj.c` they
call.

## The file

A magic number, the number of rooms, the name of the world, the global verbs; every room with its
objects and its verbs; the counter object ids are taken from; and the map from the names of rooms
to the rooms.  Each list has its length in front.  The number of the objects of a room is counted
by one walk over its map (`obj_count_noalias`), and the objects are written by another; both take
the pairs whose key is the name of the object, so an object is written once although it is stored
under each of its aliases too.

## What is kept in memory

The rooms point to their objects, so the objects are in an `ObjStore`, and a room has the addresses.
An entry of the map of rooms is a pointer into the array of rooms: an index, which a file that is
damaged can make point anywhere.

The static data of a room, `struct roomdata_t`, are supplied by the world module and not written; of
these only the two hooks that write and read are used here.  The users in a room are not written
either.
-/

namespace NetCosm

namespace Storage

open Reader

/-- `WORLD_MAGIC`. -/
def WORLD_MAGIC : UInt32 := 0x31415926

/-- `struct verb_t`. -/
structure Verb where
  cls : CString
  name : CString
  deriving DecidableEq

/-- A map of names of verbs. -/
abbrev VerbTable := HashMap CString Verb

/-- The hooks of `struct roomdata_t` that write and read what the world module keeps with a
room. -/
structure RoomHooks (R : Type) where
  hookSerialize : Option (Option R → List UInt8)
  hookDeserialize : Option (List UInt8 → Except Fault (Option R × List UInt8))

/-- `struct room_t`. -/
structure Room (R : Type) where
  id : Int32
  data : RoomHooks R
  name : CString
  desc : CString
  adjacent : List Int32
  objects : ObjTable
  verbs : VerbTable
  userdata : Option R

/-- What a world module supplies: its name, its classes and its rooms. -/
structure WorldModule (U R : Type) where
  worldName : CString
  objClasses : CString → Option (ObjHooks U)
  verbClasses : CString → Bool
  rooms : List (RoomHooks R)

/-- The static variables of `world.c`. -/
structure WorldData (R : Type) where
  world : List (Room R)
  worldName : CString
  verbMap : VerbTable
  /-- The index of the room an entry points to. -/
  worldMap : HashMap CString ℤ

section

variable {U R : Type}

/-- What `hook_serialize` writes; nothing if there is none. -/
def RoomHooks.serialize (d : RoomHooks R) (userdata : Option R) : List UInt8 :=
  match d.hookSerialize with
  | some hook => hook userdata
  | none => []

/-- What `hook_deserialize` reads; nothing if there is none. -/
def RoomHooks.deserialize (d : RoomHooks R) (s : List UInt8) :
    Except Fault (Option R × List UInt8) :=
  match d.hookDeserialize with
  | some hook => hook s
  | none => .ok (none, s)

/-! ## `verb.c` -/

/-- `verb_write`. -/
def verbWrite (verb : Verb) : List UInt8 := writeString verb.cls ++ writeString verb.name

/-- `verb_read`; `verb_new` calls `error` for a class that is not there. -/
def verbRead {σ : Type} (verbClasses : CString → Bool) : FileReader σ Verb := do
  let className ← readString
  if verbClasses className then do
    let name ← readString
    pure ⟨className, name⟩
  else fail .fatal

/-- One turn of the loops that read verbs: `error` is called if there is a verb of that name. -/
def readVerb {σ : Type} (verbClasses : CString → Bool) (asserts : Bool) (verbs : VerbTable) :
    FileReader σ VerbTable := do
  let verb ← verbRead verbClasses
  let r ← call (hashInsert (namesEnv asserts) verbs verb.name verb)
  if r.1.isNone then pure r.2 else fail .fatal

/-! ## Saving -/

variable (m : WorldModule U R) (h : ObjStore U)

/-- The object of a pair, if the pair is the one with the name of the object. -/
def namedObject (p : MultimapPair CString ℕ) : Except Fault (Option (StoredObject U)) :=
  match h.objects p.val with
  | some obj => .ok (if compareStrings p.key obj.name = 0 then some obj else none)
  | none => .error .useAfterFree

/-- `obj_count_noalias`. -/
def objCountNoalias (objects : ObjTable) : Except Fault UInt64 :=
  hashForEach objects.hashTab
    (fun n node => node.pairs.foldlM (fun n p => do
      let obj ← namedObject h p
      pure (if obj.isSome then n + 1 else n)) n) 0

/-- What the loop over the objects of a room, or of an inventory, writes. -/
def writeObjects (classes : CString → Option (ObjHooks U)) (objects : ObjTable) :
    Except Fault (List UInt8) :=
  hashForEach objects.hashTab
    (fun out node => node.pairs.foldlM (fun out p => do
      let obj ← namedObject h p
      match obj with
      | some obj => (objWrite classes obj).map (out ++ ·)
      | none => pure out) out) []

/-- What the loops over verbs write. -/
def writeVerbs (verbs : VerbTable) : Except Fault (List UInt8) :=
  hashForEach verbs (fun out node => .ok (out ++ verbWrite node.data)) []

/-- What `world_save` writes of a room. -/
def saveRoom (room : Room R) : Except Fault (List UInt8) := do
  let nObjects ← objCountNoalias h room.objects
  let objects ← writeObjects h m.objClasses room.objects
  let verbs ← writeVerbs room.verbs
  pure [writeRoomid room.id, writeString room.name, writeString room.desc,
    room.adjacent.flatMap writeRoomid, writeSize nObjects, objects,
    writeSize (hashSize room.verbs), verbs, room.data.serialize room.userdata].flatten

/-- What `world_save` writes of an entry of the map of rooms. -/
def saveEntry (world : List (Room R)) (node : HashNode CString ℤ) : Except Fault (List UInt8) :=
  if node.data < 0 then .error .outOfBounds
  else
    match world[node.data.toNat]? with
    | some room => .ok (writeString node.key ++ writeRoomid room.id)
    | none => .error .outOfBounds

/-- `world_save`: what is written.  The loop over the rooms counts with an `unsigned`. -/
def worldSave (w : WorldData R) : Except Fault (List UInt8) := do
  let globalVerbs ← (if hashSize w.verbMap ≠ 0 then writeVerbs w.verbMap else .ok [])
  let rooms ← (if w.world.length < unsignedRange then
      w.world.foldlM (fun out room => (saveRoom m h room).map (out ++ ·)) []
    else .error .endlessLoop)
  let entries ← hashForEach w.worldMap
    (fun out node => (saveEntry w.world node).map (out ++ ·)) []
  pure [writeUint32 WORLD_MAGIC, writeSize (UInt64.ofNat w.world.length), writeString w.worldName,
    writeSize (hashSize w.verbMap), globalVerbs, rooms, writeUint64 h.idcounter, entries].flatten

/-! ## Loading -/

variable (asserts : Bool) (junk : List UInt8)

/-- The ids in the bytes of an array. -/
def roomidsOf : ℕ → List UInt8 → List Int32
  | 0, _ => []
  | n + 1, bytes => roomidOf (bytes.take 4) :: roomidsOf n (bytes.drop 4)

/-- One turn of the loop of `world_load` over the rooms.  Whether all of `adjacent` has been read is
not tested; the array was zero. -/
def readRoom (i : ℕ) (world : List (Room R)) : FileReader (ObjStore U) (List (Room R)) :=
  match m.rooms[i]? with
  | none => fail .outOfBounds
  | some data => do
      let id ← readRoomid junk
      let name ← readString
      let desc ← readString
      let adjacent ← readOver (List.replicate (4 * NUM_DIRECTIONS) 0)
      let nObjects ← readSize
      let objects ← forUnsigned nObjects.toNat (fun _ => readObject m.objClasses asserts)
        (multimapInit 8)
      let nVerbs ← readSize
      let verbs ← forUnsigned nVerbs.toNat (fun _ => readVerb m.verbClasses asserts) (hashInit 8)
      let userdata ← ofFile data.deserialize
      let adjacent := roomidsOf NUM_DIRECTIONS adjacent
      pure (world ++ [{ id, data, name, desc, adjacent, objects, verbs, userdata }])

/-- One turn of the loop of `world_load` over the map of rooms.  That a name is there already is not
noticed. -/
def readEntry {σ : Type} (worldMap : HashMap CString ℤ) : FileReader σ (HashMap CString ℤ) := do
  let key ← readString
  let id ← readRoomid junk
  let r ← call (hashInsert (namesEnv asserts) worldMap key id.toInt)
  pure r.2

/-- `world_load` up to the loop over the map of rooms, of a file that can be opened, in a process that
has no world: `world_sz` is `0` before it is read.  The result is none where `world_load` returns
false. -/
def worldLoadRooms : FileReader (ObjStore U) (Option (WorldData R)) := do
  let magic ← readUint32
  if magic ≠ WORLD_MAGIC then fail .fatal
  else do
    let worldSz ← readOver (List.replicate 8 0)
    let worldSz := ofLittleEndian worldSz
    if worldSz ≠ m.rooms.length then pure none
    else do
      let worldName ← readString
      if compareStrings m.worldName worldName ≠ 0 then pure none
      else do
        lift fun h => .ok ((), { h with idcounter := 1 })
        let nGlobalVerbs ← readSize
        let verbMap ← forUnsigned nGlobalVerbs.toNat (fun _ => readVerb m.verbClasses asserts)
          (hashInit 32)
        let world ← forUnsigned worldSz (readRoom m asserts junk) []
        let idcounter ← readUint64
        lift fun h => .ok ((), { h with idcounter })
        pure (some { world, worldName, verbMap, worldMap := hashInit (worldSz * 2) })

/-- `world_load` from the loop over the map of rooms on, where `world_sz` is the number of rooms of
the world module. -/
def worldLoadMap {σ : Type} : Option (WorldData R) → FileReader σ (Option (WorldData R))
  | some w => do
      let worldMap ← forUnsigned m.rooms.length (fun _ => readEntry asserts junk) w.worldMap
      pure (some { w with worldMap })
  | none => pure none

/-- `world_load`. -/
def worldLoad : FileReader (ObjStore U) (Option (WorldData R)) := do
  let w ← worldLoadRooms m asserts junk
  worldLoadMap m asserts junk w

/-- `world_load`, in a process with the objects `h`: the world and the objects, or none where it
returns false. -/
def worldLoadFile (file : Option (List UInt8)) :
    Except Fault (Option (WorldData R) × ObjStore U) :=
  match file with
  | some s => (on (worldLoad m asserts junk) s h).map fun x => (x.1.1, x.2)
  | none => .ok (none, h)

end

end Storage

end NetCosm
