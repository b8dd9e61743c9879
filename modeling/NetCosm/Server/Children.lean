import NetCosm.Table.HashEntries
import NetCosm.Objects.World

/-!
# Children, and the rooms their users are in

The master keeps one `struct child_data` for every connection, in `child_map`, and one map
`users` in every room.  Where a user is, is kept twice: in `child->room`, and in the `users`
map of that room, under the name of the user.

## Memory

The key of an entry of `users` is the string `child->user` itself, and its datum is the
structure of the child.  A `UserName` is therefore a text and the place it is at, and a
child has an address.  `REQ_CHANGEUSER` frees the string and `hash_remove` of a child frees
its structure, and neither looks for the entry that may still point there.

## What is compared

`Membership` is what there is to say about children and rooms: which child has a pid, and
what is entered in a room under a name.  `Master.view` reads it off the tables, and every
operation below is read as an operation on it (`roomUserAdd_view`, and so on).

Hooks of rooms answer and change nothing.  The functions that only look at what a child is
doing (its state, its pipes, its watchers) are left out.
-/

namespace NetCosm

/-! ## The state of the master -/

/-- A string that is a user's name, and where it is. -/
structure UserName where
  text : CString
  addr : ℕ
  deriving DecidableEq

/-- `struct child_data`. -/
structure ChildData where
  /-- The address of the structure. -/
  addr : ℕ
  pid : UInt32
  room : RoomId
  user : Option UserName
  deriving DecidableEq

/-- `hash_djb` and `compare_strings`, on the names of users. -/
def usersEnv (asserts : Bool) : HashEnv UserName where
  hash user := hashDjb user.text
  compare a b := compareStrings a.text b.text
  asserts := asserts

/-- `pid_hash` and `pid_equal`. -/
def pidEnv (asserts : Bool) : HashEnv UInt32 where
  hash pid := pid
  compare a b := if a = b then 0 else 1
  asserts := asserts

/-- A hook that is asked whether a child may go from or to a room. -/
abbrev RoomHook := Option (RoomId → ChildData → Bool)

/-- A room that has no hook permits everything. -/
def RoomHook.permits (hook : RoomHook) (id : RoomId) (child : ChildData) : Bool :=
  match hook with
  | some h => h id child
  | none => true

/-- `struct room_t`: the exits, where `none` is `ROOM_NONE`, two hooks, and the users in the
room. -/
structure Room where
  adjacent : List (Option RoomId)
  hookEnter : RoomHook
  hookLeave : RoomHook
  users : HashMap UserName ℕ

/-- The children and the rooms of the server, and the next free address. -/
structure Master where
  childMap : HashMap UInt32 ChildData
  rooms : List Room
  fresh : ℕ

namespace Master

/-- `hash_lookup(child_map, &pid)`. -/
def child (asserts : Bool) (m : Master) (pid : UInt32) : Option ChildData :=
  hashLookup (pidEnv asserts) m.childMap pid

/-- Write to the structure of a child. -/
def setChild (asserts : Bool) (m : Master) (c : ChildData) : Master :=
  { m with childMap := hashSetData (pidEnv asserts) m.childMap c.pid c }

/-- Write to the map of a room. -/
def setUsers (m : Master) (id : RoomId) (users : HashMap UserName ℕ) : Master :=
  { m with rooms := m.rooms.modify id fun room => { room with users := users } }

/-- `room_get`, which does not check its index, and a read through the pointer it returns. -/
def roomGet (m : Master) (id : RoomId) : Except Fault Room :=
  match m.rooms[id]? with
  | some room => .ok room
  | none => .error .outOfBounds

end Master

/-! ## `room.c` -/

/-- `room_user_add`. -/
def roomUserAdd (asserts : Bool) (m : Master) (id : RoomId) (child : ChildData) :
    Except Fault (Bool × Master) :=
  match child.user with
  | some user => do
      let room ← m.roomGet id
      let r ← hashInsert (usersEnv asserts) room.users user child.addr
      .ok (r.1.isNone, m.setUsers id r.2)
  | none => .ok (false, m)

/-- `room_user_del`. -/
def roomUserDel (asserts : Bool) (m : Master) (id : RoomId) (child : ChildData) :
    Except Fault (Bool × Master) :=
  match child.user with
  | some user => do
      let room ← m.roomGet id
      let r := hashRemove (usersEnv asserts) room.users user
      .ok (r.1.isSome, m.setUsers id r.2)
  | none => .ok (false, m)

/-- `room_user_teleport`, which does not write to `child->room`. -/
def roomUserTeleport (asserts : Bool) (m : Master) (child : ChildData) (id : RoomId) :
    Except Fault Master :=
  if child.room ≠ id then do
    let r ← roomUserDel asserts m child.room child
    let r ← roomUserAdd asserts r.2 id child
    .ok r.2
  else .ok m

/-! ## `server_reqs.c` -/

/-- `req_change_user`: the old string is freed, and the new one is a copy. -/
def reqChangeUser (asserts : Bool) (m : Master) (sender : ChildData) (data : CString) : Master :=
  { m.setChild asserts { sender with user := some ⟨data, m.fresh⟩ } with fresh := m.fresh + 1 }

/-- `child_set_room`. -/
def childSetRoom (asserts : Bool) (m : Master) (child : ChildData) (id : RoomId) :
    Except Fault Master := do
  let child := { child with room := id }
  let r ← roomUserAdd asserts (m.setChild asserts child) id child
  .ok r.2

/-- `req_set_room`. -/
def reqSetRoom (asserts : Bool) (m : Master) (sender : ChildData) (id : RoomId) :
    Except Fault Master :=
  childSetRoom asserts m sender id

/-- `req_move_room`: a message for the sender, the status, and the master.  The direction
is not checked. -/
def reqMoveRoom (asserts : Bool) (m : Master) (sender : ChildData) (dir : ℕ) :
    Except Fault (Option String × Bool × Master) := do
  let current ← m.roomGet sender.room
  match current.adjacent[dir]? with
  | none => .error .outOfBounds
  | some none => .ok (some "You cannot go that way.\n", false, m)
  | some (some new) =>
      let newRoom ← m.roomGet new
      if newRoom.hookEnter.permits new sender && current.hookLeave.permits sender.room sender then
        let r ← roomUserDel asserts m sender.room sender
        let m ← childSetRoom asserts r.2 sender new
        .ok (none, true, m)
      else .ok (none, false, m)

/-! ## `server.c` -/

/-- `new_connection_cb`: a child without a name, in room 0. -/
def newConnection (asserts : Bool) (m : Master) (pid : UInt32) : Except Fault Master := do
  let r ← hashInsert (pidEnv asserts) m.childMap pid ⟨m.fresh, pid, 0, none⟩
  .ok { m with childMap := r.2, fresh := m.fresh + 1 }

/-- The body of the loop of `handle_disconnects`. -/
def handleDisconnect (asserts : Bool) (m : Master) (pid : UInt32) : Except Fault Master :=
  match m.child asserts pid with
  | none => .error .nullPointer
  | some child => do
      let r ← roomUserDel asserts m child.room child
      .ok { r.2 with childMap := (hashRemove (pidEnv asserts) r.2.childMap pid).2 }

/-- What changes where users are. -/
inductive ServerOp where
  | connect (pid : UInt32)
  | changeUser (pid : UInt32) (name : CString)
  | setRoom (pid : UInt32) (id : RoomId)
  | move (pid : UInt32) (dir : ℕ)
  /-- A world module teleports a child. -/
  | teleport (pid : UInt32) (id : RoomId)
  | disconnect (pid : UInt32)

/-- One operation.  A request from a pid that is not in the table is ignored. -/
def serverStep (asserts : Bool) (m : Master) (op : ServerOp) : Except Fault Master :=
  let withSender (pid : UInt32) (handler : ChildData → Except Fault Master) :=
    match m.child asserts pid with
    | some sender => handler sender
    | none => .ok m
  match op with
  | .connect pid => newConnection asserts m pid
  | .changeUser pid name => withSender pid fun sender => .ok (reqChangeUser asserts m sender name)
  | .setRoom pid id => withSender pid fun sender => reqSetRoom asserts m sender id
  | .move pid dir => withSender pid fun sender =>
      (reqMoveRoom asserts m sender dir).map fun r => r.2.2
  | .teleport pid id => withSender pid fun child => roomUserTeleport asserts m child id
  | .disconnect pid => handleDisconnect asserts m pid

/-! ## Membership -/

/-- Which child has a pid, and which string and child are entered in a room under a name. -/
@[ext] structure Membership where
  child : UInt32 → Option ChildData
  entry : RoomId → CString → Option (UserName × ℕ)

namespace Membership

/-- Another structure under its pid. -/
def setChild (v : Membership) (c : ChildData) : Membership :=
  { v with child := Function.update v.child c.pid (some c) }

/-- The child with this pid is gone. -/
def dropChild (v : Membership) (pid : UInt32) : Membership :=
  { v with child := Function.update v.child pid none }

/-- A child is entered in a room, if it has a name that is not entered yet. -/
def enter (v : Membership) (id : RoomId) (c : ChildData) : Membership :=
  match c.user with
  | some user =>
      { v with
        entry := fun i t =>
          if i = id ∧ t = user.text ∧ v.entry i t = none then some (user, c.addr)
          else v.entry i t }
  | none => v

/-- The name of a child is no longer entered in a room. -/
def leave (v : Membership) (id : RoomId) (c : ChildData) : Membership :=
  match c.user with
  | some user =>
      { v with entry := fun i t => if i = id ∧ t = user.text then none else v.entry i t }
  | none => v

end Membership

namespace Master

/-- The membership the tables of the master stand for. -/
def view (asserts : Bool) (m : Master) : Membership where
  child := m.child asserts
  entry id text :=
    match m.rooms[id]? with
    | some room => hashEntry (usersEnv asserts) room.users ⟨text, 0⟩
    | none => none

/-- Where a move leads: through an exit, if the hooks of both rooms permit it. -/
def moveTarget (m : Master) (sender : ChildData) (dir : ℕ) : Option RoomId :=
  match m.roomGet sender.room with
  | .error _ => none
  | .ok current =>
      match current.adjacent[dir]? with
      | some (some new) =>
          match m.roomGet new with
          | .error _ => none
          | .ok newRoom =>
              if newRoom.hookEnter.permits new sender &&
                current.hookLeave.permits sender.room sender then some new else none
      | _ => none

end Master

end NetCosm
