import NetCosm.Server.Membership
import NetCosm.Table.HashRefinement
import NetCosm.Text.Words

/-!
# Moves, and how often the hooks are asked

In `Server.Children` the hooks of a room only answer.  Here they are functions of a world module, which
may do something: a hook takes the memory of the module and returns its answer and the memory as it
leaves it.  What it does not touch are the rooms and the child, and `Moving.Server` keeps a log of the
calls, which the program does not have.

A hook is called in two places.  `req_move_room` asks whether the child may go; and `room_user_add` and
`room_user_del`, which "do not perform hook checking", call it again and throw the answer away.

## Main results

`reqMoveRoom_of_goes` and `reqMoveRoom_of_stays` say what a request does: `sender.room`, the maps of the
users, and the log.  `reqMoveRoom_once_iff` says when a move is made in one piece and asks nobody twice.
A hook that permits the move is asked twice; and the child is not entered in its new room when its name
is entered there for another child.
-/

namespace NetCosm

namespace Moving

/-! ## The state -/

/-- A hook that may be set: it answers, and leaves the memory of the world module in some state. -/
abbrev Hook (W : Type) := Option (RoomId → ChildData → W → Bool × W)

/-- `struct room_t`: the exits, where `none` is `ROOM_NONE`, two hooks, and the users in the
room. -/
structure Room (W : Type) where
  adjacent : List (Option RoomId)
  hookEnter : Hook W
  hookLeave : Hook W
  users : HashMap UserName ℕ

/-- A hook has been called for a room. -/
inductive HookCall where
  | enter (id : RoomId)
  | leave (id : RoomId)
  deriving DecidableEq

/-- The rooms, the child that has sent a request, the memory of the world module, and the calls of
hooks so far. -/
structure Server (W : Type) where
  rooms : List (Room W)
  sender : ChildData
  world : W
  calls : List HookCall

/-- What a request sends to the child, and the server it leaves. -/
structure Reply (W : Type) where
  /-- The argument of `send_msg`. -/
  text : Option String
  /-- What is sent with `REQ_MOVE`. -/
  status : Int32
  server : Server W

variable {W : Type}

/-- The answer of a hook, and the memory it leaves. -/
def Hook.ask (hook : Hook W) (id : RoomId) (child : ChildData) (w : W) : Bool × W :=
  match hook with
  | some h => h id child w
  | none => (true, w)

/-- The log of a hook that has been asked. -/
def Hook.logged (hook : Hook W) (call : HookCall) : List HookCall :=
  if hook.isSome then [call] else []

namespace Server

/-- `room_get`, which does not check its index, and a read through the pointer it returns. -/
def roomGet (s : Server W) (id : RoomId) : Except Fault (Room W) :=
  match s.rooms[id]? with
  | some room => .ok room
  | none => .error .outOfBounds

/-- Write to the map of a room. -/
def setUsers (s : Server W) (id : RoomId) (users : HashMap UserName ℕ) : Server W :=
  { s with rooms := s.rooms.modify id fun room => { room with users := users } }

/-- A hook is called, if it is set. -/
def call (s : Server W) (hook : Hook W) (call : HookCall) (id : RoomId) : Bool × Server W :=
  let r := hook.ask id s.sender s.world
  (r.1, { s with world := r.2, calls := s.calls ++ hook.logged call })

/-- Who is entered in a room under a name. -/
def entered (asserts : Bool) (s : Server W) (id : RoomId) (t : CString) : Option ℕ :=
  s.rooms[id]?.bind fun room => hashLookup (usersEnv asserts) room.users ⟨t, 0⟩

end Server

/-! ## `room.c` and `server_reqs.c` -/

/-- `room_user_add`, of the child that has sent the request. -/
def roomUserAdd (asserts : Bool) (s : Server W) (id : RoomId) : Except Fault (Bool × Server W) :=
  match s.sender.user with
  | some user => do
      let room ← s.roomGet id
      let r ← hashInsert (usersEnv asserts) room.users user s.sender.addr
      .ok (r.1.isNone, ((s.setUsers id r.2).call room.hookEnter (.enter id) id).2)
  | none => .ok (false, s)

/-- `room_user_del`, of the child that has sent the request. -/
def roomUserDel (asserts : Bool) (s : Server W) (id : RoomId) : Except Fault (Bool × Server W) :=
  match s.sender.user with
  | some user => do
      let room ← s.roomGet id
      let r := hashRemove (usersEnv asserts) room.users user
      .ok (r.1.isSome, ((s.setUsers id r.2).call room.hookLeave (.leave id) id).2)
  | none => .ok (false, s)

/-- `child_set_room`. -/
def childSetRoom (asserts : Bool) (s : Server W) (id : RoomId) : Except Fault (Server W) := do
  let r ← roomUserAdd asserts { s with sender := { s.sender with room := id } } id
  .ok r.2

/-- `req_move_room`.  The direction is not checked. -/
def reqMoveRoom (asserts : Bool) (s : Server W) (dir : ℕ) : Except Fault (Reply W) := do
  let current ← s.roomGet s.sender.room
  match current.adjacent[dir]? with
  | none => .error .outOfBounds
  | some none => .ok ⟨some "You cannot go that way.\n", 0, s⟩
  | some (some new) =>
      let newRoom ← s.roomGet new
      let enter := s.call newRoom.hookEnter (.enter new) new
      if enter.1 then
        let leave := enter.2.call current.hookLeave (.leave s.sender.room) s.sender.room
        if leave.1 then
          let r ← roomUserDel asserts leave.2 s.sender.room
          let s' ← childSetRoom asserts r.2 new
          .ok ⟨none, 1, s'⟩
        else .ok ⟨none, 0, leave.2⟩
      else .ok ⟨none, 0, enter.2⟩

/-! ## What a move is for -/

/-- Where the exit in a direction leads. -/
def Server.exit (s : Server W) (dir : ℕ) : Option RoomId :=
  s.rooms[s.sender.room]?.bind fun current => current.adjacent[dir]?.join

/-- The hook of the room the child goes to, and then that of the room it is in, permit the move. -/
def Server.permitted (s : Server W) (new : RoomId) : Bool :=
  match s.rooms[new]?, s.rooms[s.sender.room]? with
  | some newRoom, some current =>
      let enter := newRoom.hookEnter.ask new s.sender s.world
      enter.1 && (current.hookLeave.ask s.sender.room s.sender enter.2).1
  | _, _ => false

/-- A request to move leads to a room. -/
def Server.Goes (s : Server W) (dir : ℕ) (new : RoomId) : Prop :=
  s.exit dir = some new ∧ s.permitted new = true

/-- Who is entered where after a move: the child, in its new room and not in the old one. -/
def Server.moved (asserts : Bool) (s : Server W) (user : UserName) (new : RoomId) (id : RoomId)
    (t : CString) : Option ℕ :=
  if t = user.text ∧ id = new then some s.sender.addr
  else if t = user.text ∧ id = s.sender.room then none
  else s.entered asserts id t

/-- **A move is all or nothing, and asks each hook once.** -/
structure MovesOnce (asserts : Bool) (s : Server W) (user : UserName) (dir : ℕ) (r : Reply W) :
    Prop where
  goes : ∀ new, s.Goes dir new → r.status = 1 ∧ r.server.sender = { s.sender with room := new } ∧
    r.server.entered asserts = s.moved asserts user new
  stays : (∀ new, ¬ s.Goes dir new) → r.status = 0 ∧ r.server.sender = s.sender ∧
    r.server.rooms = s.rooms
  once : ∃ made, r.server.calls = s.calls ++ made ∧ ∀ new, s.exit dir = some new →
    made.count (.enter new) ≤ 1 ∧ made.count (.leave s.sender.room) ≤ 1

/-- The server as the program keeps it: rooms have twelve exits, which lead to rooms, and the maps of
the users can be used. -/
structure Server.Sound (asserts : Bool) (s : Server W) : Prop where
  room : s.sender.room < s.rooms.length
  exits : ∀ room ∈ s.rooms, room.adjacent.length = NUM_DIRECTIONS ∧
    ∀ id, some id ∈ room.adjacent → id < s.rooms.length
  placed : ∀ room ∈ s.rooms, room.users.WellPlaced (usersEnv asserts)
  counted : ∀ room ∈ s.rooms, room.users.Counted (usersEnv asserts)

/-- The map of the users of a room, once the child has left the room it is in. -/
def Server.usersLeft (asserts : Bool) (s : Server W) (user : UserName) (id : RoomId) (room : Room W) :
    HashMap UserName ℕ :=
  if id = s.sender.room then (hashRemove (usersEnv asserts) room.users user).2 else room.users

/-- Nobody is asked twice, the name is not taken, and the map of the new room can take it in. -/
structure Server.Quiet (asserts : Bool) (s : Server W) (user : UserName) (new : RoomId) : Prop where
  enter : ∀ room, s.rooms[new]? = some room → room.hookEnter = none
  leave : ∀ room, s.rooms[s.sender.room]? = some room → room.hookLeave = none
  free : ∀ a, s.entered asserts new user.text = some a → new = s.sender.room ∨ a = s.sender.addr
  ends : ∀ room, s.rooms[new]? = some room →
    InsertEnds (usersEnv asserts) (s.usersLeft asserts user new room) user s.sender.addr

/-! ## Calls of hooks, and writes to the maps -/

section Steps

variable {asserts : Bool} {s : Server W} {hook : Hook W} {c : HookCall} {id : RoomId}

@[simp] theorem rooms_call : (s.call hook c id).2.rooms = s.rooms := rfl

@[simp] theorem sender_call : (s.call hook c id).2.sender = s.sender := rfl

@[simp] theorem calls_call : (s.call hook c id).2.calls = s.calls ++ hook.logged c := rfl

@[simp] theorem entered_call : (s.call hook c id).2.entered asserts = s.entered asserts := rfl

@[simp] theorem logged_none : Hook.logged (none : Hook W) c = [] := rfl

theorem logged_of_ne_none (h : hook ≠ none) : hook.logged c = [c] :=
  if_pos (Option.isSome_iff_ne_none.mpr h)

theorem count_logged_le {c' : HookCall} : (hook.logged c).count c' ≤ 1 := by
  cases hook with
  | none => exact Nat.zero_le _
  | some h => exact List.count_le_length

theorem count_logged_of_ne {c' : HookCall} (h : c ≠ c') : (hook.logged c).count c' = 0 := by
  cases hook with
  | none => rfl
  | some f => exact List.count_eq_zero.mpr fun hm => h (List.mem_singleton.mp hm).symm

theorem roomGet_of_getElem {room : Room W} (h : s.rooms[id]? = some room) :
    s.roomGet id = .ok room := by
  rw [Server.roomGet, h]

theorem entered_of_getElem {room : Room W} (h : s.rooms[id]? = some room) (t : CString) :
    s.entered asserts id t = hashLookup (usersEnv asserts) room.users ⟨t, 0⟩ := by
  rw [Server.entered, h]
  rfl

/-- A room after a write to the map of a room. -/
theorem rooms_setUsers {users : HashMap UserName ℕ} (i : RoomId) :
    (s.setUsers id users).rooms[i]? =
      if i = id then s.rooms[id]?.map fun room => { room with users := users } else s.rooms[i]? := by
  rw [Server.setUsers, List.getElem?_modify]
  by_cases h : i = id
  · subst h
    simp
  · simp [h, Ne.symm h]

/-- Who is entered after a write to the map of a room. -/
theorem entered_setUsers {room : Room W} (h : s.rooms[id]? = some room)
    {users : HashMap UserName ℕ} (i : RoomId) (t : CString) :
    (s.setUsers id users).entered asserts i t =
      if i = id then hashLookup (usersEnv asserts) users ⟨t, 0⟩ else s.entered asserts i t := by
  rw [Server.entered, rooms_setUsers]
  by_cases hi : i = id
  · rw [if_pos hi, if_pos hi, h]
    rfl
  · rw [if_neg hi, if_neg hi]
    rfl

theorem Server.Sound.get (hs : s.Sound asserts) : ∃ room, s.rooms[s.sender.room]? = some room :=
  ⟨_, List.getElem?_eq_getElem hs.room⟩

/-- Writing a map that can be used keeps a server sound. -/
theorem Server.Sound.setUsers (hs : s.Sound asserts) {users : HashMap UserName ℕ}
    (hp : users.WellPlaced (usersEnv asserts)) (hc : users.Counted (usersEnv asserts)) :
    (s.setUsers id users).Sound asserts := by
  have hlen : (s.setUsers id users).rooms.length = s.rooms.length := List.length_modify ..
  have hroom : ∀ room ∈ (s.setUsers id users).rooms, ∃ old ∈ s.rooms,
      room = old ∨ room = { old with users := users } := by
    intro room hmem
    obtain ⟨i, hi, rfl⟩ := List.mem_iff_getElem.mp hmem
    simp only [Server.setUsers, List.getElem_modify]
    simp only [Server.setUsers, List.length_modify] at hi
    refine ⟨s.rooms[i], List.getElem_mem hi, ?_⟩
    split
    · exact Or.inr rfl
    · exact Or.inl rfl
  refine ⟨hlen ▸ hs.room, fun room hmem => ?_, fun room hmem => ?_, fun room hmem => ?_⟩
  · rw [hlen]
    obtain ⟨old, hold, rfl | rfl⟩ := hroom room hmem
    · exact hs.exits room hold
    · exact hs.exits old hold
  · obtain ⟨old, hold, rfl | rfl⟩ := hroom room hmem
    · exact hs.placed room hold
    · exact hp
  · obtain ⟨old, hold, rfl | rfl⟩ := hroom room hmem
    · exact hs.counted room hold
    · exact hc

/-- The child may be in any room. -/
theorem Server.Sound.setSender (hs : s.Sound asserts) {new : RoomId} (h : new < s.rooms.length) :
    ({ s with sender := { s.sender with room := new } } : Server W).Sound asserts :=
  ⟨h, hs.exits, hs.placed, hs.counted⟩

theorem Server.Sound.call (hs : s.Sound asserts) : (s.call hook c id).2.Sound asserts :=
  ⟨hs.room, hs.exits, hs.placed, hs.counted⟩

end Steps

/-! ## What the functions of `room.c` do -/

section Primitives

variable {asserts : Bool} {s : Server W} {user : UserName} {id : RoomId} {room : Room W}

/-- **`room_user_del`** takes the name out, and calls the hook. -/
theorem roomUserDel_spec (hs : s.Sound asserts) (hu : s.sender.user = some user)
    (hroom : s.rooms[id]? = some room) :
    ∃ b s', roomUserDel asserts s id = .ok (b, s') ∧ s'.Sound asserts ∧ s'.sender = s.sender ∧
      (∀ i, s'.rooms[i]? = if i = id then some { room with
        users := (hashRemove (usersEnv asserts) room.users user).2 } else s.rooms[i]?) ∧
      s'.calls = s.calls ++ room.hookLeave.logged (.leave id) ∧
      ∀ i t, s'.entered asserts i t =
        if t = user.text ∧ i = id then none else s.entered asserts i t := by
  have hmem := List.mem_of_getElem? hroom
  obtain ⟨-, hplaced, hentries⟩ := hashRemove_entries (compatible_usersEnv asserts)
    (hs.placed room hmem) user
  have hcounted := counted_hashRemove (hs.counted room hmem) user
  refine ⟨(hashRemove (usersEnv asserts) room.users user).1.isSome,
    ((s.setUsers id (hashRemove (usersEnv asserts) room.users user).2).call room.hookLeave
      (.leave id) id).2, ?_, (hs.setUsers hplaced hcounted).call, rfl, fun i => ?_, rfl,
    fun i t => ?_⟩
  · rw [roomUserDel, hu]
    simp only [roomGet_of_getElem hroom]
    rfl
  · rw [rooms_call, rooms_setUsers, hroom]
    rfl
  · rw [entered_call, entered_setUsers hroom, hashLookup_eq_map, hentries]
    simp only [usersEnv_same_iff]
    by_cases hi : i = id
    · subst hi
      rw [if_pos rfl, entered_of_getElem hroom, hashLookup_eq_map]
      by_cases ht : t = user.text
      · rw [if_pos ht, if_pos ⟨ht, rfl⟩]
        rfl
      · rw [if_neg ht, if_neg fun h => ht h.1]
    · rw [if_neg hi, if_neg fun h => hi h.2]

/-- **`room_user_add`** puts the name in unless it is there, and calls the hook. -/
theorem roomUserAdd_spec (hs : s.Sound asserts) (hu : s.sender.user = some user)
    (hroom : s.rooms[id]? = some room)
    (hends : InsertEnds (usersEnv asserts) room.users user s.sender.addr) :
    ∃ b s', roomUserAdd asserts s id = .ok (b, s') ∧ s'.Sound asserts ∧ s'.sender = s.sender ∧
      s'.calls = s.calls ++ room.hookEnter.logged (.enter id) ∧
      ∀ i t, s'.entered asserts i t =
        if t = user.text ∧ i = id ∧ s.entered asserts i t = none then some s.sender.addr
        else s.entered asserts i t := by
  have hmem := List.mem_of_getElem? hroom
  obtain ⟨users, hins, hplaced, hcounted, hentries⟩ := hashInsert_of_ends
    (compatible_usersEnv asserts) (hs.placed room hmem) (hs.counted room hmem) hends
  refine ⟨(hashLookup (usersEnv asserts) room.users user).isNone,
    ((s.setUsers id users).call room.hookEnter (.enter id) id).2, ?_,
    (hs.setUsers hplaced hcounted).call, rfl, rfl, fun i t => ?_⟩
  · rw [roomUserAdd, hu]
    simp only [roomGet_of_getElem hroom]
    show (hashInsert (usersEnv asserts) room.users user s.sender.addr >>= _) = _
    rw [hins]
    rfl
  · rw [entered_call, entered_setUsers hroom, hashLookup_eq_map, hentries]
    simp only [usersEnv_same_iff]
    by_cases hi : i = id
    · subst hi
      rw [if_pos rfl, entered_of_getElem hroom, hashLookup_eq_map]
      by_cases ht : t = user.text
      · cases hashEntry (usersEnv asserts) room.users ⟨t, 0⟩ with
        | none => simp [ht]
        | some e => simp
      · simp [ht]
    · simp [hi]

/-- A map that cannot take the name in is grown for ever. -/
theorem roomUserAdd_stops (hu : s.sender.user = some user) (hroom : s.rooms[id]? = some room)
    (hends : ¬ InsertEnds (usersEnv asserts) room.users user s.sender.addr) :
    roomUserAdd asserts s id = .error .endlessLoop := by
  rw [roomUserAdd, hu]
  simp only [roomGet_of_getElem hroom]
  show (hashInsert (usersEnv asserts) room.users user s.sender.addr >>= _) = _
  rw [hashInsert_stops hends]
  rfl

end Primitives

/-! ## What a request to move does -/

section Requests

variable {asserts : Bool} {s : Server W} {user : UserName} {dir : ℕ} {new : RoomId}

/-- In a direction there is an exit, which leads to a room, or none. -/
theorem exists_exit (hs : s.Sound asserts) (hdir : dir < NUM_DIRECTIONS) :
    ∃ current, s.rooms[s.sender.room]? = some current ∧
      current.adjacent[dir]? = some (s.exit dir) ∧
      ∀ new, s.exit dir = some new → ∃ newRoom, s.rooms[new]? = some newRoom := by
  obtain ⟨current, hcurrent⟩ := hs.get
  obtain ⟨hlen, hexits⟩ := hs.exits current (List.mem_of_getElem? hcurrent)
  have hget := List.getElem?_eq_getElem (hlen ▸ hdir : dir < current.adjacent.length)
  have hexit : s.exit dir = current.adjacent[dir] := by
    rw [Server.exit, hcurrent, Option.bind_some, hget]
    rfl
  refine ⟨current, hcurrent, hget.trans (congrArg some hexit.symm), fun new hnew => ?_⟩
  have hlt := hexits new (hnew ▸ hexit ▸ List.getElem_mem _)
  exact ⟨_, List.getElem?_eq_getElem hlt⟩

theorem permitted_eq {current newRoom : Room W} (hcurrent : s.rooms[s.sender.room]? = some current)
    (hnew : s.rooms[new]? = some newRoom) :
    s.permitted new = ((newRoom.hookEnter.ask new s.sender s.world).1 &&
      (current.hookLeave.ask s.sender.room s.sender
        (newRoom.hookEnter.ask new s.sender s.world).2).1) := by
  rw [Server.permitted, hnew, hcurrent]

/-- **A child that does not go stays**, and no hook has been asked twice. -/
theorem reqMoveRoom_of_stays (hs : s.Sound asserts) (hdir : dir < NUM_DIRECTIONS)
    (hstays : ∀ new, ¬ s.Goes dir new) :
    ∃ r, reqMoveRoom asserts s dir = .ok r ∧ r.status = 0 ∧ r.server.sender = s.sender ∧
      r.server.rooms = s.rooms ∧ r.server.Sound asserts ∧
      ∃ made, r.server.calls = s.calls ++ made ∧
        ∀ new, made.count (.enter new) ≤ 1 ∧ made.count (.leave s.sender.room) ≤ 1 := by
  obtain ⟨current, hcurrent, hadj, hexits⟩ := exists_exit hs hdir
  rw [reqMoveRoom, roomGet_of_getElem hcurrent, ok_bind, hadj]
  cases hexit : s.exit dir with
  | none => exact ⟨_, rfl, rfl, rfl, rfl, hs, [], (List.append_nil _).symm, by simp⟩
  | some new =>
    obtain ⟨newRoom, hnew⟩ := hexits new hexit
    have hno : s.permitted new = false := by
      rw [← Bool.not_eq_true]
      exact fun h => hstays new ⟨hexit, h⟩
    rw [permitted_eq hcurrent hnew] at hno
    dsimp only
    rw [roomGet_of_getElem hnew, ok_bind]
    show ∃ r, (if (newRoom.hookEnter.ask new s.sender s.world).1 = true then
        if (current.hookLeave.ask s.sender.room s.sender
          (newRoom.hookEnter.ask new s.sender s.world).2).1 = true then _ else _ else _) =
      Except.ok r ∧ _
    by_cases henter : (newRoom.hookEnter.ask new s.sender s.world).1 = true
    · rw [henter, Bool.true_and] at hno
      rw [if_pos henter, if_neg (by rw [hno]; exact Bool.false_ne_true)]
      refine ⟨_, rfl, rfl, rfl, rfl, hs.call.call, newRoom.hookEnter.logged (.enter new) ++
        current.hookLeave.logged (.leave s.sender.room), by simp, fun i => ?_⟩
      have henters : (newRoom.hookEnter.logged (.enter new)).count (.leave s.sender.room) = 0 :=
        count_logged_of_ne (by simp)
      have hleaves : (current.hookLeave.logged (.leave s.sender.room)).count (.enter i) = 0 :=
        count_logged_of_ne (by simp)
      rw [List.count_append, List.count_append, henters, hleaves, Nat.add_zero, Nat.zero_add]
      exact ⟨count_logged_le, count_logged_le⟩
    · rw [if_neg henter]
      refine ⟨_, rfl, rfl, rfl, rfl, hs.call, newRoom.hookEnter.logged (.enter new), by simp,
        fun i => ⟨count_logged_le, count_logged_le⟩⟩

/-- **A child that goes**: the body of the request after both hooks have permitted it. -/
theorem reqMoveRoom_of_permitted {current newRoom : Room W} (hs : s.Sound asserts)
    (hdir : dir < NUM_DIRECTIONS) (hgoes : s.Goes dir new)
    (hcurrent : s.rooms[s.sender.room]? = some current) (hnew : s.rooms[new]? = some newRoom) :
    ∃ asked : Server W, asked.Sound asserts ∧ asked.sender = s.sender ∧ asked.rooms = s.rooms ∧
      asked.calls = s.calls ++ (newRoom.hookEnter.logged (.enter new) ++
        current.hookLeave.logged (.leave s.sender.room)) ∧
      reqMoveRoom asserts s dir = (do
        let r ← roomUserDel asserts asked s.sender.room
        let s' ← childSetRoom asserts r.2 new
        .ok ⟨none, 1, s'⟩) := by
  obtain ⟨current', hcurrent', hadj, -⟩ := exists_exit hs hdir
  obtain rfl := Option.some.inj (hcurrent.symm.trans hcurrent')
  have hasked := hgoes.2
  rw [permitted_eq hcurrent hnew, Bool.and_eq_true_iff] at hasked
  refine ⟨((s.call newRoom.hookEnter (.enter new) new).2.call current.hookLeave
    (.leave s.sender.room) s.sender.room).2, hs.call.call, rfl, rfl, by simp, ?_⟩
  rw [reqMoveRoom, roomGet_of_getElem hcurrent, ok_bind, hadj, hgoes.1]
  dsimp only
  rw [roomGet_of_getElem hnew, ok_bind]
  show (if (newRoom.hookEnter.ask new s.sender s.world).1 = true then
      if (current.hookLeave.ask s.sender.room s.sender
        (newRoom.hookEnter.ask new s.sender s.world).2).1 = true then _ else _ else _) = _
  rw [if_pos hasked.1, if_pos hasked.2]

/-- The room a child enters, which may be the one it has just left. -/
theorem exists_room_left {current newRoom : Room W} {left : Server W}
    (hcurrent : s.rooms[s.sender.room]? = some current) (hnew : s.rooms[new]? = some newRoom)
    (hleft : ∀ i, left.rooms[i]? = if i = s.sender.room then some { current with
      users := (hashRemove (usersEnv asserts) current.users user).2 } else s.rooms[i]?) :
    ∃ room, left.rooms[new]? = some room ∧ room.users = s.usersLeft asserts user new newRoom ∧
      room.hookEnter = newRoom.hookEnter := by
  rw [hleft, Server.usersLeft]
  by_cases hself : new = s.sender.room
  · obtain rfl := Option.some.inj ((hself ▸ hnew).symm.trans hcurrent)
    rw [if_pos hself, if_pos hself]
    exact ⟨_, rfl, rfl, rfl⟩
  · rw [if_neg hself, if_neg hself]
    exact ⟨newRoom, hnew, rfl, rfl⟩

/-- **A child that goes is in its new room**, and every hook has been asked twice. -/
theorem reqMoveRoom_of_goes {current newRoom : Room W} (hs : s.Sound asserts)
    (hu : s.sender.user = some user) (hdir : dir < NUM_DIRECTIONS) (hgoes : s.Goes dir new)
    (hcurrent : s.rooms[s.sender.room]? = some current) (hnew : s.rooms[new]? = some newRoom)
    (hends : InsertEnds (usersEnv asserts) (s.usersLeft asserts user new newRoom) user
      s.sender.addr) :
    ∃ r, reqMoveRoom asserts s dir = .ok r ∧ r.status = 1 ∧
      r.server.sender = { s.sender with room := new } ∧ r.server.Sound asserts ∧
      r.server.calls = s.calls ++ (newRoom.hookEnter.logged (.enter new) ++
        current.hookLeave.logged (.leave s.sender.room) ++
        current.hookLeave.logged (.leave s.sender.room) ++
        newRoom.hookEnter.logged (.enter new)) ∧
      ∀ i t, r.server.entered asserts i t =
        if t = user.text ∧ i = new ∧ (new = s.sender.room ∨ s.entered asserts i t = none) then
          some s.sender.addr
        else if t = user.text ∧ i = s.sender.room then none else s.entered asserts i t := by
  obtain ⟨asked, hsound, hsender, hrooms, hcalls, heq⟩ :=
    reqMoveRoom_of_permitted hs hdir hgoes hcurrent hnew
  have hentered : ∀ i t, asked.entered asserts i t = s.entered asserts i t := fun i t => by
    rw [Server.entered, Server.entered, hrooms]
  obtain ⟨b, left, hdel, hleft, hleftSender, hleftRooms, hleftCalls, hleftEntered⟩ :=
    roomUserDel_spec hsound (hsender ▸ hu) (hrooms ▸ hcurrent)
  rw [hrooms] at hleftRooms
  obtain ⟨room, hroom, husers, hhook⟩ := exists_room_left hcurrent hnew hleftRooms
  have hmoved := hleft.setSender (List.getElem?_eq_some_iff.mp hroom).1
  obtain ⟨b', s', hadd, hs', hsender', hcalls', hentered'⟩ := roomUserAdd_spec hmoved
    (show ({ left.sender with room := new } : ChildData).user = some user by
      rw [hleftSender, hsender, hu]) hroom (by rw [husers, hleftSender, hsender]; exact hends)
  refine ⟨⟨none, 1, s'⟩, ?_, rfl, ?_, hs', ?_, fun i t => ?_⟩
  · rw [heq]
    show (roomUserDel asserts asked s.sender.room >>= _) = _
    rw [hdel]
    show (childSetRoom asserts left new >>= _) = _
    rw [childSetRoom, hadd]
    rfl
  · rw [hsender', hleftSender, hsender]
  · rw [hcalls', hleftCalls, hcalls, hhook]
    simp
  · have hold : (left.entered asserts i t) =
        if t = user.text ∧ i = s.sender.room then none else s.entered asserts i t := by
      rw [hleftEntered, hentered]
    rw [hentered']
    show (if t = user.text ∧ i = new ∧ left.entered asserts i t = none then
      some left.sender.addr else left.entered asserts i t) = _
    rw [hold, hleftSender, hsender]
    by_cases ht : t = user.text
    · by_cases hi : i = new
      · by_cases hself : new = s.sender.room
        · simp [ht, hi, hself]
        · simp [ht, hi, hself]
      · simp [hi]
    · simp [ht]

/-- A child whose new room cannot take it in is never answered. -/
theorem reqMoveRoom_stops {current newRoom : Room W} (hs : s.Sound asserts)
    (hu : s.sender.user = some user) (hdir : dir < NUM_DIRECTIONS) (hgoes : s.Goes dir new)
    (hcurrent : s.rooms[s.sender.room]? = some current) (hnew : s.rooms[new]? = some newRoom)
    (hends : ¬ InsertEnds (usersEnv asserts) (s.usersLeft asserts user new newRoom) user
      s.sender.addr) :
    reqMoveRoom asserts s dir = .error .endlessLoop := by
  obtain ⟨asked, hsound, hsender, hrooms, -, heq⟩ :=
    reqMoveRoom_of_permitted hs hdir hgoes hcurrent hnew
  obtain ⟨b, left, hdel, -, hleftSender, hleftRooms, -, -⟩ :=
    roomUserDel_spec hsound (hsender ▸ hu) (hrooms ▸ hcurrent)
  rw [hrooms] at hleftRooms
  obtain ⟨room, hroom, husers, -⟩ := exists_room_left hcurrent hnew hleftRooms
  have hadd : roomUserAdd asserts ({ left with sender := { left.sender with room := new } }) new =
      .error .endlessLoop := by
    have hname : ({ left.sender with room := new } : ChildData).user = some user := by
      rw [hleftSender, hsender, hu]
    have hfull : ¬ InsertEnds (usersEnv asserts) room.users user left.sender.addr := by
      rwa [husers, hleftSender, hsender]
    exact roomUserAdd_stops hname hroom hfull
  rw [heq]
  show (roomUserDel asserts asked s.sender.room >>= _) = _
  rw [hdel]
  show (childSetRoom asserts left new >>= _) = _
  rw [childSetRoom, hadd]
  rfl

/-- **Every run of requests keeps a server sound.** -/
theorem sound_reqMoveRoom (hs : s.Sound asserts) (hu : s.sender.user = some user)
    (hdir : dir < NUM_DIRECTIONS) {r : Reply W} (h : reqMoveRoom asserts s dir = .ok r) :
    r.server.Sound asserts ∧ r.server.sender.user = some user := by
  by_cases hgoes : ∃ new, s.Goes dir new
  · obtain ⟨new, hgoes⟩ := hgoes
    obtain ⟨current, hcurrent, -, hexits⟩ := exists_exit hs hdir
    obtain ⟨newRoom, hnew⟩ := hexits new hgoes.1
    by_cases hends : InsertEnds (usersEnv asserts) (s.usersLeft asserts user new newRoom) user
        s.sender.addr
    · obtain ⟨r', hr', -, hsender, hsound, -⟩ :=
        reqMoveRoom_of_goes hs hu hdir hgoes hcurrent hnew hends
      obtain rfl := Except.ok.inj (h.symm.trans hr')
      exact ⟨hsound, by rw [hsender, hu]⟩
    · rw [reqMoveRoom_stops hs hu hdir hgoes hcurrent hnew hends] at h
      exact absurd h (by simp)
  · obtain ⟨r', hr', -, hsender, -, hsound, -⟩ :=
      reqMoveRoom_of_stays hs hdir (not_exists.mp hgoes)
    obtain rfl := Except.ok.inj (h.symm.trans hr')
    exact ⟨hsound, by rw [hsender, hu]⟩

/-- A hook that is called twice has been called more than once. -/
theorem two_le_count (enter leave : Hook W) (e l : HookCall) :
    (enter ≠ none → 2 ≤ (enter.logged e ++ leave.logged l ++ leave.logged l ++
      enter.logged e).count e) ∧
    (leave ≠ none → 2 ≤ (enter.logged e ++ leave.logged l ++ leave.logged l ++
      enter.logged e).count l) := by
  constructor
  · intro h
    rw [logged_of_ne_none h]
    simp only [List.count_append, List.count_singleton_self]
    omega
  · intro h
    rw [logged_of_ne_none h]
    simp only [List.count_append, List.count_singleton_self]
    omega

/-- **A move is made in one piece, and asks nobody twice**, exactly when, if the child goes, neither
room has a hook, and its name is not entered for another child where it goes. -/
theorem reqMoveRoom_once_iff (asserts : Bool) (s : Server W) (user : UserName) (dir : ℕ)
    (hs : s.Sound asserts) (hu : s.sender.user = some user) (hdir : dir < NUM_DIRECTIONS) :
    (∃ r, reqMoveRoom asserts s dir = .ok r ∧ MovesOnce asserts s user dir r) ↔
      ∀ new, s.Goes dir new → s.Quiet asserts user new := by
  constructor
  · rintro ⟨r, hr, hmove⟩ new hgoes
    obtain ⟨current, hcurrent, -, hexits⟩ := exists_exit hs hdir
    obtain ⟨newRoom, hnew⟩ := hexits new hgoes.1
    have hends : InsertEnds (usersEnv asserts) (s.usersLeft asserts user new newRoom) user
        s.sender.addr := by
      by_contra hends
      rw [reqMoveRoom_stops hs hu hdir hgoes hcurrent hnew hends] at hr
      exact absurd hr (by simp)
    obtain ⟨r', hr', -, -, -, hcalls, hentered⟩ :=
      reqMoveRoom_of_goes hs hu hdir hgoes hcurrent hnew hends
    obtain rfl := Except.ok.inj (hr.symm.trans hr')
    obtain ⟨made, hmade, hcount⟩ := hmove.once
    obtain ⟨henter, hleave⟩ := hcount new hgoes.1
    obtain rfl := List.append_cancel_left (hmade.symm.trans hcalls)
    refine ⟨fun room hroom => ?_, fun room hroom => ?_, fun a ha => ?_, fun room hroom => ?_⟩
    · obtain rfl := Option.some.inj (hroom.symm.trans hnew)
      by_contra hne
      have htwo := (two_le_count room.hookEnter current.hookLeave (.enter new)
        (.leave s.sender.room)).1 hne
      omega
    · obtain rfl := Option.some.inj (hroom.symm.trans hcurrent)
      by_contra hne
      have htwo := (two_le_count newRoom.hookEnter room.hookLeave (.enter new)
        (.leave s.sender.room)).2 hne
      omega
    · by_cases hself : new = s.sender.room
      · exact Or.inl hself
      · have heq := (hmove.goes new hgoes).2.2
        have hat := congrFun (congrFun heq new) user.text
        rw [hentered, if_neg (by simp [hself, ha]), if_neg fun h => hself h.2, ha, Server.moved,
          if_pos ⟨rfl, rfl⟩] at hat
        exact Or.inr (Option.some.inj hat)
    · obtain rfl := Option.some.inj (hroom.symm.trans hnew)
      exact hends
  · intro hquiet
    by_cases hgoes : ∃ new, s.Goes dir new
    · obtain ⟨new, hgoes⟩ := hgoes
      obtain ⟨current, hcurrent, -, hexits⟩ := exists_exit hs hdir
      obtain ⟨newRoom, hnew⟩ := hexits new hgoes.1
      have hq := hquiet new hgoes
      obtain ⟨r, hr, hstatus, hsender, -, hcalls, hentered⟩ :=
        reqMoveRoom_of_goes hs hu hdir hgoes hcurrent hnew (hq.ends newRoom hnew)
      rw [hq.enter newRoom hnew, hq.leave current hcurrent] at hcalls
      refine ⟨r, hr, fun new' hgoes' => ?_, fun hno => absurd hgoes (hno new), [], hcalls, by simp⟩
      obtain rfl := Option.some.inj (hgoes.1.symm.trans hgoes'.1)
      refine ⟨hstatus, hsender, funext fun i => funext fun t => ?_⟩
      rw [hentered, Server.moved]
      by_cases hat : t = user.text ∧ i = new
      · obtain ⟨rfl, rfl⟩ := hat
        by_cases hself : i = s.sender.room
        · simp [hself]
        · cases ha : s.entered asserts i user.text with
          | none => simp
          | some a =>
            obtain rfl := (hq.free a ha).resolve_left hself
            simp [hself]
      · rw [if_neg fun h => hat ⟨h.1, h.2.1⟩, if_neg hat]
    · obtain ⟨r, hr, hstatus, hsender, hrooms, -, made, hmade, hcount⟩ :=
        reqMoveRoom_of_stays hs hdir (not_exists.mp hgoes)
      exact ⟨r, hr, fun new hgoes' => absurd ⟨new, hgoes'⟩ hgoes, fun _ => ⟨hstatus, hsender, hrooms⟩,
        made, hmade, fun new _ => hcount new⟩

end Requests

/-! ## A gate -/

/-- Twelve exits, of which the first may lead somewhere. -/
def northTo (exit : Option RoomId) : List (Option RoomId) :=
  exit :: List.replicate 11 none

/-- A name, and the child that has it. -/
def visitor : UserName := ⟨CString.ofChars "ann".toList, 7⟩

/-- Two rooms, of which the second may have a hook that is asked before somebody enters, and a visitor in
the first. -/
def gatehouse (hook : Hook ℕ) : Server ℕ where
  rooms := [⟨northTo (some 1), none, none,
      appendNode (HashMap.fresh 1) visitor 5 ((usersEnv true).bucket visitor 1)⟩,
    ⟨northTo none, hook, none, HashMap.fresh 1⟩]
  sender := ⟨5, 40, 0, some visitor⟩
  world := 0
  calls := []

theorem sound_gatehouse (hook : Hook ℕ) : (gatehouse hook).Sound true := by
  have hfresh : (HashMap.fresh 1 : HashMap UserName ℕ).WellPlaced (usersEnv true) :=
    wellPlaced_fresh _ Nat.one_pos
  have hempty : (HashMap.fresh 1 : HashMap UserName ℕ).Counted (usersEnv true) :=
    fun _ => (sane_fresh 1).entries
  have hbucket : (usersEnv true).bucket visitor 1 = 0 := Nat.mod_one _
  refine ⟨show 0 < 2 by decide, ?_, ?_, ?_⟩
  all_goals
    rintro room (_ | ⟨_, _ | ⟨_, hnil⟩⟩)
  · exact ⟨rfl, fun id hid => by simp [northTo] at hid; simp [gatehouse, hid]⟩
  · exact ⟨rfl, fun id hid => by simp [northTo] at hid⟩
  · exact absurd hnil List.not_mem_nil
  · exact wellPlaced_appendNode (compatible_usersEnv true).equiv hfresh
      (by simp [hashLookup]) 5
  · exact hfresh
  · exact absurd hnil List.not_mem_nil
  · exact counted_appendNode hempty (by rw [hbucket]; decide) visitor 5
  · exact hempty
  · exact absurd hnil List.not_mem_nil

/-- A visitor walks through a gate where nobody asks. -/
theorem gatehouse_open :
    ∃ r, reqMoveRoom true (gatehouse none) 0 = .ok r ∧
      MovesOnce true (gatehouse none) visitor 0 r := by
  refine (reqMoveRoom_once_iff true (gatehouse none) visitor 0 (sound_gatehouse none) rfl
    (by decide)).mpr fun new hgoes => ?_
  obtain rfl : 1 = new := Option.some.inj hgoes.1
  exact ⟨fun room hroom => by rw [← Option.some.inj hroom],
    fun room hroom => by rw [← Option.some.inj hroom],
    fun a ha => absurd (ha.symm.trans (by decide : _ = none)) (by simp), fun room hroom _ _ => by
      rw [← Option.some.inj hroom]
      decide⟩

/-- The gatekeeper lets everybody pass, and counts. -/
def gatekeeper : Hook ℕ := some fun _ _ passed => (true, passed + 1)

/-- **Somebody who walks through a gate is counted twice.** -/
theorem gatekeeper_asked_twice :
    (gatehouse gatekeeper).Sound true ∧
      ¬ ∃ r, reqMoveRoom true (gatehouse gatekeeper) 0 = .ok r ∧
        MovesOnce true (gatehouse gatekeeper) visitor 0 r := by
  refine ⟨sound_gatehouse gatekeeper, ?_⟩
  rintro ⟨r, hr, hmove⟩
  have hgoes : (gatehouse gatekeeper).Goes 0 1 := ⟨rfl, rfl⟩
  obtain ⟨r', hr', -, -, -, hcalls, -⟩ := reqMoveRoom_of_goes (sound_gatehouse gatekeeper) rfl
    (by decide) hgoes rfl rfl fun _ _ => by decide
  obtain rfl := Except.ok.inj (hr.symm.trans hr')
  obtain ⟨made, hmade, hcount⟩ := hmove.once
  obtain rfl := List.append_cancel_left (hmade.symm.trans hcalls)
  exact absurd (hcount 1 rfl).1 (by decide)

/-! ## Hooks that only answer -/

section Answers

/-- A hook that does nothing but answer. -/
def answering (hook : RoomHook) : Hook Unit := hook.map fun h id child w => (h id child, w)

/-- A room of the master, with hooks that only answer. -/
def ofRoom (room : NetCosm.Room) : Room Unit :=
  ⟨room.adjacent, answering room.hookEnter, answering room.hookLeave, room.users⟩

variable {asserts : Bool} {s : Server Unit} {m : Master} {child : ChildData} {id : RoomId}

theorem call_enter (room : NetCosm.Room) (c : HookCall) :
    (s.call (ofRoom room).hookEnter c id).1 = room.hookEnter.permits id s.sender := by
  rw [ofRoom, Server.call]
  cases room.hookEnter <;> rfl

theorem call_leave (room : NetCosm.Room) (c : HookCall) :
    (s.call (ofRoom room).hookLeave c id).1 = room.hookLeave.permits id s.sender := by
  rw [ofRoom, Server.call]
  cases room.hookLeave <;> rfl

theorem roomGet_ofRoom (h : s.rooms = m.rooms.map ofRoom) :
    s.roomGet id = (m.roomGet id).map ofRoom := by
  rw [Server.roomGet, Master.roomGet, h, List.getElem?_map]
  cases m.rooms[id]? <;> rfl

theorem setUsers_ofRoom (h : s.rooms = m.rooms.map ofRoom) (users : HashMap UserName ℕ) :
    (s.setUsers id users).rooms = (m.setUsers id users).rooms.map ofRoom := by
  rw [Server.setUsers, Master.setUsers, h]
  refine List.ext_getElem? fun i => ?_
  rw [List.getElem?_map, List.getElem?_modify, List.getElem?_modify, List.getElem?_map]
  cases m.rooms[i]? with
  | none => rfl
  | some room => by_cases hi : id = i <;> simp [hi, ofRoom]

/-- Two calls that return do the same to the rooms, or neither returns. -/
def SameRooms {A B : Type} (x : Except Fault A) (y : Except Fault B)
    (rooms : A → List (Room Unit)) (rooms' : B → List NetCosm.Room) : Prop :=
  x.map rooms = y.map fun b => (rooms' b).map ofRoom

theorem SameRooms.bind {A B A' B' : Type} {x : Except Fault A} {y : Except Fault B}
    {rooms : A → List (Room Unit)} {rooms' : B → List NetCosm.Room}
    {f : A → Except Fault A'} {g : B → Except Fault B'} {rooms₁ : A' → List (Room Unit)}
    {rooms₁' : B' → List NetCosm.Room} (h : SameRooms x y rooms rooms')
    (hnext : ∀ a b, x = .ok a → rooms a = (rooms' b).map ofRoom → SameRooms (f a) (g b) rooms₁ rooms₁') :
    SameRooms (x >>= f) (y >>= g) rooms₁ rooms₁' := by
  cases hy : y with
  | error e =>
    rw [SameRooms, hy] at h
    rw [map_eq_error (h : x.map rooms = .error e)]
    rfl
  | ok b =>
    rw [SameRooms, hy] at h
    obtain ⟨a, rfl, ha⟩ := map_eq_ok (h : x.map rooms = .ok _)
    exact hnext a b rfl ha

theorem roomUserDel_ofRoom (h : s.rooms = m.rooms.map ofRoom) (hu : s.sender.user = child.user) :
    SameRooms (roomUserDel asserts s id) (NetCosm.roomUserDel asserts m id child)
      (fun r => r.2.rooms) fun r => r.2.rooms := by
  rw [roomUserDel, NetCosm.roomUserDel, hu]
  cases child.user with
  | none => exact congrArg Except.ok h
  | some user =>
    simp only [roomGet_ofRoom h]
    cases m.roomGet id with
    | error e => rfl
    | ok room => exact congrArg Except.ok (setUsers_ofRoom h _)

theorem roomUserAdd_ofRoom (h : s.rooms = m.rooms.map ofRoom) (hu : s.sender.user = child.user)
    (ha : s.sender.addr = child.addr) :
    SameRooms (roomUserAdd asserts s id) (NetCosm.roomUserAdd asserts m id child)
      (fun r => r.2.rooms) fun r => r.2.rooms := by
  rw [roomUserAdd, NetCosm.roomUserAdd, hu]
  cases child.user with
  | none => exact congrArg Except.ok h
  | some user =>
    simp only [roomGet_ofRoom h, ha]
    cases m.roomGet id with
    | error e => rfl
    | ok room =>
      show SameRooms (hashInsert (usersEnv asserts) room.users user child.addr >>= _)
        (hashInsert (usersEnv asserts) room.users user child.addr >>= _) _ _
      cases hashInsert (usersEnv asserts) room.users user child.addr with
      | error e => rfl
      | ok r => exact congrArg Except.ok (setUsers_ofRoom h _)

theorem sender_roomUserDel {s s' : Server Unit} {b : Bool}
    (h : roomUserDel asserts s id = .ok (b, s')) : s'.sender = s.sender := by
  rw [roomUserDel] at h
  cases hu : s.sender.user with
  | none =>
    rw [hu] at h
    obtain ⟨-, rfl⟩ := Prod.mk.inj (Except.ok.inj h)
    rfl
  | some user =>
    rw [hu] at h
    obtain ⟨room, -, h⟩ := bind_eq_ok h
    obtain ⟨-, rfl⟩ := Prod.mk.inj (Except.ok.inj h)
    rfl

theorem childSetRoom_ofRoom (h : s.rooms = m.rooms.map ofRoom) (hc : s.sender = child) :
    SameRooms (childSetRoom asserts s id) (NetCosm.childSetRoom asserts m child id)
      Server.rooms Master.rooms := by
  subst hc
  refine SameRooms.bind (roomUserAdd_ofRoom ?_ rfl rfl) fun r r' _ hr => congrArg Except.ok hr
  exact h

/-- **With hooks that only answer, a request to move does to the rooms what it does in
`Server.Children`.** -/
theorem reqMoveRoom_ofRoom (h : s.rooms = m.rooms.map ofRoom) (dir : ℕ) :
    SameRooms (reqMoveRoom asserts s dir) (NetCosm.reqMoveRoom asserts m s.sender dir)
      (fun r => r.server.rooms) fun r => r.2.2.rooms := by
  rw [reqMoveRoom, NetCosm.reqMoveRoom, roomGet_ofRoom h]
  cases m.roomGet s.sender.room with
  | error e => rfl
  | ok current =>
    rw [ok_bind, show (Except.ok current : Except Fault _).map ofRoom = .ok (ofRoom current) from rfl,
      ok_bind, show (ofRoom current).adjacent = current.adjacent from rfl]
    rcases current.adjacent[dir]? with _ | _ | new
    · rfl
    · exact congrArg Except.ok h
    · dsimp only
      rw [roomGet_ofRoom h]
      cases m.roomGet new with
      | error e => rfl
      | ok newRoom =>
        rw [ok_bind, show (Except.ok newRoom : Except Fault _).map ofRoom = .ok (ofRoom newRoom)
          from rfl, ok_bind]
        rw [call_enter, call_leave, sender_call]
        cases newRoom.hookEnter.permits new s.sender with
        | false => exact congrArg Except.ok h
        | true =>
          cases current.hookLeave.permits s.sender.room s.sender with
          | false => exact congrArg Except.ok h
          | true =>
            refine SameRooms.bind (roomUserDel_ofRoom h rfl) fun r r' hr hrooms => ?_
            have hsender : r.2.sender = s.sender := (sender_roomUserDel hr).trans rfl
            refine SameRooms.bind (childSetRoom_ofRoom hrooms hsender) fun s' m' _ hs' => ?_
            exact congrArg Except.ok hs'

end Answers

end Moving

end NetCosm
