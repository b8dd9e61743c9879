import NetCosm.Library.Loops
import NetCosm.Library.Outcome
import NetCosm.Server.RoomHooks
import NetCosm.Table.Filling
import NetCosm.Users.Userdb

/-!
# How a world is built

`world_init` of `world.c` makes rooms of the data of a world module.  In the data an exit is the name of
a room; in the world it is an id, that is the index of the room in the array `world`.

There are three passes.  The first makes the rooms, enters them in `world_map` under their names, and
looks up what exits it can; the second looks up all of them; and the third calls the `hook_init` of every
room, and looks at the exits once more for passages that lead one way only.

## Pointers

An entry of `world_map` points to a room, and is its index here.  The name and the description of a room
are copied with `strdup`, and may be null in the data: `req_send_roomname` asks whether a room has a name,
and `strdup` does not.

An id is an `int` and an index is a `size_t`.  An array of `RoomArray` is one that fits in memory; nothing
else bounds the number of rooms.

## Main results

`WorldInit.Resolved` says what the exits and the map of a world are to be.

* `firstPass`, `Added.resolveExits` and `thirdPass` --- how each pass ends.
* `resolvesExits_iff` --- when `world_init` does what it is for: the rooms have names and descriptions;
  and the data are faulty, or there are at most `2 ^ 31` rooms.
* `oneWay_of_worldInit` --- which passages the third pass reports.
* `Resolved.exits_sound` --- the exits are those that moves rely on.
-/

namespace NetCosm

namespace WorldInit

/-! ## Directions -/

/-- `enum direction_t`. -/
inductive Direction where
  | dirN | dirNe | dirE | dirSe | dirS | dirSw | dirW | dirNw | dirUp | dirDn | dirIn | dirOt
  deriving DecidableEq, Repr

/-- The values of `enum direction_t` in their order. -/
def Direction.all : List Direction :=
  [.dirN, .dirNe, .dirE, .dirSe, .dirS, .dirSw, .dirW, .dirNw, .dirUp, .dirDn, .dirIn, .dirOt]

theorem Direction.mem_all (d : Direction) : d ∈ Direction.all := by cases d <;> decide

example : Direction.all.length = NUM_DIRECTIONS := rfl

/-- `pairs`. -/
def pairs : List (Direction × Direction) :=
  [(.dirN, .dirS), (.dirNe, .dirSw), (.dirE, .dirW), (.dirSe, .dirNw), (.dirUp, .dirDn),
    (.dirIn, .dirOt)]

/-- `dir_hash` and `dir_equal`. -/
def dirEnv (asserts : Bool) : HashEnv Direction where
  hash d := UInt32.ofNat (Direction.all.idxOf d)
  compare a b := if a = b then 0 else 1
  asserts := asserts

/-- `dir_map`: the pairs are entered twice, the second time the other way round. -/
def dirMap (asserts : Bool) : Except Fault (HashMap Direction Direction) :=
  (pairs ++ pairs.map Prod.swap).foldlM
    (fun map p => (hashInsert (dirEnv asserts) map p.1 p.2).map Prod.snd)
    (hashInit (pairs.length * 2))

/-! ## Rooms -/

/-- `ROOM_NONE`. -/
def ROOM_NONE : Int32 := -1

/-- `struct roomdata_t`; a pointer that may be null is an option.  `hook_init` acts on the memory of
the world module. -/
structure RoomData (W : Type) where
  uniqId : CString
  name : Option CString
  desc : Option CString
  adjacent : Direction → Option CString
  hookInit : Option (Int32 → W → W)

/-- The size of `struct roomdata_t`. -/
def ROOMDATA_SZ : ℕ := 168

/-- An array of rooms, as a world module has it. -/
structure RoomArray (W : Type) where
  rooms : List (RoomData W)
  fits : rooms.length * ROOMDATA_SZ ≤ 2 ^ 64

/-- `struct room_t`. -/
structure Room (W : Type) where
  id : Int32
  data : RoomData W
  adjacent : Direction → Int32

/-- The static variables of `world.c`. -/
structure Statics (W : Type) where
  world : List (Room W)
  worldName : CString
  /-- The index of the room an entry points to. -/
  worldMap : HashMap CString ℕ

/-- `hook_init` has been called with an id, and has found the world as it was then. -/
structure InitCall (W : Type) where
  id : Int32
  found : Statics W

/-- The world, the memory of the world module, the calls of `hook_init`, and the rooms that have been
reported to be one-way. -/
structure Result (W : Type) where
  statics : Statics W
  memory : W
  calls : List (InitCall W)
  oneWay : List (CString × CString)

section Model

variable {W : Type} (asserts : Bool)

/-- `strdup`. -/
def strdup : Option CString → Except Fault CString
  | some s => .ok s
  | none => .error .nullPointer

/-- `room->id`, of the room an entry points to. -/
def roomId (world : List (Room W)) (p : ℕ) : Except Fault Int32 :=
  match world[p]? with
  | some room => .ok room.id
  | none => .error .outOfBounds

/-- `room_get`, which does not check its index, and a read through the pointer it returns. -/
def roomGet (world : List (Room W)) (id : Int32) : Except Fault (Room W) :=
  if id.toInt < 0 then .error .outOfBounds
  else
    match world[id.toInt.toNat]? with
    | some room => .ok room
    | none => .error .outOfBounds

/-- `room_get_id`. -/
def roomGetId (s : Statics W) (uniqId : CString) : Except Fault Int32 :=
  match hashLookup (namesEnv asserts) s.worldMap uniqId with
  | some p => roomId s.world p
  | none => .ok ROOM_NONE

/-- A loop over the directions that writes `adjacent`. -/
def forDirections (f : Direction → Except Fault Int32) (adjacent : Direction → Int32) :
    Except Fault (Direction → Int32) :=
  Direction.all.foldlM (fun adjacent dir => (f dir).map (Function.update adjacent dir)) adjacent

/-- What the first pass writes to an exit: a room that is not there yet leaves it as it was. -/
def exitSoFar (s : Statics W) (old : Int32) : Option CString → Except Fault Int32
  | some adjacentRoom =>
      match hashLookup (namesEnv asserts) s.worldMap adjacentRoom with
      | some p => roomId s.world p
      | none => .ok old
  | none => .ok old

/-- One turn of the first pass.  The memory of the rooms was zero. -/
def addRoom (s : Statics W) (data : RoomData W) : Except Fault (Statics W) := do
  let name ← strdup data.name
  let desc ← strdup data.desc
  let room : Room W :=
    { id := Int32.ofNat s.world.length
      data := { data with name := some name, desc := some desc }
      adjacent := fun _ => 0 }
  let r ← hashInsert (namesEnv asserts) s.worldMap data.uniqId s.world.length
  if r.1.isSome then .error .fatal
  else do
    let s' := { s with world := s.world ++ [room], worldMap := r.2 }
    let adjacent ← forDirections (fun dir => exitSoFar asserts s' 0 (data.adjacent dir)) room.adjacent
    .ok { s' with world := s.world ++ [{ room with adjacent }] }

/-- What the second pass writes to an exit; `error` is called for a room that is unknown. -/
def resolveExit (s : Statics W) : Option CString → Except Fault Int32
  | some adjacentRoom =>
      match hashLookup (namesEnv asserts) s.worldMap adjacentRoom with
      | some p => roomId s.world p
      | none => .error .fatal
  | none => .ok ROOM_NONE

/-- One turn of the second pass. -/
def resolveRoom (s : Statics W) (room : Room W) : Except Fault (Room W) :=
  (forDirections (fun dir => resolveExit asserts s (room.data.adjacent dir)) room.adjacent).map
    fun adjacent => { room with adjacent }

/-- The second pass.  It reads ids and writes exits. -/
def resolveExits (s : Statics W) : Except Fault (Statics W) :=
  (s.world.foldlM (fun done room => (resolveRoom asserts s room).map fun room => done ++ [room])
    []).map fun world => { s with world }

/-- `hook_init` is called, if it is set. -/
def callHookInit (r : Result W) (room : Room W) : Result W :=
  match room.data.hookInit with
  | some hook =>
      { r with
        memory := hook room.id r.memory
        calls := r.calls ++ [⟨room.id, r.statics⟩] }
  | none => r

/-- The check that the room behind an exit has an exit that leads back. -/
def checkExit (dirs : HashMap Direction Direction) (i : Int32) (room : Room W) (r : Result W)
    (j : Direction) : Except Fault (Result W) :=
  if room.adjacent j = ROOM_NONE then .ok r
  else
    match hashLookup (dirEnv asserts) dirs j with
    | none => .error .nullPointer
    | some opp => do
        let adj ← roomGet r.statics.world (room.adjacent j)
        .ok (if adj.adjacent opp ≠ i then
          { r with oneWay := r.oneWay ++ [(room.data.uniqId, adj.data.uniqId)] }
        else r)

/-- One turn of the third pass. -/
def startRoom (dirs : HashMap Direction Direction) (r : Result W) (i : Int32) :
    Except Fault (Result W) := do
  let room ← roomGet r.statics.world i
  Direction.all.foldlM (checkExit asserts dirs i room) (callHookInit r room)

/-- The third pass, with an `int` that counts to the number of rooms, cast to `int`. -/
def startRooms (dirs : HashMap Direction Direction) (r : Result W) : Except Fault (Result W) :=
  ((List.range (Int32.ofNat r.statics.world.length).toInt.toNat).map Int32.ofNat).foldlM
    (startRoom asserts dirs) r

/-- The static variables before the first pass. -/
def initStatics (data : RoomArray W) (name : CString) : Statics W where
  world := []
  worldName := name
  worldMap := hashInit (data.rooms.length * 2)

/-- `world_init`, in a process where the world module has the memory `w`. -/
def worldInit (data : RoomArray W) (name : CString) (w : W) : Except Fault (Result W) := do
  let s ← data.rooms.foldlM (addRoom asserts) (initStatics data name)
  let s ← resolveExits asserts s
  let dirs ← dirMap asserts
  startRooms asserts dirs { statics := s, memory := w, calls := [], oneWay := [] }

end Model

/-! ## What a world is to be -/

section Spec

variable {W : Type}

/-- The names of rooms. -/
def names (rooms : List (RoomData W)) : List CString := rooms.map RoomData.uniqId

/-- Two rooms have the same name. -/
def Duplicate (rooms : List (RoomData W)) : Prop := ¬ (names rooms).Nodup

/-- An exit leads to a name that is not that of a room. -/
def Dangling (rooms : List (RoomData W)) : Prop :=
  ∃ room ∈ rooms, ∃ dir name, room.adjacent dir = some name ∧ name ∉ names rooms

/-- A room that is reached before two have had the same name has a name to show and a
description. -/
def Described (rooms : List (RoomData W)) : Prop :=
  ∀ k room, rooms[k]? = some room → ¬ Duplicate (rooms.take k) → room.name ≠ none ∧ room.desc ≠ none

/-- An id is the index of the room of this name. -/
def IdOf (rooms : List (RoomData W)) (name : CString) (id : Int32) : Prop :=
  ∃ i : ℕ, (names rooms)[i]? = some name ∧ id.toInt = i

/-- **The world is that of the data, with every exit resolved.** -/
structure Resolved (asserts : Bool) (rooms : List (RoomData W)) (s : Statics W) : Prop where
  data : s.world.map Room.data = rooms
  ids : ∀ (i : ℕ) room, s.world[i]? = some room → room.id.toInt = i
  exits : ∀ room ∈ s.world, ∀ dir name, room.data.adjacent dir = some name →
    IdOf rooms name (room.adjacent dir)
  closed : ∀ room ∈ s.world, ∀ dir, room.data.adjacent dir = none → room.adjacent dir = ROOM_NONE
  known : ∀ name ∈ names rooms, ∃ id, roomGetId asserts s name = .ok id ∧ IdOf rooms name id
  unknown : ∀ name, name ∉ names rooms → roomGetId asserts s name = .ok ROOM_NONE

/-- **`world_init` stops with an error exactly for faulty data**, and otherwise the world is resolved
when the hooks are called and when it returns. -/
def ResolvesExits (asserts : Bool) (data : RoomArray W) (name : CString) (w : W) : Prop :=
  (worldInit asserts data name w = .error .fatal ↔ Duplicate data.rooms ∨ Dangling data.rooms) ∧
    (¬ Duplicate data.rooms → ¬ Dangling data.rooms →
      ∃ r, worldInit asserts data name w = .ok r ∧ Resolved asserts data.rooms r.statics ∧
        ∀ call ∈ r.calls, Resolved asserts data.rooms call.found)

end Spec

/-! ## Loops over the directions -/

section Directions

variable {f : Direction → Except Fault Int32}

theorem forDirections_of_ok {g : Direction → Int32} (h : ∀ dir, f dir = .ok (g dir))
    (adjacent : Direction → Int32) : forDirections f adjacent = .ok g := by
  rw [forDirections, foldlM_of_ok Function.update fun dir _ => h dir]
  refine congrArg Except.ok (funext fun dir => ?_)
  cases dir <;> rfl

theorem forDirections_of_stops (h : ∀ dir, (∃ id, f dir = .ok id) ∨ f dir = .error .fatal)
    (hstops : ∃ dir, f dir = .error .fatal) (adjacent : Direction → Int32) :
    forDirections f adjacent = .error .fatal := by
  obtain ⟨dir, hdir⟩ := hstops
  exact foldlM_of_stops Function.update (fun dir _ => h dir) ⟨dir, dir.mem_all, hdir⟩ adjacent

end Directions

/-! ## The first pass -/

section FirstPass

variable {W : Type} {asserts : Bool} {seen rest : List (RoomData W)} {s : Statics W} {sz : ℕ}

/-- **Some rooms have been added**, and the map has buckets for `sz`. -/
structure Added (asserts : Bool) (sz : ℕ) (seen : List (RoomData W)) (s : Statics W) : Prop where
  data : s.world.map Room.data = seen
  ids : s.world.map Room.id = (List.range s.world.length).map Int32.ofNat
  placed : s.worldMap.WellPlaced (namesEnv asserts)
  sane : s.worldMap.Sane
  stored : s.worldMap.stored = seen.length
  roomy : 2 * sz ≤ s.worldMap.tableSz
  small : s.worldMap.tableSz < 2 ^ 64
  lookup : ∀ name, hashLookup (namesEnv asserts) s.worldMap name =
    if name ∈ names seen then some ((names seen).idxOf name) else none

theorem Added.length (hs : Added asserts sz seen s) : s.world.length = seen.length := by
  rw [← hs.data, List.length_map]

theorem length_names (rooms : List (RoomData W)) : (names rooms).length = rooms.length :=
  List.length_map ..

theorem Added.id_eq (hs : Added asserts sz seen s) {i : ℕ} {room : Room W}
    (hi : s.world[i]? = some room) : room.id = Int32.ofNat i := by
  have h := congrArg (fun l => l[i]?) hs.ids
  have hlt := (List.getElem?_eq_some_iff.mp hi).1
  simp only [List.getElem?_map, hi, List.getElem?_range hlt, Option.map_some] at h
  exact Option.some.inj h

theorem Added.roomId (hs : Added asserts sz seen s) {name : CString} (hname : name ∈ names seen) :
    roomId s.world ((names seen).idxOf name) = .ok (Int32.ofNat ((names seen).idxOf name)) := by
  have hlt := List.idxOf_lt_length_of_mem hname
  rw [length_names, ← hs.length] at hlt
  have hget := List.getElem?_eq_getElem hlt
  rw [WorldInit.roomId, hget]
  exact congrArg Except.ok (hs.id_eq hget)

theorem added_initStatics (asserts : Bool) (data : RoomArray W) (name : CString) :
    Added asserts data.rooms.length [] (initStatics data name) := by
  have hfits := data.fits
  unfold ROOMDATA_SZ at hfits
  refine ⟨rfl, rfl, wellPlaced_hashInit _ _, sane_fresh _, stored_fresh _, ?_, ?_, fun name => ?_⟩
  · rw [initStatics, hashInit, HashMap.tableSz_fresh]
    split <;> omega
  · rw [initStatics, hashInit, HashMap.tableSz_fresh]
    split <;> omega
  · show hashLookup _ (hashInit (data.rooms.length * 2)) name = none
    rw [hashLookup_eq_map, hashInit, hashEntry_fresh]
    rfl

/-- The exits of the rooms do not matter. -/
theorem Added.congr (hs : Added asserts sz seen s) {world : List (Room W)}
    (hdata : world.map Room.data = s.world.map Room.data)
    (hids : world.map Room.id = s.world.map Room.id) :
    Added asserts sz seen { s with world } :=
  have hlen : world.length = s.world.length := by
    rw [← List.length_map Room.data, hdata, List.length_map]
  { hs with
    data := hdata.trans hs.data
    ids := hids.trans (hs.ids.trans (by rw [hlen])) }

/-- A room and its entry in the map. -/
theorem Added.enter (hs : Added asserts sz seen s) (hsz : seen.length < sz) {data : RoomData W}
    (hnew : data.uniqId ∉ names seen) (adjacent : Direction → Int32) :
    ∃ map, hashInsert (namesEnv asserts) s.worldMap data.uniqId s.world.length = .ok (none, map) ∧
      Added asserts sz (seen ++ [data])
        { s with
          world := s.world ++ [{ id := Int32.ofNat s.world.length, data, adjacent }]
          worldMap := map } := by
  have hnone : hashLookup (namesEnv asserts) s.worldMap data.uniqId = none := by
    rw [hs.lookup, if_neg hnew]
  have hroomy := hs.roomy
  obtain ⟨map, hins, hplaced, hsane, htab, hstored, hentries⟩ := HashMap.hashInsert_of_roomy
    (compatible_namesEnv asserts) hs.placed hs.sane hs.small (by rw [hs.stored]; omega) hnone
    s.world.length
  refine ⟨map, hins, ?_, ?_, hplaced, hsane, ?_, htab.symm ▸ hroomy, htab.symm ▸ hs.small,
    fun name => ?_⟩
  · rw [List.map_append, hs.data]
    rfl
  · rw [List.map_append, hs.ids, List.length_append, List.length_singleton, List.range_succ,
      List.map_append]
    rfl
  · rw [hstored, hs.stored, List.length_append]
    rfl
  · have hnames : names (seen ++ [data]) = names seen ++ [data.uniqId] := List.map_append
    have hold := hs.lookup name
    rw [hashLookup_eq_map] at hnone hold
    rw [hashLookup_eq_map, hentries, hnames]
    simp only [namesEnv_same_iff]
    by_cases hname : data.uniqId = name
    · subst hname
      rw [if_pos ⟨rfl, Option.map_eq_none_iff.mp hnone⟩, if_pos (by simp),
        List.idxOf_append_of_notMem hnew, List.idxOf_cons_self, length_names, hs.length]
      rfl
    · rw [if_neg fun h => hname h.1, hold]
      by_cases hmem : name ∈ names seen
      · rw [if_pos hmem, if_pos (List.mem_append_left _ hmem), List.idxOf_append_of_mem hmem]
      · rw [if_neg hmem, if_neg]
        simpa using ⟨hmem, Ne.symm hname⟩

/-- What the first pass writes to an exit. -/
theorem Added.exitSoFar (hs : Added asserts sz seen s) (old : Int32) (exit : Option CString) :
    ∃ id, exitSoFar asserts s old exit = .ok id := by
  cases exit with
  | none => exact ⟨old, rfl⟩
  | some name =>
    unfold WorldInit.exitSoFar
    dsimp only
    rw [hs.lookup]
    by_cases hname : name ∈ names seen
    · rw [if_pos hname]
      exact ⟨_, hs.roomId hname⟩
    · rw [if_neg hname]
      exact ⟨old, rfl⟩

/-- `strdup` is given a null pointer. -/
theorem addRoom_of_null {data : RoomData W} (h : data.name = none ∨ data.desc = none) :
    addRoom asserts s data = .error .nullPointer := by
  unfold addRoom
  rcases h with h | h
  · rw [h]
    rfl
  · rw [h]
    cases data.name <;> rfl

/-- **A room that can be copied is added**, unless there is one of its name. -/
theorem Added.addRoom (hs : Added asserts sz seen s) (hsz : seen.length < sz) {data : RoomData W}
    (hname : data.name ≠ none) (hdesc : data.desc ≠ none) :
    if data.uniqId ∈ names seen then addRoom asserts s data = .error .fatal
    else ∃ s', addRoom asserts s data = .ok s' ∧ Added asserts sz (seen ++ [data]) s' := by
  obtain ⟨uniqId, name, desc, adjacent, hookInit⟩ := data
  obtain ⟨name, rfl⟩ := Option.ne_none_iff_exists'.mp hname
  obtain ⟨desc, rfl⟩ := Option.ne_none_iff_exists'.mp hdesc
  by_cases hmem : uniqId ∈ names seen
  · rw [if_pos hmem]
    have hins : hashInsert (namesEnv asserts) s.worldMap uniqId s.world.length =
        .ok (some ((names seen).idxOf uniqId), s.worldMap) := by
      rw [hashInsert, hs.lookup, if_pos hmem]
    unfold WorldInit.addRoom
    simp only [strdup, ok_bind, hins]
    rfl
  · rw [if_neg hmem]
    obtain ⟨map, hins, hadded⟩ := hs.enter hsz (show RoomData.uniqId
      ⟨uniqId, some name, some desc, adjacent, hookInit⟩ ∉ names seen from hmem) fun _ => 0
    choose exits hexits using fun dir => hadded.exitSoFar 0 (adjacent dir)
    have hloop := forDirections_of_ok hexits fun _ => 0
    refine ⟨{ s with
      world := s.world ++ [⟨Int32.ofNat s.world.length,
        ⟨uniqId, some name, some desc, adjacent, hookInit⟩, exits⟩]
      worldMap := map }, ?_, hadded.congr ?_ ?_⟩
    · unfold WorldInit.addRoom
      simp only [strdup, ok_bind, hins, Option.isSome_none, Bool.false_eq_true, if_false]
      rw [hloop]
      rfl
    · rw [List.map_append, List.map_append]
      rfl
    · rw [List.map_append, List.map_append]
      rfl

theorem names_append (a b : List (RoomData W)) : names (a ++ b) = names a ++ names b :=
  List.map_append

theorem Duplicate.append (h : Duplicate seen) (rest : List (RoomData W)) : Duplicate (seen ++ rest) := by
  intro hnodup
  rw [names_append] at hnodup
  exact h (List.nodup_append.mp hnodup).1

/-- One more room. -/
theorem duplicate_snoc (h : ¬ Duplicate seen) (data : RoomData W) :
    Duplicate (seen ++ [data]) ↔ data.uniqId ∈ names seen := by
  rw [Duplicate, not_not] at h
  rw [Duplicate, not_iff_comm, names_append]
  show data.uniqId ∉ names seen ↔ (names seen ++ [data.uniqId]).Nodup
  rw [← List.concat_eq_append, List.nodup_concat]
  exact ⟨fun hnew => ⟨hnew, h⟩, And.left⟩

theorem described_nil : Described ([] : List (RoomData W)) := fun k room hk => absurd hk (by simp)

theorem Described.snoc (h : Described seen) {data : RoomData W} (hname : data.name ≠ none)
    (hdesc : data.desc ≠ none) : Described (seen ++ [data]) := by
  intro k room hk hdup
  rw [List.getElem?_append] at hk
  split at hk
  · rename_i hlt
    rw [List.take_append_of_le_length (Nat.le_of_lt hlt)] at hdup
    exact h k room hk hdup
  · obtain rfl := List.mem_singleton.mp (List.mem_of_getElem? hk)
    exact ⟨hname, hdesc⟩

/-- After two rooms of one name no room is reached. -/
theorem Described.append (h : Described seen) (hdup : Duplicate seen) (rest : List (RoomData W)) :
    Described (seen ++ rest) := by
  intro k room hk hnodup
  rw [List.getElem?_append] at hk
  split at hk
  · rename_i hlt
    rw [List.take_append_of_le_length (Nat.le_of_lt hlt)] at hnodup
    exact h k room hk hnodup
  · rename_i hle
    rw [List.take_append, List.take_of_length_le (Nat.not_lt.mp hle)] at hnodup
    exact absurd (hdup.append _) hnodup

/-- A room that cannot be copied is reached. -/
theorem not_described (h : ¬ Duplicate seen) {data : RoomData W}
    (hnull : data.name = none ∨ data.desc = none) : ¬ Described (seen ++ data :: rest) := by
  intro hdesc
  have hroom := hdesc seen.length data (by simp) (by rwa [List.take_left])
  rcases hnull with hnull | hnull
  · exact hroom.1 hnull
  · exact hroom.2 hnull

/-- **How the first pass ends.**  By induction on the rooms that are left. -/
theorem firstPass (hs : Added asserts sz seen s) (hsz : seen.length + rest.length ≤ sz)
    (hdup : ¬ Duplicate seen) (hdesc : Described seen) :
    (∃ s', rest.foldlM (addRoom asserts) s = .ok s' ∧ Added asserts sz (seen ++ rest) s' ∧
        ¬ Duplicate (seen ++ rest) ∧ Described (seen ++ rest)) ∨
      (rest.foldlM (addRoom asserts) s = .error .fatal ∧ Duplicate (seen ++ rest) ∧
        Described (seen ++ rest)) ∨
      (rest.foldlM (addRoom asserts) s = .error .nullPointer ∧ ¬ Described (seen ++ rest)) := by
  induction rest generalizing seen s with
  | nil =>
    rw [List.append_nil]
    exact Or.inl ⟨s, rfl, hs, hdup, hdesc⟩
  | cons data rest ih =>
    rw [List.length_cons] at hsz
    rw [List.foldlM_cons]
    by_cases hnull : data.name = none ∨ data.desc = none
    · rw [addRoom_of_null hnull]
      exact Or.inr (Or.inr ⟨rfl, not_described hdup hnull⟩)
    · obtain ⟨hname, hdesc'⟩ := not_or.mp hnull
      have hadd := hs.addRoom (by omega) hname hdesc'
      have hdup' := duplicate_snoc hdup data
      have hsnoc := hdesc.snoc hname hdesc'
      have hassoc : seen ++ data :: rest = (seen ++ [data]) ++ rest := by simp
      rw [hassoc]
      split at hadd
      · rename_i hmem
        rw [hadd]
        have hdup := hdup'.mpr hmem
        exact Or.inr (Or.inl ⟨rfl, hdup.append rest, hsnoc.append hdup rest⟩)
      · rename_i hmem
        obtain ⟨s', hs', hadded⟩ := hadd
        rw [hs', ok_bind]
        exact ih hadded (by rw [List.length_append, List.length_singleton]; omega)
          (fun h => hmem (hdup'.mp h)) hsnoc

end FirstPass

/-! ## The second pass -/

section SecondPass

variable {W : Type} {asserts : Bool} {rooms : List (RoomData W)} {s : Statics W} {sz : ℕ}

/-- The id an exit is to have. -/
def exitId (rooms : List (RoomData W)) : Option CString → Int32
  | some name => Int32.ofNat ((names rooms).idxOf name)
  | none => ROOM_NONE

/-- A room with the exits it is to have. -/
def Room.resolve (rooms : List (RoomData W)) (room : Room W) : Room W :=
  { room with adjacent := fun dir => exitId rooms (room.data.adjacent dir) }

theorem Added.resolveExit (hs : Added asserts sz rooms s) {exit : Option CString}
    (h : ∀ name, exit = some name → name ∈ names rooms) :
    resolveExit asserts s exit = .ok (exitId rooms exit) := by
  cases exit with
  | none => rfl
  | some name =>
    unfold WorldInit.resolveExit
    dsimp only
    rw [hs.lookup, if_pos (h name rfl)]
    exact hs.roomId (h name rfl)

theorem Added.resolveExit_stops (hs : Added asserts sz rooms s) {name : CString}
    (h : name ∉ names rooms) : WorldInit.resolveExit asserts s (some name) = .error .fatal := by
  unfold WorldInit.resolveExit
  dsimp only
  rw [hs.lookup, if_neg h]

/-- An exit is resolved, or is unknown. -/
theorem Added.resolveExit_or (hs : Added asserts sz rooms s) (exit : Option CString) :
    (∃ id, WorldInit.resolveExit asserts s exit = .ok id) ∨
      WorldInit.resolveExit asserts s exit = .error .fatal := by
  by_cases h : ∀ name, exit = some name → name ∈ names rooms
  · exact Or.inl ⟨_, hs.resolveExit h⟩
  · push Not at h
    obtain ⟨name, rfl, hname⟩ := h
    exact Or.inr (hs.resolveExit_stops hname)

theorem Added.resolveRoom (hs : Added asserts sz rooms s) {room : Room W}
    (h : ∀ dir name, room.data.adjacent dir = some name → name ∈ names rooms) :
    resolveRoom asserts s room = .ok (room.resolve rooms) := by
  rw [WorldInit.resolveRoom, forDirections_of_ok fun dir => hs.resolveExit (h dir)]
  rfl

theorem Added.resolveRoom_stops (hs : Added asserts sz rooms s) {room : Room W}
    (h : ∃ dir name, room.data.adjacent dir = some name ∧ name ∉ names rooms) :
    WorldInit.resolveRoom asserts s room = .error .fatal := by
  obtain ⟨dir, name, hdir, hname⟩ := h
  rw [WorldInit.resolveRoom, forDirections_of_stops (fun dir => hs.resolveExit_or _)
    ⟨dir, hdir ▸ hs.resolveExit_stops hname⟩]
  rfl

/-- **The second pass of data with no exit to nowhere.** -/
theorem Added.resolveExits (hs : Added asserts sz rooms s) (h : ¬ Dangling rooms) :
    resolveExits asserts s = .ok { s with world := s.world.map (Room.resolve rooms) } := by
  have hrooms : ∀ room ∈ s.world, WorldInit.resolveRoom asserts s room = .ok (room.resolve rooms) := by
    intro room hroom
    refine hs.resolveRoom fun dir name hdir => ?_
    by_contra hname
    exact h ⟨room.data, hs.data ▸ List.mem_map_of_mem hroom, dir, name, hdir, hname⟩
  rw [WorldInit.resolveExits, foldlM_of_ok (fun done _ room => done ++ [room]) hrooms,
    List.foldl_append_eq_append, List.nil_append, ← List.flatMap_def, ← List.map_eq_flatMap]
  rfl

/-- **The second pass of data with an exit to nowhere.** -/
theorem Added.resolveExits_stops (hs : Added asserts sz rooms s) (h : Dangling rooms) :
    WorldInit.resolveExits asserts s = .error .fatal := by
  obtain ⟨data, hdata, dir, name, hdir, hname⟩ := h
  obtain ⟨room, hroom, rfl⟩ := List.mem_map.mp (hs.data ▸ hdata)
  rw [WorldInit.resolveExits, foldlM_of_stops (fun done _ room => done ++ [room]) (e := .fatal)]
  · rfl
  · intro room _
    by_cases hroom : ∃ dir name, room.data.adjacent dir = some name ∧ name ∉ names rooms
    · exact Or.inr (hs.resolveRoom_stops hroom)
    · push Not at hroom
      exact Or.inl ⟨_, hs.resolveRoom hroom⟩
  · exact ⟨room, hroom, hs.resolveRoom_stops ⟨dir, name, hdir, hname⟩⟩

/-- The world after the second pass. -/
theorem Added.resolve (hs : Added asserts sz rooms s) :
    Added asserts sz rooms { s with world := s.world.map (Room.resolve rooms) } :=
  hs.congr (by rw [List.map_map]; rfl) (by rw [List.map_map]; rfl)

/-- With at most `2 ^ 31` rooms the ids are the indices. -/
theorem Added.toInt_id (hs : Added asserts sz rooms s) (hlen : rooms.length ≤ 2 ^ 31) {i : ℕ}
    {room : Room W} (hi : s.world[i]? = some room) : room.id.toInt = i := by
  have hlt := (List.getElem?_eq_some_iff.mp hi).1
  rw [hs.length] at hlt
  rw [hs.id_eq hi, Int32.toInt_ofNat_of_lt (by omega)]

theorem idOf_idxOf (hlen : rooms.length ≤ 2 ^ 31) {name : CString} (h : name ∈ names rooms) :
    IdOf rooms name (Int32.ofNat ((names rooms).idxOf name)) := by
  have hlt := List.idxOf_lt_length_of_mem h
  refine ⟨(names rooms).idxOf name, ?_, Int32.toInt_ofNat_of_lt ?_⟩
  · rw [List.getElem?_eq_getElem hlt, List.getElem_idxOf hlt]
  · rw [length_names] at hlt
    omega

/-- **The world after the second pass is resolved.** -/
theorem Added.resolved (hs : Added asserts sz rooms s) (hdangling : ¬ Dangling rooms)
    (hlen : rooms.length ≤ 2 ^ 31) :
    Resolved asserts rooms { s with world := s.world.map (Room.resolve rooms) } := by
  have hres := hs.resolve
  refine ⟨hres.data, fun i room => hres.toInt_id hlen, fun room hroom dir name hdir => ?_,
    fun room hroom dir hdir => ?_, fun name hname => ?_, fun name hname => ?_⟩
  · obtain ⟨room, hold, rfl⟩ := List.mem_map.mp hroom
    have hdata : room.data ∈ rooms := hs.data ▸ List.mem_map_of_mem hold
    show IdOf rooms name (exitId rooms (room.data.adjacent dir))
    rw [show room.data.adjacent dir = some name from hdir]
    refine idOf_idxOf hlen ?_
    by_contra hname
    exact hdangling ⟨room.data, hdata, dir, name, hdir, hname⟩
  · obtain ⟨room, -, rfl⟩ := List.mem_map.mp hroom
    show exitId rooms (room.data.adjacent dir) = ROOM_NONE
    rw [show room.data.adjacent dir = none from hdir]
    rfl
  · refine ⟨_, ?_, idOf_idxOf hlen hname⟩
    rw [roomGetId, hres.lookup, if_pos hname]
    exact hres.roomId hname
  · rw [roomGetId, hres.lookup, if_neg hname]

/-- With more rooms there is one whose id is negative. -/
theorem Added.not_resolved (hs : Added asserts sz rooms s) (hlen : 2 ^ 31 < rooms.length) :
    ¬ Resolved asserts rooms s := by
  intro h
  have hget := List.getElem?_eq_getElem (hs.length ▸ hlen : 2 ^ 31 < s.world.length)
  have hid := h.ids _ _ hget
  rw [hs.id_eq hget] at hid
  exact absurd hid (by decide)

end SecondPass

/-! ## The third pass -/

section ThirdPass

variable {W : Type} {asserts : Bool} {dirs : HashMap Direction Direction} {world : List (Room W)}

/-- The direction that leads back. -/
def Direction.opposite : Direction → Direction
  | .dirN => .dirS
  | .dirNe => .dirSw
  | .dirE => .dirW
  | .dirSe => .dirNw
  | .dirS => .dirN
  | .dirSw => .dirNe
  | .dirW => .dirE
  | .dirNw => .dirSe
  | .dirUp => .dirDn
  | .dirDn => .dirUp
  | .dirIn => .dirOt
  | .dirOt => .dirIn

/-- **`dir_map` has the opposite of every direction.**  It grows while it is filled. -/
theorem dirMap_ok (asserts : Bool) :
    ∃ dirs, dirMap asserts = .ok dirs ∧ ∀ d : Direction,
      hashLookup (dirEnv asserts) dirs d = some d.opposite := by
  have hall : (dirMap asserts).map (fun dirs => Direction.all.map (hashLookup (dirEnv asserts) dirs)) =
      .ok (Direction.all.map fun d => some d.opposite) := by
    cases asserts <;> decide +kernel
  obtain ⟨dirs, hdirs, hlookup⟩ := map_eq_ok hall
  exact ⟨dirs, hdirs, fun d => List.map_inj_left.mp hlookup d d.mem_all⟩

/-- What is reported of an exit. -/
def oneWayAt (world : List (Room W)) (room : Room W) (j : Direction) : List (CString × CString) :=
  if room.adjacent j = ROOM_NONE then []
  else
    match roomGet world (room.adjacent j) with
    | .ok adj =>
        if adj.adjacent j.opposite ≠ room.id then [(room.data.uniqId, adj.data.uniqId)] else []
    | .error _ => []

/-- The call that is made for a room, if its hook is set. -/
def callsOf (s : Statics W) (room : Room W) : List (InitCall W) :=
  if room.data.hookInit.isSome then [⟨room.id, s⟩] else []

/-- The exits of a room lead to rooms. -/
def ExitsIn (world : List (Room W)) (room : Room W) : Prop :=
  ∀ dir, room.adjacent dir ≠ ROOM_NONE → ∃ adj, roomGet world (room.adjacent dir) = .ok adj

theorem checkExit_ok (hdirs : ∀ d : Direction, hashLookup (dirEnv asserts) dirs d = some d.opposite)
    {r : Result W} {room : Room W} (hexits : ExitsIn r.statics.world room) (j : Direction) :
    checkExit asserts dirs room.id room r j =
      .ok { r with oneWay := r.oneWay ++ oneWayAt r.statics.world room j } := by
  unfold checkExit oneWayAt
  by_cases hnone : room.adjacent j = ROOM_NONE
  · rw [if_pos hnone, if_pos hnone, List.append_nil]
  · obtain ⟨adj, hadj⟩ := hexits j hnone
    rw [if_neg hnone, if_neg hnone, hdirs, hadj]
    dsimp only
    rw [ok_bind]
    split
    · rfl
    · rw [List.append_nil]

/-- The exits of a room are looked at one after another. -/
theorem foldlM_checkExit (hdirs : ∀ d : Direction, hashLookup (dirEnv asserts) dirs d = some d.opposite)
    {room : Room W} (l : List Direction) {r : Result W} (hexits : ExitsIn r.statics.world room) :
    l.foldlM (checkExit asserts dirs room.id room) r =
      .ok { r with oneWay := r.oneWay ++ l.flatMap (oneWayAt r.statics.world room) } := by
  induction l generalizing r with
  | nil => exact congrArg Except.ok (by rw [List.flatMap_nil, List.append_nil])
  | cons j l ih =>
    rw [List.foldlM_cons, checkExit_ok hdirs hexits, ok_bind, List.flatMap_cons, ← List.append_assoc]
    exact ih hexits

/-- **One turn of the third pass.** -/
theorem startRoom_ok (hdirs : ∀ d : Direction, hashLookup (dirEnv asserts) dirs d = some d.opposite)
    {r : Result W} {room : Room W} (hget : roomGet r.statics.world room.id = .ok room)
    (hexits : ExitsIn r.statics.world room) :
    ∃ r', startRoom asserts dirs r room.id = .ok r' ∧ r'.statics = r.statics ∧
      r'.calls = r.calls ++ callsOf r.statics room ∧
      r'.oneWay = r.oneWay ++ Direction.all.flatMap (oneWayAt r.statics.world room) := by
  have hcall : (callHookInit r room).statics = r.statics ∧
      (callHookInit r room).oneWay = r.oneWay ∧
      (callHookInit r room).calls = r.calls ++ callsOf r.statics room := by
    unfold callHookInit callsOf
    cases room.data.hookInit with
    | none => exact ⟨rfl, rfl, (List.append_nil _).symm⟩
    | some hook => exact ⟨rfl, rfl, rfl⟩
  obtain ⟨hstatics, honeWay, hcalls⟩ := hcall
  have hloop := foldlM_checkExit hdirs Direction.all (hstatics.symm ▸ hexits)
  rw [hstatics, honeWay] at hloop
  refine ⟨{ callHookInit r room with
    oneWay := r.oneWay ++ Direction.all.flatMap (oneWayAt r.statics.world room) }, ?_, hstatics,
    hcalls, rfl⟩
  rw [startRoom, hget, ok_bind, hloop, ← hstatics]

/-- **The third pass returns**, if it comes to rooms whose exits lead to rooms. -/
theorem thirdPass (hdirs : ∀ d : Direction, hashLookup (dirEnv asserts) dirs d = some d.opposite)
    {s : Statics W} (rooms : List (Room W)) (hrooms : ∀ room ∈ rooms,
      roomGet s.world room.id = .ok room ∧ ExitsIn s.world room) {r : Result W} (hr : r.statics = s) :
    ∃ r', (rooms.map Room.id).foldlM (startRoom asserts dirs) r = .ok r' ∧ r'.statics = s ∧
      r'.calls = r.calls ++ rooms.flatMap (callsOf s) ∧
      r'.oneWay = r.oneWay ++ rooms.flatMap fun room =>
        Direction.all.flatMap (oneWayAt s.world room) := by
  induction rooms generalizing r with
  | nil => exact ⟨r, rfl, hr, (List.append_nil _).symm, (List.append_nil _).symm⟩
  | cons room rooms ih =>
    obtain ⟨hget, hexits⟩ := hrooms room (List.mem_cons_self ..)
    subst hr
    obtain ⟨r₁, hturn, hstatics, hcalls, honeWay⟩ := startRoom_ok hdirs hget hexits
    obtain ⟨r', hrest, hstatics', hcalls', honeWay'⟩ :=
      ih (fun room h => hrooms room (List.mem_cons_of_mem _ h)) hstatics
    refine ⟨r', ?_, hstatics', ?_, ?_⟩
    · rw [List.map_cons, List.foldlM_cons, hturn, ok_bind, hrest]
    · rw [hcalls', hcalls, List.flatMap_cons, List.append_assoc]
    · rw [honeWay', honeWay, List.flatMap_cons, List.append_assoc]

end ThirdPass

/-! ## The three passes together -/

section Passes

variable {W : Type} {asserts : Bool} {rooms : List (RoomData W)} {s : Statics W} {sz : ℕ}

theorem roomGet_of_toInt {world : List (Room W)} {id : Int32} {i : ℕ} {room : Room W}
    (hid : id.toInt = i) (hi : world[i]? = some room) : roomGet world id = .ok room := by
  rw [roomGet, hid, if_neg (by omega), Int.toNat_natCast, hi]

/-- The exits of a resolved world lead to rooms. -/
theorem Resolved.exitsIn (h : Resolved asserts rooms s) {room : Room W} (hroom : room ∈ s.world) :
    ExitsIn s.world room := by
  intro dir hne
  cases hdir : room.data.adjacent dir with
  | none => exact absurd (h.closed room hroom dir hdir) hne
  | some name =>
    obtain ⟨i, hi, hid⟩ := h.exits room hroom dir name hdir
    have hlt := (List.getElem?_eq_some_iff.mp hi).1
    rw [length_names, ← h.data, List.length_map] at hlt
    exact ⟨_, roomGet_of_toInt hid (List.getElem?_eq_getElem hlt)⟩

/-- The rooms the third pass comes to: with `2 ^ 31` rooms there are none. -/
theorem exists_started (hs : Added asserts sz rooms s) (hlen : rooms.length ≤ 2 ^ 31) :
    ∃ l, (∀ room ∈ l, room ∈ s.world) ∧ (rooms.length < 2 ^ 31 → l = s.world) ∧
      (List.range (Int32.ofNat s.world.length).toInt.toNat).map Int32.ofNat = l.map Room.id := by
  rcases Nat.lt_or_eq_of_le hlen with hlt | heq
  · refine ⟨s.world, fun room h => h, fun _ => rfl, ?_⟩
    rw [hs.ids, Int32.toInt_ofNat_of_lt (hs.length ▸ hlt), Int.toNat_natCast]
  · refine ⟨[], fun room h => absurd h List.not_mem_nil, fun h => absurd h (by omega), ?_⟩
    rw [hs.length, heq]
    rfl

/-- How the first pass ends, in `world_init`. -/
theorem firstPass_data (asserts : Bool) (data : RoomArray W) (name : CString) :
    (∃ s, data.rooms.foldlM (addRoom asserts) (initStatics data name) = .ok s ∧
        Added asserts data.rooms.length data.rooms s ∧ ¬ Duplicate data.rooms ∧
        Described data.rooms) ∨
      (data.rooms.foldlM (addRoom asserts) (initStatics data name) = .error .fatal ∧
        Duplicate data.rooms ∧ Described data.rooms) ∨
      (data.rooms.foldlM (addRoom asserts) (initStatics data name) = .error .nullPointer ∧
        ¬ Described data.rooms) :=
  firstPass (added_initStatics asserts data name) (Nat.zero_add _).le (fun h => h List.nodup_nil)
    described_nil

/-- **`world_init` of data without faults**, of at most `2 ^ 31` rooms. -/
theorem worldInit_of_sound (asserts : Bool) {data : RoomArray W} (hdup : ¬ Duplicate data.rooms)
    (hdangling : ¬ Dangling data.rooms) (hdesc : Described data.rooms)
    (hlen : data.rooms.length ≤ 2 ^ 31) (name : CString) (w : W) :
    ∃ r l, worldInit asserts data name w = .ok r ∧ Resolved asserts data.rooms r.statics ∧
      (∀ room ∈ l, room ∈ r.statics.world) ∧
      (data.rooms.length < 2 ^ 31 → l = r.statics.world) ∧
      r.calls = l.flatMap (callsOf r.statics) ∧
      r.oneWay = l.flatMap fun room => Direction.all.flatMap (oneWayAt r.statics.world room) := by
  rcases firstPass_data asserts data name with ⟨s, hfirst, hs, -⟩ | ⟨-, h, -⟩ | ⟨-, h⟩
  · obtain ⟨dirs, hmap, hdirs⟩ := dirMap_ok asserts
    have hresolved := hs.resolved hdangling hlen
    obtain ⟨l, hmem, hall, hids⟩ := exists_started hs.resolve hlen
    obtain ⟨r, hthird, hstatics, hcalls, honeWay⟩ := thirdPass (r := ⟨_, w, [], []⟩) hdirs l
      (fun room h => by
        obtain ⟨i, hi⟩ := List.mem_iff_getElem?.mp (hmem room h)
        exact ⟨roomGet_of_toInt (hresolved.ids i room hi) hi, hresolved.exitsIn (hmem room h)⟩) rfl
    refine ⟨r, l, ?_, hstatics ▸ hresolved, hstatics ▸ hmem, hstatics ▸ hall, hstatics ▸ hcalls,
      hstatics ▸ honeWay⟩
    rw [worldInit, hfirst, ok_bind, hs.resolveExits hdangling, ok_bind, hmap, ok_bind, startRooms, hids]
    exact hthird
  · exact absurd h hdup
  · exact absurd hdesc h

/-- **`world_init` of faulty data.** -/
theorem worldInit_of_faulty {data : RoomArray W} (hfaulty : Duplicate data.rooms ∨ Dangling data.rooms)
    (hdesc : Described data.rooms) (name : CString) (w : W) :
    worldInit asserts data name w = .error .fatal := by
  rw [worldInit]
  rcases firstPass_data asserts data name with ⟨s, hfirst, hs, hdup, -⟩ | ⟨hfirst, -⟩ | ⟨-, h⟩
  · rw [hfirst, ok_bind, hs.resolveExits_stops (hfaulty.resolve_left hdup)]
    rfl
  · rw [hfirst]
    rfl
  · exact absurd hdesc h

/-- **`world_init` of a room without a name or a description.** -/
theorem worldInit_of_null (asserts : Bool) {data : RoomArray W} (hdesc : ¬ Described data.rooms)
    (name : CString) (w : W) : worldInit asserts data name w = .error .nullPointer := by
  rw [worldInit]
  rcases firstPass_data asserts data name with ⟨s, -, -, -, h⟩ | ⟨-, -, h⟩ | ⟨hfirst, -⟩
  · exact absurd h hdesc
  · exact absurd h hdesc
  · rw [hfirst]
    rfl

/-- The third pass leaves the world as it is. -/
theorem statics_of_startRooms {dirs : HashMap Direction Direction} {r r' : Result W}
    (h : startRooms asserts dirs r = .ok r') : r'.statics = r.statics := by
  have hexit : ∀ (i : Int32) (room : Room W) (r₁ : Result W) (j : Direction),
      r₁.statics = r.statics → Sat (fun _ => True) (checkExit asserts dirs i room r₁ j)
        fun r₂ => r₂.statics = r.statics := by
    intro i room r₁ j hr₁
    unfold checkExit
    split
    · exact hr₁
    · split
      · exact trivial
      · refine sat_bind (P := fun _ => True) ?_ fun adj _ => ?_
        · cases roomGet r₁.statics.world (room.adjacent j) <;> exact trivial
        · split <;> exact hr₁
  have hturn : ∀ (i : Int32) (r₁ : Result W), r₁.statics = r.statics →
      Sat (fun _ => True) (startRoom asserts dirs r₁ i) fun r₂ => r₂.statics = r.statics := by
    intro i r₁ hr₁
    refine sat_bind (P := fun _ => True) ?_ fun room _ => ?_
    · cases roomGet r₁.statics.world i <;> exact trivial
    · refine sat_foldlM_mem (fun j _ r₂ hr₂ => hexit i room r₂ j hr₂) ?_
      unfold callHookInit
      split <;> exact hr₁
  have hrun : Sat (fun _ => True) (startRooms asserts dirs r) fun r₂ => r₂.statics = r.statics :=
    sat_foldlM_mem (fun i _ r₁ hr₁ => hturn i r₁ hr₁) rfl
  exact hrun.of_eq h

/-- With more rooms than an id can count the world is not resolved. -/
theorem not_resolved_of_worldInit {data : RoomArray W} (hlen : 2 ^ 31 < data.rooms.length)
    {name : CString} {w : W} {r : Result W} (h : worldInit asserts data name w = .ok r) :
    ¬ Resolved asserts data.rooms r.statics := by
  obtain ⟨s, hfirst, h⟩ := bind_eq_ok h
  obtain ⟨s', hsecond, h⟩ := bind_eq_ok h
  obtain ⟨dirs, -, hthird⟩ := bind_eq_ok h
  rw [statics_of_startRooms hthird]
  rcases firstPass_data asserts data name with ⟨s₁, hs₁, hadded, -⟩ | ⟨hs₁, -⟩ | ⟨hs₁, -⟩
  · obtain rfl := Except.ok.inj (hfirst.symm.trans hs₁)
    by_cases hdangling : Dangling data.rooms
    · exact absurd (hsecond.symm.trans (hadded.resolveExits_stops hdangling)) (by simp)
    · obtain rfl := Except.ok.inj (hsecond.symm.trans (hadded.resolveExits hdangling))
      exact hadded.resolve.not_resolved hlen
  · exact absurd (hfirst.symm.trans hs₁) (by simp)
  · exact absurd (hfirst.symm.trans hs₁) (by simp)

/-- **When `world_init` resolves every exit.**  Every room the first pass comes to has a name and a
description; and the data are faulty, or there are at most `2 ^ 31` rooms. -/
theorem resolvesExits_iff (asserts : Bool) (data : RoomArray W) (name : CString) (w : W) :
    ResolvesExits asserts data name w ↔ Described data.rooms ∧
      (Duplicate data.rooms ∨ Dangling data.rooms ∨ data.rooms.length ≤ 2 ^ 31) := by
  constructor
  · rintro ⟨hstops, hreturns⟩
    have hdesc : Described data.rooms := by
      by_contra hdesc
      have hnull := worldInit_of_null asserts hdesc name w
      have hfine : ¬ (Duplicate data.rooms ∨ Dangling data.rooms) := fun hfaulty =>
        absurd (hnull.symm.trans (hstops.mpr hfaulty)) (by simp)
      obtain ⟨hdup, hdangling⟩ := not_or.mp hfine
      obtain ⟨r, hr, -⟩ := hreturns hdup hdangling
      exact absurd (hnull.symm.trans hr) (by simp)
    refine ⟨hdesc, ?_⟩
    by_contra hbad
    obtain ⟨hdup, hbad⟩ := not_or.mp hbad
    obtain ⟨hdangling, hlen⟩ := not_or.mp hbad
    obtain ⟨r, hr, hresolved, -⟩ := hreturns hdup hdangling
    exact not_resolved_of_worldInit (Nat.lt_of_not_le hlen) hr hresolved
  · rintro ⟨hdesc, hlen⟩
    by_cases hfaulty : Duplicate data.rooms ∨ Dangling data.rooms
    · refine ⟨iff_of_true (worldInit_of_faulty hfaulty hdesc name w) hfaulty, fun hdup hdangling => ?_⟩
      exact absurd hfaulty (not_or.mpr ⟨hdup, hdangling⟩)
    · obtain ⟨hdup, hdangling⟩ := not_or.mp hfaulty
      have hlen := (hlen.resolve_left hdup).resolve_left hdangling
      obtain ⟨r, l, hr, hresolved, -, -, hcalls, -⟩ := worldInit_of_sound asserts hdup
        hdangling hdesc hlen name w
      refine ⟨iff_of_false (fun h => absurd (hr.symm.trans h) (by simp)) hfaulty, fun _ _ => ?_⟩
      refine ⟨r, hr, hresolved, fun call hcall => ?_⟩
      rw [hcalls] at hcall
      obtain ⟨room, -, hcall⟩ := List.mem_flatMap.mp hcall
      unfold callsOf at hcall
      split at hcall
      · rw [List.mem_singleton.mp hcall]
        exact hresolved
      · exact absurd hcall List.not_mem_nil

/-- One room, which has no name and no exits. -/
def namelessRoom : RoomArray Unit :=
  ⟨[⟨letter 97, none, some (letter 98), fun _ => none, none⟩], by decide⟩

/-- **A room without a name** stops the server. -/
theorem nameless_room_stops : ¬ ResolvesExits true namelessRoom (letter 99) () := by
  intro h
  obtain ⟨r, hr, -⟩ := h.2 (fun h => h (by decide)) (by
    rintro ⟨room, hroom, dir, name, hdir, -⟩
    rw [List.mem_singleton.mp hroom] at hdir
    exact absurd hdir (by simp))
  exact absurd (hr.symm.trans (show _ = Except.error Fault.nullPointer from rfl)) (by simp)

end Passes

/-! ## What the third pass finds -/

section Found

variable {W : Type} {asserts : Bool} {rooms : List (RoomData W)} {s : Statics W}

/-- An id belongs to one name. -/
theorem IdOf.name_eq {name name' : CString} {id : Int32} (h : IdOf rooms name id)
    (h' : IdOf rooms name' id) : name = name' := by
  obtain ⟨i, hi, hid⟩ := h
  obtain ⟨i', hi', hid'⟩ := h'
  obtain rfl : i = i' := by omega
  exact Option.some.inj (hi.symm.trans hi')

/-- A name belongs to one id. -/
theorem IdOf.id_eq (hdup : ¬ Duplicate rooms) {name : CString} {id id' : Int32}
    (h : IdOf rooms name id) (h' : IdOf rooms name id') : id = id' := by
  obtain ⟨i, hi, hid⟩ := h
  obtain ⟨i', hi', hid'⟩ := h'
  have hlt := (List.getElem?_eq_some_iff.mp hi).1
  have heq := (List.getElem?_inj hlt (not_not.mp hdup)).mp (hi.trans hi'.symm)
  exact Int32.toInt.inj (by rw [hid, hid', heq])

/-- The id of a room is that of its name. -/
theorem Resolved.idOf (h : Resolved asserts rooms s) {room : Room W} (hroom : room ∈ s.world) :
    IdOf rooms room.data.uniqId room.id := by
  obtain ⟨i, hi⟩ := List.mem_iff_getElem?.mp hroom
  refine ⟨i, ?_, h.ids i room hi⟩
  rw [names, ← h.data, List.map_map, List.getElem?_map, hi]
  rfl

/-- **An exit leads to a room exactly when it was given its name.** -/
theorem Resolved.adjacent_eq_iff (h : Resolved asserts rooms s) (hdup : ¬ Duplicate rooms)
    {room adj : Room W} (hroom : room ∈ s.world) (hadj : adj ∈ s.world) (dir : Direction) :
    adj.adjacent dir = room.id ↔ adj.data.adjacent dir = some room.data.uniqId := by
  have hid := h.idOf hroom
  cases hdir : adj.data.adjacent dir with
  | none =>
    rw [h.closed adj hadj dir hdir]
    refine iff_of_false (fun heq => ?_) (by simp)
    obtain ⟨i, -, hi⟩ := hid
    rw [← heq] at hi
    exact absurd hi (by rw [show ROOM_NONE.toInt = -1 from rfl]; omega)
  | some name =>
    have hname := h.exits adj hadj dir name hdir
    rw [Option.some.injEq]
    refine ⟨fun heq => ?_, fun heq => ?_⟩
    · rw [heq] at hname
      exact hname.name_eq hid
    · rw [heq] at hname
      exact hname.id_eq hdup hid

/-- What a read through an exit finds is a room of the world. -/
theorem mem_of_roomGet {world : List (Room W)} {id : Int32} {room : Room W}
    (h : roomGet world id = .ok room) : room ∈ world ∧ ∃ i : ℕ, id.toInt = i ∧ world[i]? = some room := by
  unfold roomGet at h
  split at h
  · exact absurd h (by simp)
  · rename_i hneg
    cases hi : world[id.toInt.toNat]? with
    | none =>
      rw [hi] at h
      exact absurd h (by simp)
    | some room' =>
      rw [hi] at h
      obtain rfl := Except.ok.inj h
      exact ⟨List.mem_of_getElem? hi, id.toInt.toNat, (Int.toNat_of_nonneg (by omega)).symm, hi⟩

/-- What is reported of an exit, by its names. -/
theorem Resolved.mem_oneWayAt (h : Resolved asserts rooms s) (hdup : ¬ Duplicate rooms) {room : Room W}
    (hroom : room ∈ s.world) {dir : Direction} {a b : CString} :
    (a, b) ∈ oneWayAt s.world room dir ↔ room.data.uniqId = a ∧ room.data.adjacent dir = some b ∧
      ∃ back ∈ rooms, back.uniqId = b ∧ back.adjacent dir.opposite ≠ some a := by
  unfold oneWayAt
  cases hdir : room.data.adjacent dir with
  | none =>
    rw [if_pos (h.closed room hroom dir hdir)]
    simp
  | some name =>
    have hid := h.exits room hroom dir name hdir
    have hne : room.adjacent dir ≠ ROOM_NONE := by
      obtain ⟨i, -, hi⟩ := hid
      intro heq
      rw [heq, show ROOM_NONE.toInt = -1 from rfl] at hi
      omega
    obtain ⟨adj, hadj⟩ := h.exitsIn hroom dir hne
    obtain ⟨hmem, -⟩ := mem_of_roomGet hadj
    have hroomid : room.adjacent dir = adj.id := by
      obtain ⟨-, i, hi, hget⟩ := mem_of_roomGet hadj
      exact Int32.toInt.inj (hi.trans (h.ids i adj hget).symm)
    have hname := (Option.some.inj
      (((h.adjacent_eq_iff hdup hmem hroom dir).mp hroomid).symm.trans hdir))
    have hback := h.adjacent_eq_iff hdup hroom hmem dir.opposite
    have hdata : adj.data ∈ rooms := h.data ▸ List.mem_map_of_mem hmem
    rw [if_neg hne, hadj]
    dsimp only
    constructor
    · intro hin
      split at hin
      · rename_i hway
        obtain ⟨rfl, rfl⟩ := Prod.mk.inj (List.mem_singleton.mp hin)
        exact ⟨rfl, by rw [hname], adj.data, hdata, rfl, fun heq => hway (hback.mpr heq)⟩
      · exact absurd hin List.not_mem_nil
    · rintro ⟨rfl, hb, back, hbackmem, hbackname, hway⟩
      obtain rfl := hname.trans (Option.some.inj hb)
      have hsame : back = adj.data :=
        List.inj_on_of_nodup_map (not_not.mp hdup) hbackmem hdata hbackname
      rw [hsame] at hway
      rw [if_pos fun heq => hway (hback.mp heq)]
      exact List.mem_singleton_self _

/-- **The third pass reports the passages that lead one way only**, by the names of the rooms. -/
theorem oneWay_of_worldInit {data : RoomArray W} (hdup : ¬ Duplicate data.rooms)
    (hdangling : ¬ Dangling data.rooms) (hdesc : Described data.rooms)
    (hlen : data.rooms.length < 2 ^ 31) {name : CString} {w : W} {r : Result W}
    (h : worldInit asserts data name w = .ok r) (a b : CString) :
    (a, b) ∈ r.oneWay ↔ ∃ room ∈ data.rooms, room.uniqId = a ∧ ∃ dir, room.adjacent dir = some b ∧
      ∃ back ∈ data.rooms, back.uniqId = b ∧ back.adjacent dir.opposite ≠ some a := by
  obtain ⟨r', l, hr', hresolved, -, hall, -, honeWay⟩ := worldInit_of_sound asserts hdup
    hdangling hdesc hlen.le name w
  obtain rfl := Except.ok.inj (h.symm.trans hr')
  rw [honeWay, hall hlen]
  simp only [List.mem_flatMap]
  constructor
  · rintro ⟨room, hroom, dir, -, hin⟩
    obtain ⟨ha, hb, hback⟩ := (hresolved.mem_oneWayAt hdup hroom).mp hin
    exact ⟨room.data, hresolved.data ▸ List.mem_map_of_mem hroom, ha, dir, hb, hback⟩
  · rintro ⟨data, hdata, ha, dir, hb, hback⟩
    obtain ⟨room, hroom, rfl⟩ := List.mem_map.mp (hresolved.data ▸ hdata)
    exact ⟨room, hroom, dir, dir.mem_all, (hresolved.mem_oneWayAt hdup hroom).mpr ⟨ha, hb, hback⟩⟩

/-- **Every hook is called once**, in the order of the rooms and with the id of its room. -/
theorem calls_of_worldInit {data : RoomArray W} (hdup : ¬ Duplicate data.rooms)
    (hdangling : ¬ Dangling data.rooms) (hdesc : Described data.rooms)
    (hlen : data.rooms.length < 2 ^ 31) {name : CString} {w : W} {r : Result W}
    (h : worldInit asserts data name w = .ok r) :
    r.calls.map InitCall.id =
      (r.statics.world.filter fun room => room.data.hookInit.isSome).map Room.id := by
  obtain ⟨r', l, hr', -, -, hall, hcalls, -⟩ := worldInit_of_sound asserts hdup
    hdangling hdesc hlen.le name w
  obtain rfl := Except.ok.inj (h.symm.trans hr')
  rw [hcalls, hall hlen]
  induction r.statics.world with
  | nil => rfl
  | cons room world ih =>
    rw [List.flatMap_cons, List.map_append, ih, callsOf, List.filter_cons]
    split <;> rfl

/-- The exits of a room as `req_move_room` reads them. -/
def Room.exits (room : Room W) : List (Option RoomId) :=
  Direction.all.map fun dir =>
    if room.adjacent dir = ROOM_NONE then none else some (room.adjacent dir).toInt.toNat

/-- **Users can walk about in a resolved world**: the exits are those that moves rely on. -/
theorem Resolved.exits_sound (h : Resolved asserts rooms s) {V : Type} {server : Moving.Server V}
    (hrooms : server.rooms.map Moving.Room.adjacent = s.world.map Room.exits) :
    ∀ room ∈ server.rooms, room.adjacent.length = NUM_DIRECTIONS ∧
      ∀ id, some id ∈ room.adjacent → id < server.rooms.length := by
  intro room hroom
  have hlen : server.rooms.length = s.world.length := by
    rw [← List.length_map Moving.Room.adjacent, hrooms, List.length_map]
  have hmem : room.adjacent ∈ s.world.map Room.exits := hrooms ▸ List.mem_map_of_mem hroom
  obtain ⟨built, hbuilt, heq⟩ := List.mem_map.mp hmem
  rw [← heq, hlen]
  refine ⟨rfl, fun id hid => ?_⟩
  obtain ⟨dir, -, hdir⟩ := List.mem_map.mp hid
  split at hdir
  · exact absurd hdir (by simp)
  · rename_i hne
    obtain ⟨adj, hadj⟩ := h.exitsIn hbuilt dir hne
    obtain ⟨-, i, hi, hget⟩ := mem_of_roomGet hadj
    rw [← Option.some.inj hdir, hi, Int.toNat_natCast]
    exact (List.getElem?_eq_some_iff.mp hget).1

end Found

end WorldInit

end NetCosm
