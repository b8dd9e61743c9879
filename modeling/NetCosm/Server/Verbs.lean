import NetCosm.Library.Simulation
import NetCosm.Storage.WorldFile
import NetCosm.Text.Words

/-!
# Verbs, and who executes a line

Every room has a map of verbs, and there is one for the whole world.  A world module adds verbs and
takes them out, and `req_execverb` looks the first word of a line up in the map of the room the sender
is in, and then in that of the world.

## Containers

The functions of `hash.c` take a `void *`.  What it points at is told apart by its first byte: a map
begins with `HASH_SENTINEL`, and everything else is expected to begin with something else.
`room_verb_del` hands `hash_remove` the room and not its map of verbs.  A `struct room_t` begins with
its id, so that the least significant byte of the id is taken for the sentinel; and where it is the
sentinel, the string `uniq_id` is called as the hash function of the map.

## Ownership

A verb that has been added belongs to the map, which frees it when it is taken out.  Verbs are values
here: a call that adds one has made it with `verb_new`, and uses it no more if it could be added.

## Main results

`Verbs.Tables` is what the maps are for, a verb for each name in each room and one for each name in the
world, and `Verbs.specCall` says what the calls do to it.  `verbCalls_eq_iff` says which sequences of
calls are answered as specified: those in which nothing is taken out of a room.
-/

namespace NetCosm

namespace Verbs

open Storage (Verb VerbTable)

/-! ## The state -/

/-- The maps of verbs: one for every room, and that of the world, which is made when it is used
for the first time. -/
structure State where
  rooms : List VerbTable
  verbMap : Option VerbTable

/-- `VERBMAP_SZ` of a room. -/
def ROOM_VERBMAP_SZ : ℕ := 8

/-- `VERBMAP_SZ` of the world. -/
def VERBMAP_SZ : ℕ := 32

/-- A world of `n` rooms that has been initialised. -/
def State.init (n : ℕ) : State where
  rooms := List.replicate n (hashInit ROOM_VERBMAP_SZ)
  verbMap := none

/-- `world_verb_map`, with `init_map`. -/
def worldVerbMap (s : State) : VerbTable := s.verbMap.getD (hashInit VERBMAP_SZ)

/-- `HASH_SENTINEL`. -/
def HASH_SENTINEL : UInt8 := 0x10

/-- What a `void *` given to `hash.c` points at. -/
inductive Container where
  | map (table : VerbTable)
  | room (id : RoomId)

/-- The first byte of a container. -/
def Container.sentinel : Container → UInt8
  | .map _ => HASH_SENTINEL
  | .room id => UInt8.ofNat id

/-- The table of a container, after `CHECK_SENTINEL`.  A room that passes the check is not a map. -/
def Container.table (c : Container) : Except Fault VerbTable :=
  if c.sentinel ≠ HASH_SENTINEL then .error .fatal
  else
    match c with
    | .map table => .ok table
    | .room _ => .error .outOfBounds

/-- `room_get`, which does not check its index, and a read of `verbs`. -/
def roomVerbMap (s : State) (id : RoomId) : Except Fault VerbTable :=
  match s.rooms[id]? with
  | some table => .ok table
  | none => .error .outOfBounds

/-! ## `room.c` and `world.c` -/

/-- `room_verb_add`. -/
def roomVerbAdd (asserts : Bool) (s : State) (id : RoomId) (verb : Verb) :
    Except Fault (Bool × State) := do
  let verbs ← roomVerbMap s id
  let table ← Container.table (.map verbs)
  let r ← hashInsert (namesEnv asserts) table verb.name verb
  .ok (r.1.isNone, { s with rooms := s.rooms.set id r.2 })

/-- `room_verb_del`: what is given to `hash_remove` is the room. -/
def roomVerbDel (asserts : Bool) (s : State) (id : RoomId) (name : CString) :
    Except Fault (Bool × State) := do
  let table ← Container.table (.room id)
  let r := hashRemove (namesEnv asserts) table name
  .ok (r.1.isSome, { s with rooms := s.rooms.set id r.2 })

/-- `world_verb_add`. -/
def worldVerbAdd (asserts : Bool) (s : State) (verb : Verb) : Except Fault (Bool × State) := do
  let table ← Container.table (.map (worldVerbMap s))
  let r ← hashInsert (namesEnv asserts) table verb.name verb
  .ok (r.1.isNone, { s with verbMap := some r.2 })

/-- `world_verb_del`. -/
def worldVerbDel (asserts : Bool) (s : State) (verb : Verb) : Except Fault (Bool × State) := do
  let table ← Container.table (.map (worldVerbMap s))
  let r := hashRemove (namesEnv asserts) table verb.name
  .ok (r.1.isSome, { s with verbMap := some r.2 })

/-! ## `req_execverb` -/

/-- What a sender is known by: its room, and whether the world module takes its lines as they are. -/
structure Sender where
  room : RoomId
  rawModeCb : Bool

/-- What becomes of a line. -/
inductive Outcome where
  /-- `raw_mode_cb` is called with it. -/
  | raw (data : CString)
  /-- `hook_exec` of a verb is called with what may follow the first word. -/
  | exec (verb : Verb) (args : Option CString)
  /-- The sender is told that nobody knows what it means. -/
  | unknown

/-- The delimiters `" \t"`. -/
def isBlank (c : UInt8) : Bool := c == 32 || c == 9

/-- `req_execverb`. -/
def reqExecverb (asserts : Bool) (s : State) (sender : Sender) (data : CString) :
    Except Fault (Outcome × State) :=
  if sender.rawModeCb then .ok (.raw data, s)
  else
    match strtok isBlank data with
    | none => .error .nullPointer
    | some (tok, save) => do
        let tok := allLower tok
        let args := (strtok (fun _ => false) save).map Prod.fst
        let localMap ← roomVerbMap s sender.room
        let table ← Container.table (.map localMap)
        match hashLookup (namesEnv asserts) table tok with
        | some verb => .ok (.exec verb args, s)
        | none => do
            let s := { s with verbMap := some (worldVerbMap s) }
            let table ← Container.table (.map (worldVerbMap s))
            match hashLookup (namesEnv asserts) table tok with
            | some verb => .ok (.exec verb args, s)
            | none => .ok (.unknown, s)

/-- The verb of a room with a name. -/
def verbInRoom (asserts : Bool) (s : State) (room : RoomId) (word : CString) : Option Verb :=
  s.rooms[room]?.bind fun table => hashLookup (namesEnv asserts) table word

/-- The verb with a name: that of the room, or else that of the world. -/
def verbFound (asserts : Bool) (s : State) (room : RoomId) (word : CString) : Option Verb :=
  (verbInRoom asserts s room word).or (hashLookup (namesEnv asserts) (worldVerbMap s) word)

/-- The maps when a name has been looked up.  That of the world is made when it is asked. -/
def verbsAsked (asserts : Bool) (s : State) (room : RoomId) (word : CString) : State :=
  if (verbInRoom asserts s room word).isSome then s
  else { s with verbMap := some (worldVerbMap s) }

/-! ## Calls -/

/-- What a world module and the senders do with verbs. -/
inductive Call where
  | roomAdd (id : RoomId) (verb : Verb)
  | roomDel (id : RoomId) (name : CString)
  | worldAdd (verb : Verb)
  | worldDel (verb : Verb)
  | exec (sender : Sender) (data : CString)

/-- What is returned, or becomes of a line. -/
inductive Answer where
  | done (b : Bool)
  | ran (o : Outcome)

/-- A call, answered by the program. -/
def call (asserts : Bool) (s : State) : Call → Except Fault (Answer × State)
  | .roomAdd id verb => (roomVerbAdd asserts s id verb).map fun r => (.done r.1, r.2)
  | .roomDel id name => (roomVerbDel asserts s id name).map fun r => (.done r.1, r.2)
  | .worldAdd verb => (worldVerbAdd asserts s verb).map fun r => (.done r.1, r.2)
  | .worldDel verb => (worldVerbDel asserts s verb).map fun r => (.done r.1, r.2)
  | .exec sender data => (reqExecverb asserts s sender data).map fun r => (.ran r.1, r.2)

/-! ## What verbs are for -/

/-- Which verb has a name, in a room and in the world. -/
structure Tables where
  room : RoomId → CString → Option Verb
  world : CString → Option Verb

/-- Nobody knows anything. -/
def Tables.empty : Tables := ⟨fun _ _ => none, fun _ => none⟩

/-- The first word of a line, and what follows it after one blank. -/
def wordOf (data : CString) : CString := (data.dropWhile isBlank).takeWhile fun c => !isBlank c

/-- What follows the first word of a line after one blank, if there is anything. -/
def argsOf (data : CString) : Option CString :=
  let rest := ((data.dropWhile isBlank).dropWhile fun c => !isBlank c).drop 1
  if rest.bytes = [] then none else some rest

/-- Who executes a line: the verb of the room, or else that of the world. -/
def Tables.outcome (t : Tables) (sender : Sender) (data : CString) : Outcome :=
  if sender.rawModeCb then .raw data
  else
    match (t.room sender.room (allLower (wordOf data))).or (t.world (allLower (wordOf data))) with
    | some verb => .exec verb (argsOf data)
    | none => .unknown

/-- A verb is added to the verbs of some names, unless there is one of its name. -/
def addVerb (verbs : CString → Option Verb) (verb : Verb) : CString → Option Verb :=
  if (verbs verb.name).isNone then Function.update verbs verb.name (some verb) else verbs

/-- **What the calls are to do.** -/
def specCall (t : Tables) : Call → Answer × Tables
  | .roomAdd id verb => (.done (t.room id verb.name).isNone,
      { t with room := Function.update t.room id (addVerb (t.room id) verb) })
  | .roomDel id name => (.done (t.room id name).isSome,
      { t with room := Function.update t.room id (Function.update (t.room id) name none) })
  | .worldAdd verb => (.done (t.world verb.name).isNone, { t with world := addVerb t.world verb })
  | .worldDel verb => (.done (t.world verb.name).isSome,
      { t with world := Function.update t.world verb.name none })
  | .exec sender data => (.ran (t.outcome sender data), t)

/-- The call takes nothing out of a room; its room is there, and its line has a word; and a map that has
to grow has less than `2 ^ 32` buckets. -/
def Guard (asserts : Bool) (s : State) : Call → Prop
  | .roomAdd id verb => ∃ table, s.rooms[id]? = some table ∧
      InsertEnds (namesEnv asserts) table verb.name verb
  | .roomDel _ _ => False
  | .worldAdd verb => InsertEnds (namesEnv asserts) (worldVerbMap s) verb.name verb
  | .worldDel _ => True
  | .exec sender data => sender.rawModeCb = false →
      (data.dropWhile isBlank).bytes ≠ [] ∧ sender.room < s.rooms.length

/-! ## Words -/

section Words

theorem drop_length_takeWhile {A : Type} (p : A → Bool) (l : List A) :
    l.drop (l.takeWhile p).length = l.dropWhile p := by
  have h := congrArg (List.drop (l.takeWhile p).length) (List.takeWhile_append_dropWhile (p := p)
    (l := l))
  rwa [List.drop_left, eq_comm] at h

/-- **What `strtok_r` makes of a line**: its first word, and what follows it after one blank. -/
theorem strtok_isBlank (data : CString) :
    strtok isBlank data = if (data.dropWhile isBlank).bytes = [] then none
      else some (wordOf data, ((data.dropWhile isBlank).dropWhile fun c => !isBlank c).drop 1) := by
  rw [strtok]
  dsimp only
  split
  · rfl
  · refine congrArg (fun rest => some (wordOf data, rest)) (CString.ext ?_)
    show (data.dropWhile isBlank).bytes.drop (((data.dropWhile isBlank).bytes.takeWhile
      fun c => !isBlank c).length + 1) = (((data.dropWhile isBlank).bytes.dropWhile
        fun c => !isBlank c).drop 1)
    rw [← List.drop_drop, drop_length_takeWhile]

/-- With no delimiters, the rest of the line is a word if it is not empty. -/
theorem strtok_rest (save : CString) :
    (strtok (fun _ => false) save).map Prod.fst = if save.bytes = [] then none else some save := by
  have hdrop : save.dropWhile (fun _ => false) = save :=
    CString.ext (List.dropWhile_eq_self_iff.mpr fun _ => Bool.false_ne_true)
  have htake : (save.takeWhile fun _ => !false) = save :=
    CString.ext (List.takeWhile_eq_self_iff.mpr fun _ _ => rfl)
  rw [strtok, hdrop, htake]
  dsimp only
  split
  · rfl
  · rfl

end Words

/-! ## Maps of verbs -/

section Maps

variable {asserts : Bool} {table : VerbTable} {verbs : CString → Option Verb}

/-- **A map holds the verbs of some names.** -/
structure Holds (asserts : Bool) (table : VerbTable) (verbs : CString → Option Verb) : Prop where
  placed : table.WellPlaced (namesEnv asserts)
  counted : table.Counted (namesEnv asserts)
  entries : ∀ name, hashEntry (namesEnv asserts) table name = (verbs name).map fun verb => (name, verb)

theorem holds_hashInit (asserts : Bool) (sz : ℕ) : Holds asserts (hashInit sz) fun _ => none where
  placed := wellPlaced_hashInit _ sz
  counted _ := (sane_fresh _).entries
  entries name := by rw [hashInit, hashEntry_fresh, Option.map_none]

theorem Holds.lookup (h : Holds asserts table verbs) (name : CString) :
    hashLookup (namesEnv asserts) table name = verbs name := by
  rw [hashLookup_eq_map, h.entries, Option.map_map]
  exact Option.map_id' ..

theorem Holds.insert (h : Holds asserts table verbs) {verb : Verb}
    (hends : InsertEnds (namesEnv asserts) table verb.name verb) :
    ∃ table', hashInsert (namesEnv asserts) table verb.name verb =
        .ok (verbs verb.name, table') ∧ Holds asserts table' (addVerb verbs verb) := by
  obtain ⟨table', hins, hplaced, hcounted, hentries⟩ := hashInsert_of_ends
    (compatible_namesEnv asserts) h.placed h.counted hends
  refine ⟨table', by rw [hins, h.lookup], hplaced, hcounted, fun name => ?_⟩
  rw [hentries, h.entries, addVerb]
  simp only [namesEnv_same_iff, Option.map_eq_none_iff]
  by_cases hname : verb.name = name
  · subst hname
    cases hv : verbs verb.name with
    | none => simp
    | some old => simp [hv]
  · rw [if_neg fun h => hname h.1]
    split
    · rw [Function.update_of_ne (Ne.symm hname)]
    · rfl

theorem Holds.remove (h : Holds asserts table verbs) (name : CString) :
    (hashRemove (namesEnv asserts) table name).1.isSome = (verbs name).isSome ∧
      Holds asserts (hashRemove (namesEnv asserts) table name).2 (Function.update verbs name none) := by
  obtain ⟨hsome, hplaced, hentries⟩ := hashRemove_entries (compatible_namesEnv asserts) h.placed name
  refine ⟨by rw [hsome, h.lookup], hplaced, counted_hashRemove h.counted name, fun name' => ?_⟩
  rw [hentries, h.entries]
  simp only [namesEnv_same_iff]
  by_cases hname : name = name'
  · rw [if_pos hname, ← hname, Function.update_self]
    rfl
  · rw [if_neg hname, Function.update_of_ne (Ne.symm hname)]

end Maps

/-! ## The program does what is specified -/

section Simulation

variable {asserts : Bool} {s : State} {t : Tables}

/-- The maps hold what the tables say. -/
structure Refines (asserts : Bool) (s : State) (t : Tables) : Prop where
  rooms : ∀ id table, s.rooms[id]? = some table → Holds asserts table (t.room id)
  world : Holds asserts (worldVerbMap s) t.world

theorem refines_init (asserts : Bool) (n : ℕ) : Refines asserts (State.init n) Tables.empty where
  rooms id table h := by
    rw [List.eq_of_mem_replicate (List.mem_of_getElem? h)]
    exact holds_hashInit asserts _
  world := holds_hashInit asserts _

/-- Another map for a room. -/
theorem Refines.set (h : Refines asserts s t) {id : RoomId} {table : VerbTable}
    {verbs : CString → Option Verb} (htable : Holds asserts table verbs) :
    Refines asserts { s with rooms := s.rooms.set id table }
      { t with room := Function.update t.room id verbs } where
  rooms i table' hi := by
    by_cases hid : i = id
    · subst hid
      obtain rfl : table = table' := by
        rw [List.getElem?_set] at hi
        simp only [if_true] at hi
        split at hi
        · exact Option.some.inj hi
        · exact absurd hi (by simp)
      show Holds asserts table (Function.update t.room i verbs i)
      rwa [Function.update_self]
    · show Holds asserts table' (Function.update t.room id verbs i)
      rw [Function.update_of_ne hid]
      exact h.rooms i table' ((List.getElem?_set_ne (Ne.symm hid)).symm.trans hi)
  world := h.world

/-- Another map for the world. -/
theorem Refines.setWorld (h : Refines asserts s t) {table : VerbTable}
    {verbs : CString → Option Verb} (htable : Holds asserts table verbs) :
    Refines asserts { s with verbMap := some table } { t with world := verbs } :=
  ⟨h.rooms, htable⟩

theorem table_map (table : VerbTable) : Container.table (.map table) = .ok table := rfl

/-- **A room is not a map of verbs.** -/
theorem table_room (id : RoomId) : ∃ e, Container.table (.room id) = .error e := by
  rw [Container.table]
  split
  · exact ⟨_, rfl⟩
  · exact ⟨_, rfl⟩

theorem roomVerbMap_of_getElem {id : RoomId} {table : VerbTable} (h : s.rooms[id]? = some table) :
    roomVerbMap s id = .ok table := by
  rw [roomVerbMap, h]

/-- **What `req_execverb` finds**, if the line has a word and the room is there. -/
theorem reqExecverb_found {room : RoomId} {data : CString} (hword : (data.dropWhile isBlank).bytes ≠ [])
    (hroom : room < s.rooms.length) :
    reqExecverb asserts s ⟨room, false⟩ data =
      .ok (match verbFound asserts s room (allLower (wordOf data)) with
        | some verb => .exec verb (argsOf data)
        | none => .unknown,
        verbsAsked asserts s room (allLower (wordOf data))) := by
  have hget := List.getElem?_eq_getElem hroom
  have hlocal : verbInRoom asserts s room (allLower (wordOf data)) =
      hashLookup (namesEnv asserts) s.rooms[room] (allLower (wordOf data)) := by
    rw [verbInRoom, hget]
    rfl
  rw [reqExecverb, if_neg Bool.false_ne_true, strtok_isBlank, if_neg hword]
  dsimp only
  rw [roomVerbMap_of_getElem hget, ok_bind, table_map, ok_bind, strtok_rest, verbFound, verbsAsked, hlocal]
  cases hashLookup (namesEnv asserts) s.rooms[room] (allLower (wordOf data)) with
  | some verb => rfl
  | none =>
    have hworld : worldVerbMap { s with verbMap := some (worldVerbMap s) } = worldVerbMap s := rfl
    dsimp only
    rw [table_map, ok_bind, Option.none_or, hworld]
    cases hashLookup (namesEnv asserts) (worldVerbMap s) (allLower (wordOf data)) with
    | some verb => rfl
    | none => rfl

/-- And otherwise it stops. -/
theorem reqExecverb_stops {room : RoomId} {data : CString}
    (h : (data.dropWhile isBlank).bytes ≠ [] → s.rooms.length ≤ room) :
    ∃ e, reqExecverb asserts s ⟨room, false⟩ data = .error e := by
  rw [reqExecverb, if_neg Bool.false_ne_true, strtok_isBlank]
  by_cases hword : (data.dropWhile isBlank).bytes = []
  · rw [if_pos hword]
    exact ⟨_, rfl⟩
  · rw [if_neg hword]
    dsimp only
    rw [roomVerbMap, List.getElem?_eq_none (h hword)]
    exact ⟨_, rfl⟩

/-- **A line is executed as the tables say.** -/
theorem Refines.exec (h : Refines asserts s t) {sender : Sender} {data : CString}
    (hG : Guard asserts s (.exec sender data)) :
    ∃ s', reqExecverb asserts s sender data = .ok (t.outcome sender data, s') ∧
      Refines asserts s' t := by
  obtain ⟨room, rawModeCb⟩ := sender
  cases rawModeCb with
  | true => exact ⟨s, rfl, h⟩
  | false =>
    obtain ⟨hword, hroom⟩ := hG rfl
    have hlocal : verbInRoom asserts s room (allLower (wordOf data)) =
        t.room room (allLower (wordOf data)) := by
      rw [verbInRoom, List.getElem?_eq_getElem hroom]
      exact (h.rooms _ _ (List.getElem?_eq_getElem hroom)).lookup _
    refine ⟨verbsAsked asserts s room (allLower (wordOf data)), ?_, ?_⟩
    · rw [reqExecverb_found hword hroom, Tables.outcome, if_neg Bool.false_ne_true, verbFound, hlocal, h.world.lookup]
    · rw [verbsAsked]
      split
      · exact h
      · exact ⟨h.rooms, h.world⟩

/-- **The calls on verbs do what they are to do**, and stop exactly outside the guard. -/
theorem call_simulates (asserts : Bool) :
    Simulates (call asserts) specCall (Refines asserts) (Guard asserts) where
  answered {s t c} hR hG := by
    cases c with
    | roomAdd id verb =>
      obtain ⟨table, hget, hends⟩ := hG
      obtain ⟨table', hins, hholds⟩ := (hR.rooms id table hget).insert hends
      refine ⟨_, ?_, hR.set hholds⟩
      rw [call, roomVerbAdd, roomVerbMap_of_getElem hget, ok_bind, table_map, ok_bind, hins]
      rfl
    | roomDel id name => exact hG.elim
    | worldAdd verb =>
      obtain ⟨table', hins, hholds⟩ := hR.world.insert hG
      refine ⟨_, ?_, hR.setWorld hholds⟩
      rw [call, worldVerbAdd, table_map, ok_bind, hins]
      rfl
    | worldDel verb =>
      obtain ⟨hsome, hholds⟩ := hR.world.remove verb.name
      refine ⟨_, ?_, hR.setWorld hholds⟩
      rw [call, worldVerbDel, table_map, ok_bind]
      exact congrArg (fun b => Except.ok (Answer.done b, _)) hsome
    | exec sender data =>
      obtain ⟨s', hexec, hR'⟩ := hR.exec hG
      exact ⟨s', by rw [call, hexec]; rfl, hR'⟩
  stopped {s t c} hR hG := by
    cases c with
    | roomAdd id verb =>
      rw [call, roomVerbAdd, roomVerbMap]
      cases hget : s.rooms[id]? with
      | none => exact ⟨_, rfl⟩
      | some table =>
        have hstops := hashInsert_stops fun hends => hG ⟨table, hget, hends⟩
        refine ⟨.endlessLoop, ?_⟩
        rw [ok_bind, table_map, ok_bind, hstops]
        rfl
    | roomDel id name =>
      obtain ⟨e, he⟩ := table_room id
      exact ⟨e, by rw [call, roomVerbDel, he]; rfl⟩
    | worldAdd verb =>
      refine ⟨.endlessLoop, ?_⟩
      rw [call, worldVerbAdd, table_map, ok_bind, hashInsert_stops hG]
      rfl
    | worldDel verb => exact absurd trivial hG
    | exec sender data =>
      simp only [Guard, Classical.not_imp, not_and, Nat.not_lt] at hG
      obtain ⟨hraw, hG⟩ := hG
      obtain ⟨room, rawModeCb⟩ := sender
      obtain rfl : rawModeCb = false := hraw
      have hstops : ∃ e, reqExecverb asserts s ⟨room, false⟩ data = .error e := reqExecverb_stops hG
      obtain ⟨e, he⟩ := hstops
      exact ⟨e, by rw [call, he]; rfl⟩

/-- **Verb lookup follows the tables.**  Take a world of any number of rooms, and any calls: verbs are
added to rooms and to the world and taken out of them, and lines are executed, in any order.  All calls
are answered as specified, and none stops the server, exactly when

* nothing is taken out of a room;
* the rooms are there, and the lines that are not passed on as they are have a word;
* a map that has to grow has less than `2 ^ 32` buckets. -/
theorem verbCalls_eq_iff (asserts : Bool) (n : ℕ) (calls : List Call) :
    answers (call asserts) (State.init n) calls = .ok (specAnswers specCall Tables.empty calls) ↔
      Runs.EachStep (advance (call asserts)) (Guard asserts) (State.init n) calls :=
  (call_simulates asserts).answers_eq_iff (refines_init asserts n) calls

/-- **A verb that is taken out of a room stops the server.** -/
theorem roomVerbDel_stops :
    answers (call true) (State.init 1)
        [.roomAdd 0 ⟨letter 99, letter 118⟩, .roomDel 0 (letter 118)] ≠
      .ok (specAnswers specCall Tables.empty
        [.roomAdd 0 ⟨letter 99, letter 118⟩, .roomDel 0 (letter 118)]) := by
  have hstop : answers (call true) (State.init 1)
      [.roomAdd 0 ⟨letter 99, letter 118⟩, .roomDel 0 (letter 118)] = .error .fatal := rfl
  rw [hstop]
  exact fun h => absurd h (by simp)

end Simulation

end Verbs

end NetCosm
