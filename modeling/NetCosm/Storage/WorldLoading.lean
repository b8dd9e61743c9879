import NetCosm.Storage.Saving

/-!
# Loading a world

What `world_load` makes of the bytes that `world_save` has written, one section after another: the
verbs of a table, a room, and the map of the rooms.  Each section is read as what it was, and a file
that ends within it is noticed; but for the ids of rooms, which are noticed only by what is read
behind them.

## What can be loaded

`StorableVerbs`, `StorableRoom` and `StorableWorld` say what a world in memory has to be like:
what is stored is known to the world module and fits in memory, the tables are those of a running
server --- each verb under its name, with the entry counter right --- and none of them has
`fillLimit` entries, beyond which the tables they are loaded into need not stop growing.

## What is loaded

`LoadedRoom` compares a room that was loaded with the one that was saved: the same but for the
order in its tables, and with objects that are the same but for their addresses.
-/

namespace NetCosm

namespace Storage

open Reader

variable {U R : Type} {asserts : Bool}

/-! ## Verbs -/

/-- A table of verbs that can be loaded. -/
structure StorableVerbs (asserts : Bool) (verbClasses : CString → Bool) (verbs : VerbTable) :
    Prop where
  placed : verbs.WellPlaced (namesEnv asserts)
  counted : verbs.nEntries = UInt64.ofNat verbs.stored
  stored_lt : verbs.stored < fillLimit
  name_eq : ∀ n ∈ verbs.nodes, n.key = n.data.name
  known : ∀ v ∈ verbsOf verbs, verbClasses v.cls = true
  cls_fits : ∀ v ∈ verbsOf verbs, Fits v.cls
  name_fits : ∀ v ∈ verbsOf verbs, Fits v.name

/-- The node of a verb. -/
def Verb.node (v : Verb) : HashNode CString Verb := ⟨v.name, v⟩

/-- The table has the verbs `vs`. -/
structure HasVerbs (asserts : Bool) (vs : List Verb) (verbs : VerbTable) : Prop where
  filling : verbs.Filling (namesEnv asserts) vs.length
  nodes : verbs.nodes.Perm (vs.map Verb.node)

theorem equivalence_namesEnv (asserts : Bool) : Equivalence (namesEnv asserts).Same :=
  (compatible_namesEnv asserts).equiv

/-- A table has each name once. -/
theorem nodup_verbNames {verbs : VerbTable} (hplaced : verbs.WellPlaced (namesEnv asserts))
    (hname : ∀ n ∈ verbs.nodes, n.key = n.data.name) : ((verbsOf verbs).map Verb.name).Nodup := by
  rw [verbsOf, List.map_map, List.Nodup, List.pairwise_map]
  refine (hplaced.distinct_nodes (compatible_namesEnv asserts)).imp_of_mem ?_
  intro n n' hn hn' hne heq
  refine hne ((namesEnv_same_iff asserts).mpr ?_)
  rw [hname n hn, hname n' hn']
  exact heq

/-- The entry counter is right. -/
theorem toNat_hashSize_of_counted {verbs : VerbTable} (hcounted : verbs.nEntries = UInt64.ofNat verbs.stored)
    (hlt : verbs.stored < 2 ^ 64) : (hashSize verbs).toNat = (verbsOf verbs).length := by
  have hlen : (verbsOf verbs).length = verbs.stored := List.length_map _
  rw [hashSize, hcounted, UInt64.toNat_ofNat', hlen]
  exact Nat.mod_eq_of_lt hlt

theorem StorableVerbs.toNat_hashSize {verbClasses : CString → Bool} {verbs : VerbTable}
    (h : StorableVerbs asserts verbClasses verbs) :
    (hashSize verbs).toNat = (verbsOf verbs).length := by
  have hlimit : fillLimit < 2 ^ 64 := by decide
  exact toNat_hashSize_of_counted h.counted (h.stored_lt.trans hlimit)

theorem storableVerbs_hashInit (asserts : Bool) (verbClasses : CString → Bool) (sz : ℕ) :
    StorableVerbs asserts verbClasses (hashInit sz) := by
  have hnodes : (hashInit sz : VerbTable).nodes = [] := HashMap.nodes_fresh _
  have hverbs : verbsOf (hashInit sz) = [] := by rw [verbsOf, hnodes, List.map_nil]
  refine ⟨wellPlaced_hashInit _ sz, ?_, ?_, ?_, ?_, ?_, ?_⟩
  · rw [HashMap.stored, hnodes]
    rfl
  · rw [HashMap.stored, hnodes]
    decide
  · rw [hnodes]
    exact fun n hn => absurd hn List.not_mem_nil
  all_goals
    rw [hverbs]
    exact fun v hv => absurd hv List.not_mem_nil

/-- A verb is added, if there is none of its name. -/
theorem StorableVerbs.appendNode {verbClasses : CString → Bool} {verbs : VerbTable}
    (h : StorableVerbs asserts verbClasses verbs) {v : Verb} (hknown : verbClasses v.cls = true)
    (hcls : Fits v.cls) (hname : Fits v.name) (hnew : hashLookup (namesEnv asserts) verbs v.name = none)
    (hlt : verbs.stored + 1 < fillLimit) :
    StorableVerbs asserts verbClasses
      (appendNode verbs v.name v ((namesEnv asserts).bucket v.name verbs.tableSz)) := by
  have hb := (namesEnv asserts).bucket_lt v.name h.placed.size_pos
  have hperm := perm_nodes_appendNode verbs hb v.name v
  have hverbs := hperm.map HashNode.data
  have hstored := stored_appendNode hb v.name v
  refine ⟨wellPlaced_appendNode (equivalence_namesEnv asserts) h.placed hnew v, ?_, ?_, fun n hn => ?_,
    fun u hu => ?_, fun u hu => ?_, fun u hu => ?_⟩
  · rw [hstored, UInt64.ofNat_add, ← h.counted]
    rfl
  · rw [hstored]
    exact hlt
  · rcases List.mem_cons.mp (hperm.mem_iff.mp hn) with rfl | hn
    · rfl
    · exact h.name_eq n hn
  · rcases List.mem_cons.mp (hverbs.mem_iff.mp hu) with rfl | hu
    · exact hknown
    · exact h.known u hu
  · rcases List.mem_cons.mp (hverbs.mem_iff.mp hu) with rfl | hu
    · exact hcls
    · exact h.cls_fits u hu
  · rcases List.mem_cons.mp (hverbs.mem_iff.mp hu) with rfl | hu
    · exact hname
    · exact h.name_fits u hu

/-- **One verb is read**, if there is none of its name. -/
theorem loads_readVerb {verbClasses : CString → Bool} {σ : Type} {P : σ → Prop} {v : Verb}
    {vs : List Verb} {verbs : VerbTable} (hknown : verbClasses v.cls = true) (hcls : Fits v.cls)
    (hname : Fits v.name) (hnew : v.name ∉ vs.map Verb.name) (hlt : vs.length + 1 < fillLimit) :
    Loads Stops (fun s => HasVerbs asserts vs verbs ∧ P s)
      (readVerb verbClasses asserts verbs : FileReader σ VerbTable) (verbWrite v)
      (fun verbs' s => HasVerbs asserts (vs ++ [v]) verbs' ∧ P s) fun _ => False := by
  have hread : Decodes (verbRead verbClasses : FileReader σ Verb) (verbWrite v) v
      fun _ => False := by
    intro P
    refine (decodes_readString hcls).andThen ?_
    rw [if_pos hknown]
    exact (decodes_readString hname).map (g := fun name => (⟨v.cls, name⟩ : Verb))
      (fun _ hf => hf) P
  refine Loads.finish (hread _) (fun _ hf => hf.elim) fun v' => loads_of_eq (f := fun verb : Verb => do
    let r ← call (hashInsert (namesEnv asserts) verbs verb.name verb)
    if r.1.isNone then pure r.2 else fail .fatal) ?_ v'
  refine ⟨?_, cut_nil⟩
  rintro rest s ⟨hverbs, hP⟩
  have hnone : hashLookup (namesEnv asserts) verbs v.name = none := by
    rw [hashLookup_eq_map, Option.map_eq_none_iff,
      hashEntry_eq_none_iff (compatible_namesEnv asserts) hverbs.filling.placed]
    intro n hn hs
    obtain ⟨u, hu, rfl⟩ := List.mem_map.mp (hverbs.nodes.mem_iff.mp hn)
    rw [(namesEnv_same_iff asserts).mp hs] at hnew
    exact hnew (List.mem_map_of_mem hu)
  rcases hverbs.filling.hashInsert (equivalence_namesEnv asserts) hlt v.name v with
    ⟨d, hsome, -⟩ | ⟨verbs', -, hins, hfill, hperm⟩
  · exact absurd (hnone.symm.trans hsome) (by simp)
  · refine ⟨verbs', s, ?_, ⟨?_, ?_⟩, hP⟩
    · rw [List.nil_append, hins]
      rfl
    · rw [List.length_append, List.length_singleton]
      exact hfill
    · rw [List.map_append]
      exact (hperm.trans (hverbs.nodes.cons _)).trans (List.perm_append_singleton _ _).symm

/-- **The verbs of a table.** -/
theorem loads_verbs {verbClasses : CString → Bool} {σ : Type} (P : σ → Prop) {verbs : VerbTable}
    (h : StorableVerbs asserts verbClasses verbs) {sz : ℕ} (hsz : sz ≤ 2 * unsignedRange) :
    Loads Stops P
      (forUnsigned (hashSize verbs).toNat (fun _ => readVerb verbClasses asserts) (hashInit sz) :
        FileReader σ VerbTable)
      ((verbsOf verbs).flatMap verbWrite) (fun verbs' s => HasVerbs asserts (verbsOf verbs) verbs' ∧ P s)
      fun _ => False := by
  have hlen : (verbsOf verbs).length = verbs.stored := List.length_map _
  have hlimit : fillLimit < unsignedRange := by decide
  have hstored := h.stored_lt
  have hbody : ∀ done v later, verbsOf verbs = done ++ v :: later → ∀ tab,
      Loads Stops (fun s => HasVerbs asserts done tab ∧ P s)
        (readVerb verbClasses asserts tab : FileReader σ VerbTable) (verbWrite v)
        (fun tab' s => HasVerbs asserts (done ++ [v]) tab' ∧ P s) fun _ => False := by
    intro done v later hvs tab
    have hmem : v ∈ verbsOf verbs := by
      rw [hvs]
      exact List.mem_append_right _ (List.mem_cons_self ..)
    have hnodup := nodup_verbNames h.placed h.name_eq
    rw [hvs, List.map_append, List.map_cons] at hnodup
    refine loads_readVerb (h.known v hmem) (h.cls_fits v hmem) (h.name_fits v hmem) ?_ ?_
    · exact fun hin => (List.nodup_append.mp hnodup).2.2 _ hin _ (List.mem_cons_self ..) rfl
    · have hle := congrArg List.length hvs
      rw [List.length_append, List.length_cons] at hle
      omega
  rw [h.toNat_hashSize]
  refine (loads_forUnsigned (by omega) hbody (fun _ _ hf => hf.elim) _).mono (fun s hs => ?_)
    (fun _ _ hs => hs) fun _ hf => hf
  exact ⟨⟨HashMap.filling_hashInit _ hsz, by rw [hashInit, HashMap.nodes_fresh]; rfl⟩, hs⟩

/-! ## Rooms -/

/-- The hook reads what was written. -/
def RoomHooks.Restores (d : RoomHooks R) (userdata : Option R) : Prop :=
  ∀ rest, d.deserialize (d.serialize userdata ++ rest) = .ok (userdata, rest)

/-- If the file ends within what was written, the hook calls `error`. -/
def RoomHooks.Notices (d : RoomHooks R) (userdata : Option R) : Prop :=
  ∀ s, s <+: d.serialize userdata → s ≠ d.serialize userdata → d.deserialize s = .error .fatal

/-- A room that can be loaded. -/
structure StorableRoom (asserts : Bool) (m : WorldModule U R) (h : ObjStore U) (room : Room R) :
    Prop where
  name_fits : Fits room.name
  desc_fits : Fits room.desc
  adjacent_length : room.adjacent.length = NUM_DIRECTIONS
  objects : ∀ o ∈ savedObjects h room.objects, Writable m.objClasses o
  keyCount_lt : keyCount (savedObjects h room.objects) < fillLimit
  verbs : StorableVerbs asserts m.verbClasses room.verbs
  restores : room.data.Restores room.userdata
  notices : room.data.Notices room.userdata

/-- The objects `objs` lie one after another in memory, each with a reference for every key. -/
def Holds (h : ObjStore U) : ℕ → List (StoredObject U) → Prop
  | addr, [] => addr ≤ h.fresh
  | addr, o :: objs =>
      h.objects addr = some (o.restored o.keys.length) ∧ Holds h (addr + 1) objs

/-- `room'` is `room`, loaded: the same fields, the same verbs, and the same objects under the same
keys. -/
structure LoadedRoom (asserts : Bool) (h h' : ObjStore U) (room room' : Room R) : Prop where
  id : room'.id = room.id
  data : room'.data = room.data
  name : room'.name = room.name
  desc : room'.desc = room.desc
  adjacent : room'.adjacent = room.adjacent
  userdata : room'.userdata = room.userdata
  verbs : HasVerbs asserts (verbsOf room.verbs) room'.verbs
  regular : room'.objects.Regular (roomEnv asserts)
  objects : ∃ addr, Holds h' addr (savedObjects h room.objects) ∧
    (room'.objects.pairs.map MultimapPair.pair).Perm (keysFrom addr (savedObjects h room.objects))

theorem Holds.le_fresh {h : ObjStore U} {addr : ℕ} {objs : List (StoredObject U)}
    (hh : Holds h addr objs) : addr + objs.length ≤ h.fresh := by
  induction objs generalizing addr with
  | nil => exact hh
  | cons o objs ih =>
    have hle := ih hh.2
    rw [List.length_cons]
    omega

/-- Objects that are read later lie elsewhere. -/
theorem objects_allocAll {h : ObjStore U} {addr : ℕ} (haddr : addr < h.fresh)
    (objs : List (StoredObject U)) : (h.allocAll objs).objects addr = h.objects addr := by
  induction objs generalizing h with
  | nil => rfl
  | cons o objs ih =>
    rw [ObjStore.allocAll, List.foldl_cons, ← ObjStore.allocAll, ih (Nat.lt_succ_of_lt haddr)]
    exact Function.update_of_ne (Nat.ne_of_lt haddr) _ _

theorem Holds.allocAll {h : ObjStore U} {addr : ℕ} {objs : List (StoredObject U)}
    (hh : Holds h addr objs) (objs' : List (StoredObject U)) :
    Holds (h.allocAll objs') addr objs := by
  induction objs generalizing addr with
  | nil =>
    have hle : addr ≤ h.fresh := hh
    show addr ≤ (h.allocAll objs').fresh
    rw [fresh_allocAll]
    omega
  | cons o objs ih =>
    have hle := hh.2.le_fresh
    exact ⟨(objects_allocAll (by omega) objs').trans hh.1, ih hh.2⟩

theorem holds_allocAll (h : ObjStore U) (objs : List (StoredObject U)) :
    Holds (h.allocAll objs) h.fresh objs := by
  induction objs generalizing h with
  | nil => exact Nat.le_refl h.fresh
  | cons o objs ih =>
    refine ⟨?_, ih (h.alloc (o.restored o.keys.length))⟩
    exact (objects_allocAll (Nat.lt_succ_self _) objs).trans (Function.update_self _ _ _)

theorem LoadedRoom.allocAll {h h' : ObjStore U} {room room' : Room R}
    (hroom : LoadedRoom asserts h h' room room') (objs : List (StoredObject U)) :
    LoadedRoom asserts h (h'.allocAll objs) room room' :=
  let ⟨addr, hholds, hpairs⟩ := hroom.objects
  { hroom with objects := ⟨addr, hholds.allocAll objs, hpairs⟩ }

/-- The ids in the bytes of an array that was written. -/
theorem roomidsOf_flatMap (l : List Int32) : roomidsOf l.length (l.flatMap writeRoomid) = l := by
  induction l with
  | nil => rfl
  | cons id l ih =>
    rw [List.flatMap_cons, List.length_cons, roomidsOf,
      List.take_left' (length_writeRoomid id), List.drop_left' (length_writeRoomid id),
      roomidOf_writeRoomid, ih]

theorem length_flatMap_writeRoomid (l : List Int32) :
    (l.flatMap writeRoomid).length = 4 * l.length := by
  induction l with
  | nil => rfl
  | cons id l ih =>
    rw [List.flatMap_cons, List.length_append, ih, length_writeRoomid, List.length_cons]
    omega

/-- From whichever state. -/
theorem loads_of_forall {σ α : Type} {P : σ → Prop} {r : FileReader σ α} {bs : List UInt8}
    {Q : α → σ → Prop} {A : α → Prop} (h : ∀ s, P s → Loads Stops (· = s) r bs Q A) :
    Loads Stops P r bs Q A :=
  ⟨fun rest s hs => (h s hs).reads rest s rfl, fun t ht hne s hs => (h s hs).cut t ht hne s rfl⟩

/-- The hook of a room. -/
theorem decodes_roomHook {σ : Type} {d : RoomHooks R} {userdata : Option R}
    (hr : d.Restores userdata) (hn : d.Notices userdata) :
    Decodes (ofFile d.deserialize : FileReader σ (Option R)) (d.serialize userdata) userdata
      fun _ => False := by
  refine fun P => ⟨fun rest s hs => ⟨userdata, s, ?_, rfl, hs⟩, fun s hs hne h _ => ?_⟩
  · show (d.deserialize (d.serialize userdata ++ rest)).map _ = _
    rw [hr rest]
    rfl
  · show Sat Stops ((d.deserialize s).map _) _
    rw [hn s hs hne]
    rfl

variable {m : WorldModule U R} {h : ObjStore U} {junk : List UInt8}

/-- **A room is loaded.** -/
theorem loads_readRoom (hjunk : junk.length = 4) {room : Room R}
    (hroom : StorableRoom asserts m h room) {i : ℕ} (hi : m.rooms[i]? = some room.data)
    {done : List (Room R)} (world : List (Room R)) :
    Loads Stops (fun s => List.Forall₂ (LoadedRoom asserts h s) done world)
      (readRoom m asserts junk i world) (roomBytes h m room)
      (fun world' s => List.Forall₂ (LoadedRoom asserts h s) (done ++ [room]) world')
      fun _ => False := by
  refine loads_of_forall fun s hdone => ?_
  have hzeros : (room.adjacent.flatMap writeRoomid).length =
      (List.replicate (4 * NUM_DIRECTIONS) (0 : UInt8)).length := by
    rw [length_flatMap_writeRoomid, hroom.adjacent_length, List.length_replicate]
  have hlen := length_le_keyCount (savedObjects h room.objects)
  have hlt := hroom.keyCount_lt
  have hcount : (UInt64.ofNat (savedObjects h room.objects).length).toNat =
      (savedObjects h room.objects).length := by
    rw [UInt64.toNat_ofNat']
    exact Nat.mod_eq_of_lt (by unfold fillLimit at hlt; omega)
  rw [readRoom, hi, roomBytes]
  simp only [List.flatten_cons, List.flatten_nil, List.append_nil]
  refine (decodes_readRoomid hjunk room.id).bind (fun _ _ => Starves.stop starves_readString) ?_
  refine (decodes_readString hroom.name_fits).andThen ?_
  refine (decodes_readString hroom.desc_fits).andThen ?_
  refine (decodes_readOver _ _ hzeros).bind (fun _ _ => Starves.stop starves_readSize) ?_
  refine (decodes_readSize _).andThen ?_
  rw [hcount]
  refine (loads_objects hroom.objects hlt s
    (Multimap.filling_init _ (by decide)) (Multimap.pairs_init 8)).andThen fun objects => ?_
  refine (decodes_readSize _).andThen ?_
  refine (loads_verbs (Shelved asserts s _ objects) hroom.verbs (by decide)).andThen
    fun verbs => ?_
  refine Loads.finish (decodes_roomHook hroom.restores hroom.notices _) (fun _ hf => hf.elim)
    fun userdata => loads_pure ?_
  rintro s' ⟨rfl, hverbs, hobjects⟩
  obtain rfl := hobjects.store
  refine List.rel_append (List.Forall₂.imp (fun _ _ hr => hr.allocAll _) hdone) ?_
  refine List.Forall₂.cons ?_ List.Forall₂.nil
  exact
    { id := rfl
      data := rfl
      name := rfl
      desc := rfl
      adjacent := by
        rw [← hroom.adjacent_length]
        exact roomidsOf_flatMap room.adjacent
      userdata := rfl
      verbs := hverbs
      regular := hobjects.filling.toRegular
      objects := ⟨s.fresh, holds_allocAll s _, hobjects.pairs⟩ }

/-! ## Worlds -/

/-- A world that can be loaded, by the world module it is of. -/
structure StorableWorld (asserts : Bool) (m : WorldModule U R) (h : ObjStore U) (w : WorldData R) :
    Prop where
  rooms : ∀ room ∈ w.world, StorableRoom asserts m h room
  data : w.world.map Room.data = m.rooms
  length_lt : w.world.length < fillLimit
  worldName : w.worldName = m.worldName
  name_fits : Fits w.worldName
  verbs : StorableVerbs asserts m.verbClasses w.verbMap
  /-- Every room has one name. -/
  entries : w.worldMap.stored = w.world.length
  keys_fit : ∀ node ∈ w.worldMap.nodes, Fits node.key

/-- `w'` is `w`, loaded up to the map of the rooms. -/
structure LoadedRooms (asserts : Bool) (h : ObjStore U) (w : WorldData R) (w' : WorldData R)
    (h' : ObjStore U) : Prop where
  world : List.Forall₂ (LoadedRoom asserts h h') w.world w'.world
  worldName : w'.worldName = w.worldName
  verbMap : HasVerbs asserts (verbsOf w.verbMap) w'.verbMap
  idcounter : h'.idcounter = h.idcounter
  worldMap : w'.worldMap = hashInit (w.world.length * 2)

theorem Holds.of_objects {h h' : ObjStore U} {addr : ℕ} {objs : List (StoredObject U)}
    (hh : Holds h addr objs) (hobj : h'.objects = h.objects) (hfresh : h'.fresh = h.fresh) :
    Holds h' addr objs := by
  induction objs generalizing addr with
  | nil =>
    show addr ≤ h'.fresh
    rw [hfresh]
    exact hh
  | cons o objs ih => exact ⟨hobj ▸ hh.1, ih hh.2⟩

theorem LoadedRoom.of_objects {h h' h'' : ObjStore U} {room room' : Room R}
    (hroom : LoadedRoom asserts h h' room room') (hobj : h''.objects = h'.objects)
    (hfresh : h''.fresh = h'.fresh) : LoadedRoom asserts h h'' room room' :=
  let ⟨addr, hholds, hpairs⟩ := hroom.objects
  { hroom with objects := ⟨addr, hholds.of_objects hobj hfresh, hpairs⟩ }

/-- **The rooms of a world are loaded.** -/
theorem loads_rooms (hjunk : junk.length = 4) {w : WorldData R}
    (hw : StorableWorld asserts m h w) :
    Loads Stops (fun _ => True) (forUnsigned w.world.length (readRoom m asserts junk) [])
      (w.world.flatMap (roomBytes h m))
      (fun world s => List.Forall₂ (LoadedRoom asserts h s) w.world world) fun _ => False := by
  have hlt := hw.length_lt
  have hlimit : fillLimit < unsignedRange := by decide
  have hbody : ∀ done room later, w.world = done ++ room :: later → ∀ world,
      Loads Stops (fun s => List.Forall₂ (LoadedRoom asserts h s) done world)
        (readRoom m asserts junk done.length world) (roomBytes h m room)
        (fun world' s => List.Forall₂ (LoadedRoom asserts h s) (done ++ [room]) world')
        fun _ => False := by
    intro done room later hworld world
    refine loads_readRoom hjunk (hw.rooms room ?_) ?_ world
    · rw [hworld]
      exact List.mem_append_right _ (List.mem_cons_self ..)
    · rw [← hw.data, hworld, List.map_append, List.map_cons,
        List.getElem?_append_right (by rw [List.length_map]), List.length_map, Nat.sub_self]
      rfl
  exact (loads_forUnsigned (by omega) hbody (fun _ _ hf => hf.elim) []).mono
    (fun _ _ => List.Forall₂.nil) (fun _ _ hs => hs) fun _ hf => hf

/-- **A world is loaded up to the map of its rooms**, and a file that ends before is noticed. -/
theorem loads_worldLoadRooms (hjunk : junk.length = 4) {w : WorldData R}
    (hw : StorableWorld asserts m h w) :
    Loads Stops (fun _ => True) (worldLoadRooms m asserts junk) (headBytes h m w)
      (fun r s => ∃ w', r = some w' ∧ LoadedRooms asserts h w w' s) fun r => r = none := by
  have hlt := hw.length_lt
  have hsz : ofLittleEndian (writeSize (UInt64.ofNat w.world.length)) = w.world.length := by
    rw [writeSize, ofLittleEndian_littleEndian (UInt64.toNat_lt _), UInt64.toNat_ofNat']
    exact Nat.mod_eq_of_lt (by unfold fillLimit at hlt; omega)
  have hrooms : w.world.length = m.rooms.length := by rw [← hw.data, List.length_map]
  have hname : compareStrings m.worldName w.worldName = 0 := by
    rw [hw.worldName]
    exact compareStrings_eq_zero_iff.mpr rfl
  have hverbs : (if hashSize w.verbMap ≠ 0 then (verbsOf w.verbMap).flatMap verbWrite else []) =
      (verbsOf w.verbMap).flatMap verbWrite := by
    split
    · rfl
    · rename_i hzero
      have hnil := hw.verbs.toNat_hashSize
      rw [not_not.mp hzero, UInt64.toNat_zero] at hnil
      rw [List.length_eq_zero_iff.mp hnil.symm, List.flatMap_nil]
  rw [worldLoadRooms, headBytes, hverbs]
  simp only [List.flatten_cons, List.flatten_nil, List.append_nil]
  refine (decodes_readUint32 _).andThen ?_
  rw [if_neg (not_not.mpr rfl)]
  refine (decodes_readOver _ _ (by rfl)).bind (fun worldSz _ => ?_) ?_
  · split
    · exact starves_pure rfl
    · exact Starves.stop starves_readString
  simp only [← hrooms, hsz]
  rw [if_neg (not_not.mpr rfl)]
  refine (decodes_readString hw.name_fits).andThen ?_
  rw [if_neg (not_not.mpr hname)]
  refine Loads.start (R := fun _ _ => True) (A := fun _ => False)
    (loads_lift fun s _ => ⟨_, _, rfl, trivial⟩) fun _ => ?_
  refine (decodes_readSize _).andThen ?_
  refine (loads_verbs (fun _ => True) hw.verbs (by decide)).andThen fun verbMap => ?_
  refine ((loads_rooms hjunk hw).given _).andThen fun world => ?_
  refine Loads.finish (decodes_readUint64 h.idcounter _) (fun _ hf => hf.elim)
    fun idcounter => ⟨?_, cut_nil⟩
  rintro rest s ⟨hid, hglobal, hworld⟩
  refine ⟨_, _, rfl, _, rfl, ?_⟩
  exact
    { world := hworld.imp fun _ _ hr => hr.of_objects rfl rfl
      worldName := rfl
      verbMap := hglobal
      idcounter := hid
      worldMap := rfl }

end Storage

end NetCosm
