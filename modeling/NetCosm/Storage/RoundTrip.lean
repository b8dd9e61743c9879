import NetCosm.Storage.Copies

/-!
# Worlds that are saved and loaded

A world that is saved over whatever was in the file, and loaded in another process: `RoundTrips` says that it
is loaded, and that it is the same, but for the addresses of objects and the order in the tables.

`world_save` does not truncate the file.  What is left of the old contents is behind the map of the rooms, and
is never read.

## What can go wrong

An object with an alias that is its own name is loaded as two objects (`NetCosm.Storage.Copies`).  And the
loops of `world_load` count with an `unsigned`, as do those that iterate over a table and those that make it
larger: with `2 ^ 32` objects, verbs or buckets they do not end.  `Portable` says that nothing of this kind is
in the world.  `roundTrips_iff`: a world as a running server has it goes round if and only if it is portable.
-/

namespace NetCosm

namespace Storage

open Reader

/-! ## Tables -/

section Tables

variable {K D : Type} {f : HashEnv K}

/-- The tables have the same entries. -/
structure SameTable (f : HashEnv K) (t t' : HashMap K D) : Prop where
  nodes : t'.nodes.Perm t.nodes
  lookup : ∀ key, hashLookup f t' key = hashLookup f t key

/-- The order of the nodes, and where they are, does not matter. -/
theorem sameTable_of_perm (hf : f.Compatible) {t t' : HashMap K D} (ht : t.WellPlaced f) (ht' : t'.WellPlaced f)
    (hperm : t'.nodes.Perm t.nodes) : SameTable f t t' := by
  refine ⟨hperm, fun key => ?_⟩
  rw [hashLookup_eq_map, hashLookup_eq_map]
  refine congrArg (Option.map Prod.snd) (Option.ext fun e => ?_)
  rw [hashEntry_eq_some_iff hf ht', hashEntry_eq_some_iff hf ht]
  exact exists_congr fun n => and_congr_left fun _ => hperm.mem_iff

end Tables

variable {U R : Type} {asserts : Bool} {m : WorldModule U R} {h s : ObjStore U} {junk : List UInt8}

/-- The verbs that were read are those of the table. -/
theorem RebuiltVerbs.sameTable {verbClasses : CString → Bool} {verbs verbs' : VerbTable}
    (hv : RestorableVerbs asserts verbClasses verbs) (hr : RebuiltVerbs asserts (verbsOf verbs) verbs') :
    SameTable (namesEnv asserts) verbs verbs' := by
  have hnodes : (verbsOf verbs).map (fun v => (⟨v.name, v⟩ : HashNode CString Verb)) = verbs.nodes := by
    rw [verbsOf, List.map_map]
    refine (List.map_congr_left fun n hn => ?_).trans (List.map_id _)
    show (⟨n.data.name, n.data⟩ : HashNode CString Verb) = n
    rw [← hv.name_eq n hn]
  have hperm := hr.nodes
  rw [hnodes] at hperm
  exact sameTable_of_perm (compatible_namesEnv asserts) hv.placed hr.placed hperm

/-! ## The same world -/

/-- `room_get_id`; `ROOM_NONE` is none. -/
def roomGetId (asserts : Bool) (w : WorldData R) (uniqId : CString) : Except Fault (Option Int32) :=
  match hashLookup (namesEnv asserts) w.worldMap uniqId with
  | some p =>
      if p < 0 then .error .outOfBounds
      else
        match w.world[p.toNat]? with
        | some room => .ok (some room.id)
        | none => .error .outOfBounds
  | none => .ok none

/-- The rooms have the same fields, the same verbs and the same objects. -/
structure SameRoom (asserts : Bool) (h s : ObjStore U) (room room' : Room R) : Prop where
  fields : room' = { room with objects := room'.objects, verbs := room'.verbs }
  verbs : SameTable (namesEnv asserts) room.verbs room'.verbs
  objects : SameObjects h s room.objects room'.objects
  regular : room'.objects.Regular (roomEnv asserts)

/-- The world `w'`, with the objects `s`, is the world `w`, with the objects `h`. -/
structure SameWorld (asserts : Bool) (h : ObjStore U) (w : WorldData R) (s : ObjStore U) (w' : WorldData R) :
    Prop where
  world : List.Forall₂ (SameRoom asserts h s) w.world w'.world
  worldName : w'.worldName = w.worldName
  verbs : SameTable (namesEnv asserts) w.verbMap w'.verbMap
  idcounter : s.idcounter = h.idcounter
  rooms : ∀ uniqId, roomGetId asserts w' uniqId = roomGetId asserts w uniqId

/-- The world is saved over the file `old`, and loaded in a process that has just been started. -/
def RoundTrips (asserts : Bool) (m : WorldModule U R) (junk : List UInt8) (h : ObjStore U) (w : WorldData R)
    (old : List UInt8) : Prop :=
  ∃ bytes, worldSave m h w = .ok bytes ∧ ∃ w' s,
    worldLoadFile m ObjStore.init asserts junk (some (bytes ++ old.drop bytes.length)) = .ok (some w', s) ∧
    SameWorld asserts h w s w'

/-! ## When a world is saved -/

/-- A world of a running server: it can be read back, and every object of a room is stored once under its name
and once under each alias. -/
structure KeptWorld (asserts : Bool) (m : WorldModule U R) (h : ObjStore U) (w : WorldData R) : Prop
    extends RestorableWorld asserts m h w where
  objects : ∀ room ∈ w.world, KeptObjects h room.objects

theorem namedObject_of_live {p : MultimapPair CString ℕ} (hp : (h.objects p.val).isSome) :
    namedObject h p = .ok (namedObject? h p) := by
  obtain ⟨o, ho⟩ := Option.isSome_iff_exists.mp hp
  have hok : namedObject h p = .ok (if compareStrings p.key o.name = 0 then some o else none) := by
    rw [namedObject, ho]
  rw [hok, namedObject_ok h hok]

/-- The objects are counted and written if the table can be walked. -/
theorem KeptObjects.exists_write {objects : ObjTable} (hk : KeptObjects h objects)
    {classes : CString → Option (ObjHooks U)} (hclasses : ∀ o ∈ savedObjects h objects, Restorable classes o)
    (hsz : objects.hashTab.tableSz < unsignedRange) :
    (∃ n, objCountNoalias h objects = .ok n) ∧ ∃ out, writeObjects h classes objects = .ok out := by
  have hmem : ∀ node ∈ objects.hashTab.nodes, ∀ p ∈ node.pairs, p ∈ objects.pairs :=
    fun node hnode p hp => List.mem_flatMap.mpr ⟨node, hnode, hp⟩
  rw [objCountNoalias, writeObjects, hashForEach_of_lt hsz, hashForEach_of_lt hsz]
  refine ⟨exists_foldlM (fun node hnode n => exists_foldlM (fun p hp n => ?_) n) 0,
    exists_foldlM (fun node hnode out => exists_foldlM (fun p hp out => ?_) out) []⟩
  · rw [namedObject_of_live (hk.live p (hmem node hnode p hp))]
    exact ⟨_, rfl⟩
  · rw [namedObject_of_live (hk.live p (hmem node hnode p hp))]
    cases hnamed : namedObject? h p with
    | none => exact ⟨_, rfl⟩
    | some o =>
      have hsaved : o ∈ savedObjects h objects := List.mem_filterMap.mpr ⟨p, hmem node hnode p hp, hnamed⟩
      obtain ⟨c, hc, -⟩ := (hclasses o hsaved).hooks
      refine ⟨out ++ c.image o, ?_⟩
      show (objWrite classes o).map (out ++ ·) = _
      rw [objWrite, hc]
      rfl

theorem exists_writeVerbs_iff {verbs : VerbTable} :
    (∃ out, writeVerbs verbs = .ok out) ↔ verbs.tableSz < unsignedRange := by
  constructor
  · rintro ⟨out, hout⟩
    exact tableSz_lt_of_hashForEach hout
  · intro hsz
    rw [writeVerbs, hashForEach_of_lt hsz]
    exact exists_foldlM (fun _ _ _ => ⟨_, rfl⟩) []

/-- **When a room is saved.** -/
theorem exists_saveRoom_iff {room : Room R} (hr : RestorableRoom asserts m h room)
    (hk : KeptObjects h room.objects) :
    (∃ out, saveRoom m h room = .ok out) ↔
      room.objects.hashTab.tableSz < unsignedRange ∧ room.verbs.tableSz < unsignedRange := by
  constructor
  · rintro ⟨out, hout⟩
    obtain ⟨n, hn, hout⟩ := bind_eq_ok hout
    obtain ⟨objects, -, hout⟩ := bind_eq_ok hout
    obtain ⟨verbs, hverbs, -⟩ := bind_eq_ok hout
    exact ⟨tableSz_lt_of_hashForEach hn, exists_writeVerbs_iff.mp ⟨verbs, hverbs⟩⟩
  · rintro ⟨hobjects, hverbs⟩
    obtain ⟨⟨n, hn⟩, objects, hobjects⟩ := hk.exists_write hr.objects hobjects
    obtain ⟨verbs, hverbs⟩ := exists_writeVerbs_iff.mpr hverbs
    rw [saveRoom, hn, hobjects, hverbs]
    exact ⟨_, rfl⟩

/-- The tables of a world can be walked. -/
structure Walkable (w : WorldData R) : Prop where
  verbs : hashSize w.verbMap ≠ 0 → w.verbMap.tableSz < unsignedRange
  map : w.worldMap.tableSz < unsignedRange
  rooms : ∀ room ∈ w.world,
    room.objects.hashTab.tableSz < unsignedRange ∧ room.verbs.tableSz < unsignedRange

variable {w : WorldData R}

/-- **When a world is saved.** -/
theorem KeptWorld.exists_worldSave_iff (hw : KeptWorld asserts m h w) :
    (∃ bytes, worldSave m h w = .ok bytes) ↔ Walkable w := by
  have hrooms := fun room hroom => exists_saveRoom_iff (hw.rooms room hroom) (hw.objects room hroom)
  constructor
  · rintro ⟨bytes, hsave⟩
    obtain ⟨globalVerbs, hglobal, hsave⟩ := bind_eq_ok hsave
    obtain ⟨rooms, hfold, hsave⟩ := bind_eq_ok hsave
    obtain ⟨entries, hentries, -⟩ := bind_eq_ok hsave
    refine ⟨fun hne => ?_, tableSz_lt_of_hashForEach hentries, fun room hroom => ?_⟩
    · rw [if_pos hne] at hglobal
      exact exists_writeVerbs_iff.mp ⟨_, hglobal⟩
    · split at hfold
      case isFalse => exact absurd hfold (by simp)
      obtain ⟨-, hall⟩ := forall_of_foldlM (fun _ _ _ => saveRoom_ok h m) hfold
      exact (hrooms room hroom).mp (hall room hroom)
  · intro hwalk
    have hglobal : ∃ out, (if hashSize w.verbMap ≠ 0 then writeVerbs w.verbMap else .ok []) = .ok out := by
      split
      · rename_i hne
        exact exists_writeVerbs_iff.mpr (hwalk.verbs hne)
      · exact ⟨[], rfl⟩
    have hlt : w.world.length < unsignedRange := by
      have hle := hw.length_le
      unfold unsignedRange
      omega
    have hfold : ∃ out, w.world.foldlM (fun out room => (saveRoom m h room).map (out ++ ·)) [] = .ok out := by
      refine exists_foldlM (fun room hroom out => ?_) []
      obtain ⟨b, hb⟩ := (hrooms room hroom).mpr (hwalk.rooms room hroom)
      rw [hb]
      exact ⟨_, rfl⟩
    have hentries : ∃ out, hashForEach w.worldMap
        (fun out node => (saveEntry w.world node).map (out ++ ·)) [] = .ok out := by
      rw [hashForEach_of_lt hwalk.map]
      refine exists_foldlM (fun node hnode out => ?_) []
      obtain ⟨entry, hentry, hitem⟩ := hw.entryOf_eq hnode
      obtain ⟨room, hroom, rfl⟩ := Option.map_eq_some_iff.mp hentry
      have hpos : ¬ node.data < 0 := by
        have hmem := hw.map_data.mem_iff.mp (List.mem_map_of_mem hnode)
        obtain ⟨i, -, hi⟩ := List.mem_map.mp hmem
        rw [← hi]
        exact Int.not_lt.mpr (Int.natCast_nonneg i)
      rw [saveEntry, if_neg hpos, hroom]
      exact ⟨_, rfl⟩
    obtain ⟨globalVerbs, hglobal⟩ := hglobal
    obtain ⟨rooms, hfold⟩ := hfold
    obtain ⟨entries, hentries⟩ := hentries
    rw [worldSave, hglobal, if_pos hlt, hfold, hentries]
    exact ⟨_, rfl⟩

/-! ## When the world is the same -/

/-- **A room that was read is the same room** if and only if its objects are the same. -/
theorem RebuiltRoom.sameRoom_iff {room room' : Room R} (hroom : RestorableRoom asserts m h room)
    (hk : KeptObjects h room.objects) (hr : RebuiltRoom asserts h s room room') :
    SameRoom asserts h s room room' ↔ ∀ o ∈ savedObjects h room.objects, o.name ∉ o.aliasList := by
  obtain ⟨addr, hholds, hperm⟩ := hr.objects
  rw [← hk.sameObjects_iff hholds hperm]
  exact ⟨SameRoom.objects, fun hsame => ⟨hr.same, hr.verbs.sameTable hroom.verbs, hsame, hr.regular⟩⟩

/-- Lists of which the items correspond. -/
theorem forall₂_iff_of {A B : Type} {P Q : A → B → Prop} {G : A → Prop} {l : List A} {l' : List B}
    (hall : List.Forall₂ P l l') (hiff : ∀ a ∈ l, ∀ b, P a b → (Q a b ↔ G a)) :
    List.Forall₂ Q l l' ↔ ∀ a ∈ l, G a := by
  induction hall with
  | nil => exact iff_of_true List.Forall₂.nil fun a ha => absurd ha List.not_mem_nil
  | cons hab hall ih =>
    rw [List.forall₂_cons, List.forall_mem_cons, hiff _ (List.mem_cons_self ..) _ hab,
      ih fun a ha => hiff a (List.mem_cons_of_mem _ ha)]

/-- The rooms have their numbers. -/
theorem map_id_of_rebuilt {world world' : List (Room R)}
    (hall : List.Forall₂ (RebuiltRoom asserts h s) world world') :
    world'.map Room.id = world.map Room.id := by
  induction hall with
  | nil => rfl
  | cons hroom _ ih => rw [List.map_cons, List.map_cons, ih, hroom.same]

/-- **The map of the rooms.** -/
theorem RebuiltWorld.roomGetId_eq {w' : WorldData R} (hw : RestorableWorld asserts m h w)
    (hr : RebuiltWorld asserts h w w' s) (uniqId : CString) :
    roomGetId asserts w' uniqId = roomGetId asserts w uniqId := by
  have hmap := sameTable_of_perm (compatible_namesEnv asserts) hw.map_placed hr.map_placed hr.map_nodes
  have hid : ∀ i : ℕ, w'.world[i]?.map Room.id = w.world[i]?.map Room.id := fun i => by
    rw [← List.getElem?_map, ← List.getElem?_map, map_id_of_rebuilt hr.world]
  rw [roomGetId, roomGetId, hmap.lookup]
  cases hashLookup (namesEnv asserts) w.worldMap uniqId with
  | none => rfl
  | some p =>
    have hp := hid p.toNat
    dsimp only
    split
    · rfl
    · cases hroom : w.world[p.toNat]? <;> cases hroom' : w'.world[p.toNat]? <;> simp_all

/-- **A world that was read is the same world** if and only if its objects are the same. -/
theorem RebuiltWorld.sameWorld_iff {w' : WorldData R} (hw : KeptWorld asserts m h w)
    (hr : RebuiltWorld asserts h w w' s) :
    SameWorld asserts h w s w' ↔
      ∀ room ∈ w.world, ∀ o ∈ savedObjects h room.objects, o.name ∉ o.aliasList := by
  have hrooms : List.Forall₂ (SameRoom asserts h s) w.world w'.world ↔ _ :=
    forall₂_iff_of hr.world fun room hroom room' hr' =>
      hr'.sameRoom_iff (hw.rooms room hroom) (hw.objects room hroom)
  rw [← hrooms]
  refine ⟨SameWorld.world, fun hworld => ⟨hworld, hr.worldName, ?_, hr.idcounter, ?_⟩⟩
  · exact hr.verbMap.sameTable hw.verbs
  · exact hr.roomGetId_eq hw.toRestorableWorld

/-! ## When a world goes round -/

/-- Nothing in the world stops it from going round: its tables can be walked, the loops that read it end, and no
object has an alias that is its name. -/
structure Portable (asserts : Bool) (h : ObjStore U) (w : WorldData R) : Prop where
  walkable : Walkable w
  takes : TakesWorld asserts h w
  names : ∀ room ∈ w.world, ∀ o ∈ savedObjects h room.objects, o.name ∉ o.aliasList

/-- Objects with fewer than `fillLimit` names can be stored. -/
theorem takesObjects_of_lt {sz : ℕ} (hsz : sz ≤ 2 * unsignedRange) {objs : List (StoredObject U)}
    (hlt : keyCount objs < fillLimit) : TakesObjects asserts sz objs := by
  have hlimit : fillLimit < unsignedRange := by decide
  refine ⟨(length_le_keyCount _).trans_lt (hlt.trans hlimit), ?_⟩
  refine takes_of_lt (roomEnv_equivalence asserts) hsz ?_
  rw [← map_fst_keysFrom 0, List.length_map, length_keysFrom]
  exact hlt

/-- **A world with fewer than `fillLimit` names in each table is portable**, if none of them is twice the name of
an object. -/
theorem Walkable.portable (hwalk : Walkable w) (hverbs : (verbsOf w.verbMap).length < fillLimit)
    (hrooms : ∀ room ∈ w.world,
      keyCount (savedObjects h room.objects) < fillLimit ∧ (verbsOf room.verbs).length < fillLimit)
    (hnames : ∀ room ∈ w.world, ∀ o ∈ savedObjects h room.objects, o.name ∉ o.aliasList) :
    Portable asserts h w := by
  have htakes : ∀ (sz : ℕ), sz ≤ 2 * unsignedRange → ∀ vs : List Verb, vs.length < fillLimit →
      TakesVerbs asserts sz vs := by
    have hlimit : fillLimit < unsignedRange := by decide
    intro sz hsz vs hvs
    refine ⟨hvs.trans hlimit, takes_of_lt (compatible_namesEnv asserts).equiv hsz ?_⟩
    rw [List.length_map]
    exact hvs
  refine ⟨hwalk, ⟨htakes 32 (by decide) _ hverbs, fun room hroom => ⟨?_, ?_⟩⟩, hnames⟩
  · exact takesObjects_of_lt (by decide) (hrooms room hroom).1
  · exact htakes 8 (by decide) _ (hrooms room hroom).2

/-- What is loaded from a file that begins with a world. -/
theorem worldLoadFile_eq_ok_iff (hjunk : junk.length = 4) (hw : RestorableWorld asserts m h w) {h₀ : ObjStore U}
    {t : List UInt8} {r : Option (WorldData R)} :
    worldLoadFile m h₀ asserts junk (some (worldBytes h m w ++ t)) = .ok (r, s) ↔
      rebuildWorld asserts h w h₀ = some (r, s) := by
  have hread := replays_worldLoad hjunk hw
  have hfile : ∀ file : List UInt8, worldLoadFile m h₀ asserts junk (some file) =
      (on (worldLoad m asserts junk) file h₀).map fun x => (x.1.1, x.2) := fun _ => rfl
  rw [hfile]
  constructor
  · intro hload
    obtain ⟨x, hx, heq⟩ := map_eq_ok hload
    obtain ⟨r', s', hp, rfl⟩ := hread.of_ok hx
    obtain ⟨rfl, rfl⟩ := Prod.mk.inj heq
    exact hp
  · intro hp
    rw [hread.eq_ok hp]
    rfl

/-- A world that goes round is portable. -/
theorem RoundTrips.portable (hjunk : junk.length = 4) (hw : KeptWorld asserts m h w) {old : List UInt8}
    (hround : RoundTrips asserts m junk h w old) : Portable asserts h w := by
  obtain ⟨bytes, hsave, w', s, hload, hsame⟩ := hround
  obtain ⟨htakes, hspec⟩ := rebuildWorld_spec hw.toRestorableWorld ObjStore.init
  obtain ⟨rfl, -⟩ := worldSave_ok h m hsave
  have hp := (worldLoadFile_eq_ok_iff hjunk hw.toRestorableWorld).mp hload
  obtain ⟨w'', heq, hr⟩ := hspec _ _ hp
  obtain rfl := Option.some.inj heq
  exact ⟨hw.exists_worldSave_iff.mp ⟨_, hsave⟩, htakes.mp (Option.isSome_iff_exists.mpr ⟨_, hp⟩),
    (hr.sameWorld_iff hw).mp hsame⟩

/-- A portable world goes round. -/
theorem Portable.roundTrips (hjunk : junk.length = 4) (hw : KeptWorld asserts m h w)
    (hportable : Portable asserts h w) (old : List UInt8) : RoundTrips asserts m junk h w old := by
  obtain ⟨htakes, hspec⟩ := rebuildWorld_spec hw.toRestorableWorld ObjStore.init
  obtain ⟨bytes, hsave⟩ := hw.exists_worldSave_iff.mpr hportable.walkable
  obtain ⟨rfl, -⟩ := worldSave_ok h m hsave
  obtain ⟨⟨r, s⟩, hp⟩ := Option.isSome_iff_exists.mp (htakes.mpr hportable.takes)
  obtain ⟨w', rfl, hr⟩ := hspec r s hp
  exact ⟨_, hsave, w', s, (worldLoadFile_eq_ok_iff hjunk hw.toRestorableWorld).mpr hp,
    (hr.sameWorld_iff hw).mpr hportable.names⟩

/-- **Worlds go round if and only if they are portable**, whatever was in the file before. -/
theorem roundTrips_iff (hjunk : junk.length = 4) (hw : KeptWorld asserts m h w) (old : List UInt8) :
    RoundTrips asserts m junk h w old ↔ Portable asserts h w :=
  ⟨RoundTrips.portable hjunk hw, fun hportable => hportable.roundTrips hjunk hw old⟩

/-! ### Objects on a shelf -/

/-- A table of some objects, which lie one after another from the address `addr` on. -/
def shelf (addr : ℕ) (objs : List (StoredObject U)) : ObjTable :=
  (insertPairs (roomEnv true) (multimapInit 8) (keysFrom addr objs)).toOption.getD (multimapInit 8)

section Shelf

variable {addr : ℕ} {objs : List (StoredObject U)} {objects : ObjTable}

theorem pairs_shelf (addr : ℕ) (htakes : Takes (roomEnv true) 8 (objs.flatMap fun o => o.keys)) :
    ((shelf addr objs).pairs.map MultimapPair.pair).Perm (keysFrom addr objs) := by
  rw [← map_fst_keysFrom addr] at htakes
  obtain ⟨m, hm⟩ := exists_insertPairs_iff (f := roomEnv true) 8 _ |>.mpr htakes
  obtain ⟨-, -, hperm⟩ := insertPairs_spec (roomEnv_equivalence true)
    (regular_init (roomEnv true) 8) (by simp [multimapInit, hashInit]) hm
  rw [Multimap.pairs_init, List.map_nil, List.append_nil] at hperm
  rw [shelf, hm]
  exact hperm

/-- What is written are the objects. -/
theorem Holds.exists_of_saved (hholds : Holds h addr objs)
    (hperm : (objects.pairs.map MultimapPair.pair).Perm (keysFrom addr objs)) {o : StoredObject U}
    (ho : o ∈ savedObjects h objects) : ∃ o' ∈ objs, o = o'.restored o'.keys.length := by
  obtain ⟨p, hp, hnamed⟩ := List.mem_filterMap.mp ho
  obtain ⟨o', ho', hobj, -⟩ := hholds.keysAt hperm hp
  exact ⟨o', ho', (Option.some.inj (hobj.symm.trans (Option.filter_eq_some_iff.mp hnamed).1)).symm⟩

end Shelf

/-! ### A colliery -/

/-- What is kept with lumps of coal and with rooms: whether they burn. -/
def writeLit (lit : Option Bool) : List UInt8 := lit.toList.flatMap writeBool

def readLit (s : List UInt8) : Except Fault (Option Bool × List UInt8) :=
  (on (readBool : FileReader Unit Bool) s ()).map fun x => (some x.1.1, x.1.2)

theorem readLit_append (lit : Bool) (rest : List UInt8) :
    readLit (writeLit (some lit) ++ rest) = .ok (some lit, rest) := by
  have hwrite : writeLit (some lit) = writeBool lit := List.append_nil _
  rw [readLit, hwrite, (decodes_readBool lit).on_append rest ()]
  rfl

theorem readLit_cut {lit : Bool} {s : List UInt8} (hs : s <+: writeLit (some lit))
    (hne : s ≠ writeLit (some lit)) : readLit s = .error .fatal := by
  have hwrite : writeLit (some lit) = writeBool lit := List.append_nil _
  have hlt : s.length < (writeLit (some lit)).length :=
    lt_of_le_of_ne hs.length_le fun heq => hne (hs.eq_of_length heq)
  rw [hwrite, writeBool, length_littleEndian, Nat.lt_one_iff, List.length_eq_zero_iff] at hlt
  rw [hlt]
  rfl

/-- The hooks of a room. -/
def litHooks : RoomHooks Bool := ⟨some writeLit, some readLit⟩

/-- A module with two rooms, which keeps something with each object and each room. -/
def collieryModule : WorldModule Bool Bool where
  worldName := ⟨[99], by decide⟩
  objClasses _ := some ⟨some fun o => writeLit o.userdata, some fun _ => readLit⟩
  verbClasses _ := true
  rooms := [litHooks, litHooks]

/-- The name of a lump of coal, and another name of it. -/
def coalName : CString := ⟨[99, 111, 97, 108], by decide⟩

def lumpName : CString := ⟨[108, 117, 109, 112], by decide⟩

/-- The lump of coal number `i`. -/
def lump (i : ℕ) : StoredObject Bool where
  cls := coalName
  name := coalName
  aliasList := [lumpName]
  refcount := 2
  id := UInt64.ofNat (i + 1)
  nAlias := 1
  hidden := false
  defaultArticle := false
  userdata := some true

/-- Two lumps of coal in memory. -/
def coalStore : ObjStore Bool := ObjStore.init.allocAll [lump 0, lump 1]

/-- The verb of the pit, and a global verb. -/
def digVerb : Verb := ⟨⟨[100], by decide⟩, ⟨[100, 105, 103], by decide⟩⟩

def lookVerb : Verb := ⟨⟨[108], by decide⟩, ⟨[108, 111, 111, 107], by decide⟩⟩

/-- A table of one verb. -/
def oneVerb (sz : ℕ) (v : Verb) : VerbTable :=
  appendNode (hashInit sz) v.name v ((namesEnv true).bucket v.name sz)

/-- The pit, with a lump of coal, a verb and an exit to the seam. -/
def pit : Room Bool where
  id := 0
  data := litHooks
  name := ⟨[112, 105, 116], by decide⟩
  desc := ⟨[98, 108, 97, 99, 107], by decide⟩
  adjacent := (List.replicate NUM_DIRECTIONS (-1)).set 0 1
  objects := shelf 0 [lump 0]
  verbs := oneVerb 8 digVerb
  userdata := some false

/-- The seam, with an exit to the pit. -/
def seam : Room Bool where
  id := 1
  data := litHooks
  name := ⟨[115, 101, 97, 109], by decide⟩
  desc := default
  adjacent := (List.replicate NUM_DIRECTIONS (-1)).set 1 0
  objects := multimapInit 8
  verbs := hashInit 8
  userdata := some true

/-- The map of the rooms, with one room. -/
def pitMap : HashMap CString ℤ := appendNode (hashInit 4) pit.name 0 ((namesEnv true).bucket pit.name 4)

/-- A world of two rooms. -/
def colliery : WorldData Bool where
  world := [pit, seam]
  worldName := ⟨[99], by decide⟩
  verbMap := oneVerb 32 lookVerb
  worldMap := appendNode pitMap seam.name 1 ((namesEnv true).bucket seam.name 4)

theorem takes_lump (i : ℕ) : Takes (roomEnv true) 8 ([lump i].flatMap fun o => o.keys) :=
  takes_of_lt (roomEnv_equivalence true) (by decide) (by decide : [coalName, lumpName].length < fillLimit)

/-- A lump of coal can be loaded. -/
theorem writable_lump (i : ℕ) : Writable collieryModule.objClasses ((lump i).restored 2) where
  hooks := ⟨_, rfl, readLit_append true, fun _ hs hne => readLit_cut hs hne⟩
  cls_fits := (by decide : Fits coalName)
  name_fits := (by decide : Fits coalName)
  alias_fits := (by decide : ∀ a ∈ [lumpName], Fits a)
  alias_ne := (by decide : ∀ a ∈ [lumpName], a.bytes ≠ [])

theorem storableVerbs_oneVerb {sz : ℕ} (hsz : 0 < sz) {v : Verb} (hcls : Fits v.cls) (hname : Fits v.name) :
    StorableVerbs true collieryModule.verbClasses (oneVerb sz v) := by
  have hempty := storableVerbs_hashInit true collieryModule.verbClasses sz
  have hstored : (hashInit sz : VerbTable).stored = 0 := congrArg List.length (HashMap.nodes_fresh _)
  have hsize : (hashInit sz : VerbTable).tableSz = sz := by
    rw [hashInit, if_neg hsz.ne', HashMap.tableSz_fresh]
  have hone := hempty.appendNode rfl hcls hname (hashLookup_hashInit _ sz v.name) (by rw [hstored]; decide)
  rw [hsize] at hone
  exact hone

theorem holds_coalStore : Holds coalStore 0 [lump 0, lump 1] := holds_allocAll ObjStore.init _

theorem savedObjects_pit : savedObjects coalStore pit.objects = [(lump 0).restored 2] := by rfl

theorem savedObjects_seam : savedObjects coalStore seam.objects = [] := by rfl

/-- The rooms can be loaded. -/
theorem storableRoom_colliery : ∀ room ∈ colliery.world, StorableRoom true collieryModule coalStore room := by
  rw [colliery, List.forall_mem_cons, List.forall_mem_singleton]
  constructor
  · exact
      { name_fits := by decide
        desc_fits := by decide
        adjacent_length := rfl
        objects := by
          rw [savedObjects_pit, List.forall_mem_singleton]
          exact writable_lump 0
        keyCount_lt := by
          rw [savedObjects_pit]
          decide
        verbs := storableVerbs_oneVerb (by decide) (by decide) (by decide)
        restores := readLit_append false
        notices := fun _ hs hne => readLit_cut hs hne }
  · exact
      { name_fits := by decide
        desc_fits := by decide
        adjacent_length := rfl
        objects := by
          rw [savedObjects_seam]
          exact List.forall_mem_nil _
        keyCount_lt := by
          rw [savedObjects_seam]
          decide
        verbs := storableVerbs_hashInit true _ 8
        restores := readLit_append true
        notices := fun _ hs hne => readLit_cut hs hne }

theorem nodes_worldMap_colliery : colliery.worldMap.nodes = [⟨pit.name, 0⟩, ⟨seam.name, 1⟩] := by
  decide +kernel

theorem wellPlaced_worldMap_colliery : colliery.worldMap.WellPlaced (namesEnv true) := by
  have hempty : (hashInit 4 : HashMap CString ℤ).WellPlaced (namesEnv true) := wellPlaced_hashInit _ 4
  have hpit : pitMap.WellPlaced (namesEnv true) :=
    wellPlaced_appendNode (equivalence_namesEnv true) hempty rfl 0
  exact wellPlaced_appendNode (equivalence_namesEnv true) hpit (by decide +kernel) 1

/-- The colliery can be loaded. -/
theorem storableWorld_colliery : StorableWorld true collieryModule coalStore colliery where
  rooms := storableRoom_colliery
  data := rfl
  length_lt := by decide
  worldName := rfl
  name_fits := by decide
  verbs := storableVerbs_oneVerb (by decide) (by decide) (by decide)
  entries := congrArg List.length nodes_worldMap_colliery
  keys_fit := by
    rw [nodes_worldMap_colliery]
    decide

/-- The colliery is a world of a running server. -/
theorem keptWorld_colliery : KeptWorld true collieryModule coalStore colliery where
  rooms room hroom := (storableRoom_colliery room hroom).restorable
  data := rfl
  worldName := rfl
  name_fits := by decide
  verbs := (storableVerbs_oneVerb (by decide) (by decide) (by decide)).restorable
  ids := by
    intro i room hroom
    match i with
    | 0 | 1 =>
      obtain rfl := Option.some.inj hroom
      rfl
    | i + 2 => exact absurd hroom (by simp [colliery])
  map_placed := wellPlaced_worldMap_colliery
  map_data := List.Perm.of_eq (congrArg (List.map HashNode.data) nodes_worldMap_colliery)
  keys_fit := storableWorld_colliery.keys_fit
  objects := by
    rw [colliery, List.forall_mem_cons, List.forall_mem_singleton]
    have hpit : Holds coalStore 0 [lump 0] := ⟨holds_coalStore.1, (by decide : 1 ≤ 2)⟩
    have hseam : Holds coalStore 0 [] := Nat.zero_le _
    exact ⟨hpit.keptObjects (pairs_shelf 0 (takes_lump 0)), hseam.keptObjects (List.Perm.refl [])⟩

theorem portable_colliery : Portable true coalStore colliery := by
  have hwalk : Walkable colliery := by
    refine ⟨fun _ => by decide +kernel, by decide +kernel, ?_⟩
    rw [colliery, List.forall_mem_cons, List.forall_mem_singleton]
    exact ⟨by decide +kernel, by decide⟩
  refine hwalk.portable (by decide +kernel) ?_ ?_
  · rw [colliery, List.forall_mem_cons, List.forall_mem_singleton, savedObjects_pit, savedObjects_seam]
    exact ⟨⟨by decide, by decide +kernel⟩, by decide, by decide⟩
  · rw [colliery, List.forall_mem_cons, List.forall_mem_singleton, savedObjects_pit, savedObjects_seam]
    exact ⟨List.forall_mem_singleton.mpr (by decide : coalName ∉ [lumpName]), List.forall_mem_nil _⟩

/-- The colliery goes round, whatever was in the file. -/
theorem colliery_roundTrips :
    RoundTrips true collieryModule [1, 2, 3, 4] coalStore colliery (List.replicate 500 255) :=
  (roundTrips_iff rfl keptWorld_colliery _).mpr portable_colliery

/-! ### Quarries -/

/-- The name of a rock. -/
def rockName : CString := ⟨[114], by decide⟩

/-- A module with one room; nothing is kept with objects or rooms. -/
def quarryModule : WorldModule Unit Unit where
  worldName := ⟨[113], by decide⟩
  objClasses _ := some ⟨none, none⟩
  verbClasses _ := false
  rooms := [⟨none, none⟩]

/-- The rock number `i`, with some other names. -/
def rock (aliases : List CString) (i : ℕ) : StoredObject Unit where
  cls := rockName
  name := rockName
  aliasList := aliases
  refcount := UInt32.ofNat (aliases.length + 1)
  id := UInt64.ofNat (i + 1)
  nAlias := 0
  hidden := false
  defaultArticle := true
  userdata := none

/-- Some rocks. -/
def rocks (aliases : List CString) (n : ℕ) : List (StoredObject Unit) := (List.range n).map (rock aliases)

/-- The rocks in memory. -/
def rockStore (aliases : List CString) (n : ℕ) : ObjStore Unit := ObjStore.init.allocAll (rocks aliases n)

/-- The rocks in a table. -/
def rockTable (aliases : List CString) (n : ℕ) : ObjTable := shelf 0 (rocks aliases n)

/-- The map of the rooms: the name `p` leads to the only room. -/
def quarryMap : HashMap CString ℤ :=
  appendNode (hashInit 2) ⟨[112], by decide⟩ 0 ((namesEnv true).bucket ⟨[112], by decide⟩ 2)

/-- A world of one room with some rocks. -/
def quarry (aliases : List CString) (n : ℕ) : WorldData Unit where
  world := [⟨0, ⟨none, none⟩, default, default, List.replicate NUM_DIRECTIONS (-1), rockTable aliases n,
    hashInit 8, none⟩]
  worldName := ⟨[113], by decide⟩
  verbMap := hashInit 32
  worldMap := quarryMap

theorem nodes_quarryMap : quarryMap.nodes = [⟨⟨[112], by decide⟩, 0⟩] := by
  have hperm := perm_nodes_appendNode (hashInit 2 : HashMap CString ℤ)
    ((namesEnv true).bucket_lt ⟨[112], by decide⟩ (by decide : 0 < 2)) ⟨[112], by decide⟩ 0
  exact List.perm_singleton.mp hperm

theorem wellPlaced_quarryMap : quarryMap.WellPlaced (namesEnv true) :=
  wellPlaced_appendNode (compatible_namesEnv true).equiv (wellPlaced_hashInit _ 2) rfl 0

theorem rockTable_pairs {aliases : List CString} {n : ℕ}
    (htakes : Takes (roomEnv true) 8 ((rocks aliases n).flatMap fun o => o.keys)) :
    ((rockTable aliases n).pairs.map MultimapPair.pair).Perm (keysFrom 0 (rocks aliases n)) :=
  pairs_shelf 0 htakes

/-- What is written are rocks. -/
theorem exists_rock_of_saved {aliases : List CString} {n : ℕ}
    (htakes : Takes (roomEnv true) 8 ((rocks aliases n).flatMap fun o => o.keys)) {o : StoredObject Unit}
    (ho : o ∈ savedObjects (rockStore aliases n) (rockTable aliases n)) :
    ∃ i < n, o = (rock aliases i).restored (aliases.length + 1) := by
  have hholds : Holds (rockStore aliases n) 0 (rocks aliases n) := holds_allocAll ObjStore.init _
  obtain ⟨o', ho', rfl⟩ := hholds.exists_of_saved (rockTable_pairs htakes) ho
  obtain ⟨i, hi, rfl⟩ := List.mem_map.mp ho'
  exact ⟨i, List.mem_range.mp hi, rfl⟩

theorem keptObjects_rocks {aliases : List CString} {n : ℕ}
    (htakes : Takes (roomEnv true) 8 ((rocks aliases n).flatMap fun o => o.keys)) :
    KeptObjects (rockStore aliases n) (rockTable aliases n) :=
  Holds.keptObjects (holds_allocAll ObjStore.init (rocks aliases n)) (rockTable_pairs htakes)

theorem restorable_rocks {aliases : List CString} {n : ℕ}
    (htakes : Takes (roomEnv true) 8 ((rocks aliases n).flatMap fun o => o.keys))
    (haliases : ∀ a ∈ aliases, Fits a ∧ a.bytes ≠ []) :
    ∀ o ∈ savedObjects (rockStore aliases n) (rockTable aliases n), Restorable quarryModule.objClasses o := by
  intro o ho
  obtain ⟨i, -, rfl⟩ := exists_rock_of_saved htakes ho
  exact
    { hooks := ⟨⟨none, none⟩, rfl, fun rest => rfl⟩
      cls_fits := (by decide : Fits rockName)
      name_fits := (by decide : Fits rockName)
      alias_fits := fun a ha => (haliases a ha).1
      alias_ne := fun a ha => (haliases a ha).2 }

theorem length_saved_le {aliases : List CString} {n : ℕ}
    (htakes : Takes (roomEnv true) 8 ((rocks aliases n).flatMap fun o => o.keys)) :
    (savedObjects (rockStore aliases n) (rockTable aliases n)).length ≤ keyCount (rocks aliases n) := by
  have hlen := (rockTable_pairs htakes).length_eq
  rw [List.length_map, length_keysFrom] at hlen
  rw [← hlen]
  exact List.length_filterMap_le _ _

/-- A quarry is a world of a running server. -/
theorem keptWorld_quarry {aliases : List CString} {n : ℕ}
    (htakes : Takes (roomEnv true) 8 ((rocks aliases n).flatMap fun o => o.keys))
    (haliases : ∀ a ∈ aliases, Fits a ∧ a.bytes ≠ []) (hlt : keyCount (rocks aliases n) < 2 ^ 64) :
    KeptWorld true quarryModule (rockStore aliases n) (quarry aliases n) := by
  have hverbs : ∀ sz, RestorableVerbs true quarryModule.verbClasses (hashInit sz) := fun sz =>
    (storableVerbs_hashInit true quarryModule.verbClasses sz).restorable
  exact
    { rooms := by
        intro room hroom
        obtain rfl := List.mem_singleton.mp hroom
        exact
          { name_fits := fits_default
            desc_fits := fits_default
            adjacent_length := List.length_replicate
            objects := restorable_rocks htakes haliases
            objects_lt := (length_saved_le htakes).trans_lt hlt
            verbs := hverbs 8
            restores := fun rest => rfl }
      data := rfl
      worldName := rfl
      name_fits := (by decide : Fits quarryModule.worldName)
      verbs := hverbs 32
      ids := by
        intro i room hroom
        obtain ⟨rfl, rfl⟩ : i = 0 ∧ room = (quarry aliases n).world.head (List.cons_ne_nil _ _) := by
          cases i with
          | zero => exact ⟨rfl, (Option.some.inj hroom).symm⟩
          | succ i => exact absurd hroom (by simp [quarry])
        rfl
      map_placed := wellPlaced_quarryMap
      map_data := List.Perm.of_eq (congrArg (List.map HashNode.data) nodes_quarryMap)
      keys_fit := by
        intro node hnode
        obtain rfl := List.mem_singleton.mp (nodes_quarryMap ▸ hnode)
        decide
      objects := by
        intro room hroom
        obtain rfl := List.mem_singleton.mp hroom
        exact keptObjects_rocks htakes }

/-- Another name of a rock. -/
def stoneName : CString := ⟨[115], by decide⟩

/-- All the names of the rocks are `r`. -/
theorem takes_rocks {aliases : List CString} (haliases : ∀ a ∈ aliases, a = rockName) (n : ℕ) :
    Takes (roomEnv true) 8 ((rocks aliases n).flatMap fun o => o.keys) := by
  have hall : ∀ key ∈ (rocks aliases n).flatMap fun o => o.keys, key = rockName := by
    intro key hkey
    obtain ⟨o, ho, hmem⟩ := List.mem_flatMap.mp hkey
    obtain ⟨i, -, rfl⟩ := List.mem_map.mp ho
    exact (List.mem_cons.mp hmem).elim id (haliases key)
  rw [List.eq_replicate_of_mem hall]
  cases ((rocks aliases n).flatMap fun o => o.keys).length with
  | zero => exact ⟨_, rfl⟩
  | succ k =>
    have hmore : ∀ k, insertAll (roomEnv true)
        (appendNode (hashInit 8) rockName () ((roomEnv true).bucket rockName 8))
        ((List.replicate k rockName).map fun key => (key, ())) =
          .ok (appendNode (hashInit 8) rockName () ((roomEnv true).bucket rockName 8)) := by
      intro k
      induction k with
      | zero => rfl
      | succ k ih => exact ih
    exact ⟨_, hmore k⟩

theorem keyCount_rocks (aliases : List CString) (n : ℕ) :
    keyCount (rocks aliases n) = n * (aliases.length + 1) := by
  have hkeys : (rocks aliases n).map (fun o => o.keys.length) = List.replicate n (aliases.length + 1) := by
    have hconst : ((fun o : StoredObject Unit => o.keys.length) ∘ rock aliases) =
        fun _ => aliases.length + 1 := rfl
    rw [rocks, List.map_map, hconst, List.map_const', List.length_range]
  rw [keyCount, hkeys, List.sum_replicate, smul_eq_mul]

/-- Every pair is written. -/
theorem length_saved_rocks {aliases : List CString} (haliases : ∀ a ∈ aliases, a = rockName) (n : ℕ) :
    (savedObjects (rockStore aliases n) (rockTable aliases n)).length = keyCount (rocks aliases n) := by
  have hholds : Holds (rockStore aliases n) 0 (rocks aliases n) := holds_allocAll ObjStore.init _
  have hperm := rockTable_pairs (takes_rocks haliases n)
  have hall : ∀ p ∈ (rockTable aliases n).pairs, (namedObject? (rockStore aliases n) p).isSome := by
    intro p hp
    obtain ⟨o, ho, hobj, hkeys⟩ := hholds.keysAt hperm hp
    obtain ⟨i, -, rfl⟩ := List.mem_map.mp ho
    have hkey : p.key ∈ (rock aliases i).keys :=
      hkeys.mem_iff.mp (List.mem_map_of_mem (List.mem_filter.mpr ⟨hp, decide_eq_true rfl⟩))
    exact (isSome_namedObject?_iff hobj).mpr ((List.mem_cons.mp hkey).elim id (haliases p.key))
  have hlen := hperm.length_eq
  rw [List.length_map, length_keysFrom] at hlen
  rw [savedObjects, List.filterMap_length_eq_length.mpr hall, hlen]

/-- A rock that has its own name for an alias is loaded as two. -/
theorem not_roundTrips_of_alias {aliases : List CString} (haliases : ∀ a ∈ aliases, a = rockName) {n : ℕ}
    (hkept : KeptWorld true quarryModule (rockStore aliases n) (quarry aliases n)) (hn : 0 < n)
    (hname : rockName ∈ aliases) {old : List UInt8} :
    ¬ RoundTrips true quarryModule [1, 2, 3, 4] (rockStore aliases n) (quarry aliases n) old := by
  intro hround
  have hpos : 0 < (savedObjects (rockStore aliases n) (rockTable aliases n)).length := by
    rw [length_saved_rocks haliases, keyCount_rocks]
    exact Nat.mul_pos hn (Nat.succ_pos _)
  obtain ⟨o, ho⟩ := List.exists_mem_of_length_pos hpos
  obtain ⟨i, -, rfl⟩ := exists_rock_of_saved (takes_rocks haliases n) ho
  exact (hround.portable rfl hkept).names _ (List.mem_singleton.mpr rfl) _ ho hname

/-- Too many rocks are not loaded. -/
theorem not_roundTrips_of_many {aliases : List CString} (haliases : ∀ a ∈ aliases, a = rockName) {n : ℕ}
    (hkept : KeptWorld true quarryModule (rockStore aliases n) (quarry aliases n)) (hn : unsignedRange ≤ n)
    {old : List UInt8} :
    ¬ RoundTrips true quarryModule [1, 2, 3, 4] (rockStore aliases n) (quarry aliases n) old := by
  intro hround
  have hlt : (savedObjects (rockStore aliases n) (rockTable aliases n)).length < unsignedRange :=
    ((hround.portable rfl hkept).takes.2 _ (List.mem_singleton.mpr rfl)).1.1
  rw [length_saved_rocks haliases, keyCount_rocks] at hlt
  have hle : n ≤ n * (aliases.length + 1) := Nat.le_mul_of_pos_right n (Nat.succ_pos _)
  omega

/-- **Worlds that do not go round.**  A rock that has its own name for an alias is loaded as two rocks; and
`2 ^ 32` rocks are not loaded at all. -/
theorem quarries_not_loaded :
    (KeptWorld true quarryModule (rockStore [rockName] 1) (quarry [rockName] 1) ∧
      ¬ RoundTrips true quarryModule [1, 2, 3, 4] (rockStore [rockName] 1) (quarry [rockName] 1) [] ∧
      ((worldSave quarryModule (rockStore [rockName] 1) (quarry [rockName] 1)).bind fun bytes =>
        (worldLoadFile quarryModule ObjStore.init true [1, 2, 3, 4] (some bytes)).map fun x =>
          x.1.map fun w => w.world.map fun room => room.objects.pairs.map MultimapPair.val) =
        .ok (some [[1, 1, 0, 0]])) ∧
      KeptWorld true quarryModule (rockStore [] unsignedRange) (quarry [] unsignedRange) ∧
      ¬ RoundTrips true quarryModule [1, 2, 3, 4] (rockStore [] unsignedRange) (quarry [] unsignedRange) [] := by
  have hnames : ∀ a ∈ [rockName], a = rockName := fun a ha => List.mem_singleton.mp ha
  have hnone : ∀ a ∈ ([] : List CString), a = rockName := fun a ha => absurd ha List.not_mem_nil
  have hkept := keptWorld_quarry (takes_rocks hnames 1) (by decide) (by rw [keyCount_rocks]; decide)
  have hmany := keptWorld_quarry (takes_rocks hnone unsignedRange) (by simp)
    (by rw [keyCount_rocks]; decide)
  exact ⟨⟨hkept, not_roundTrips_of_alias hnames hkept Nat.one_pos (List.mem_singleton.mpr rfl),
    by decide +kernel⟩, hmany, not_roundTrips_of_many hnone hmany (Nat.le_refl _)⟩

end Storage

end NetCosm
