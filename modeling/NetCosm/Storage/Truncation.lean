import NetCosm.Storage.UserRoundTrip

/-!
# Files that end too early

What `world_load` makes of a world file that ends before its end, and `userdb_init` of a file of
users.

## World files

Every field is read by a function that calls `error` on a short read, but for the ids of rooms.
The id of a room, and the ids of the rooms next to it, are followed by something that is noticed
to be missing.  Nothing follows the last id in the map of rooms: a file that ends within it, or
in front of it, is loaded, with an entry whose id is made of whatever `read_roomid` found on the
stack.

So a cut file is refused if and only if more than these four bytes are missing, or there is no
room at all.

## Files of users

`userdb_init` leaves its loop when it does not get all of a `struct userdata_t`, and goes on with
the users it has.  So a file that ends in front of a `struct`, or within it, is accepted, and a file
that ends anywhere else is not.
-/

namespace NetCosm

namespace Storage

open Reader

variable {U R : Type} {asserts : Bool} {m : WorldModule U R} {h : ObjStore U} {junk : List UInt8}

/-! ## The map of rooms -/

section

variable {σ : Type} {map : HashMap CString ℤ} {n : ℕ} {key : CString}

theorem starves_readEntry (map : HashMap CString ℤ) :
    Starves Stops (fun _ => False) (readEntry asserts junk map : FileReader σ _) :=
  Starves.stop starves_readString

/-- A file that ends within a key. -/
theorem cut_readEntry {A : HashMap CString ℤ → Prop} (hkey : Fits key) :
    Cut Stops A (fun _ : σ => True) (readEntry asserts junk map) (writeString key) := by
  have hread : Decodes (readString : FileReader σ CString) (writeString key) key fun _ => False :=
    decodes_readString hkey
  rw [readEntry]
  exact (hread _).cut.before fun _ hf => hf.elim

/-- What is done with the key, if it is there. -/
theorem on_readEntry (hmap : map.Filling (namesEnv asserts) n) (hn : n + 1 < fillLimit)
    (hkey : Fits key) (t : List UInt8) (s : σ) :
    ∃ map', on (readEntry asserts junk map) (writeString key ++ t) s =
        .ok ((map', t.drop junk.length), s) ∧ map'.Filling (namesEnv asserts) (n + 1) := by
  have hread : Decodes (readString : FileReader σ CString) (writeString key) key fun _ => False :=
    decodes_readString hkey
  obtain ⟨r, hins, hfill⟩ := hmap.exists_hashInsert (equivalence_namesEnv asserts) hn key
    (roomidOf (t.take junk.length ++ junk.drop (t.take junk.length).length)).toInt
  refine ⟨r.2, ?_, hfill⟩
  rw [readEntry, on_bind_of_ok (hread.on_append t s)]
  have hid : on (readRoomid junk : FileReader σ Int32) t s =
      .ok ((roomidOf (t.take junk.length ++ junk.drop (t.take junk.length).length),
        t.drop junk.length), s) := rfl
  rw [on_bind_of_ok hid, call, hins]
  rfl

/-- **An entry of the map of rooms is read**, and that its id is missing is not noticed. -/
theorem loads_readEntry (hjunk : junk.length = 4) {entry : CString × Int32} (hkey : Fits entry.1)
    (hmap : map.Filling (namesEnv asserts) n) (hn : n + 1 < fillLimit) :
    Loads Stops (fun _ : σ => True) (readEntry asserts junk map) (entryBytes entry)
      (fun map' _ => map'.Filling (namesEnv asserts) (n + 1)) fun _ => True := by
  refine ⟨fun rest s _ => ?_, fun t ht hne s _ => ?_⟩
  · obtain ⟨map', hok, hfill⟩ := on_readEntry hmap hn hkey (writeRoomid entry.2 ++ rest) s
    refine ⟨map', s, ?_, hfill⟩
    rw [List.drop_left' ((length_writeRoomid _).trans hjunk.symm)] at hok
    rw [entryBytes, List.append_assoc, hok]
  · rcases prefix_append_cases ht hne with ⟨ht', hne'⟩ | ⟨t', hst, ht', -⟩
    · exact cut_readEntry (A := fun _ => True) hkey t ht' hne' s trivial
    · obtain ⟨map', hok, -⟩ : ∃ map', on (readEntry asserts junk map) (writeString entry.1 ++ t') s =
          .ok ((map', t'.drop junk.length), s) ∧ map'.Filling (namesEnv asserts) (n + 1) :=
        on_readEntry hmap hn hkey t' s
      have hle := ht'.length_le
      rw [length_writeRoomid] at hle
      rw [hst, hok]
      exact ⟨trivial, List.drop_eq_nil_of_le (by omega)⟩

/-- **The entries of the map of rooms.** -/
theorem loads_entries (hjunk : junk.length = 4) {entries : List (CString × Int32)}
    (hkeys : ∀ entry ∈ entries, Fits entry.1) (hlt : entries.length < fillLimit)
    (hmap : map.Filling (namesEnv asserts) 0) :
    Loads Stops (fun _ : σ => True)
      (turns (fun _ => readEntry asserts junk) entries.length 0 map) (entries.flatMap entryBytes)
      (fun map' _ => map'.Filling (namesEnv asserts) entries.length ∧ True) fun _ => True := by
  have hbody : ∀ done entry later, entries = done ++ entry :: later → ∀ map,
      Loads Stops (fun _ : σ => map.Filling (namesEnv asserts) done.length ∧ True)
        (readEntry asserts junk map) (entryBytes entry)
        (fun map' _ => map'.Filling (namesEnv asserts) (done ++ [entry]).length ∧ True)
        fun _ => True := by
    intro done entry later hentries map
    have hlen := congrArg List.length hentries
    rw [List.length_append, List.length_cons] at hlen
    refine loads_of_fact fun hmap => (loads_readEntry hjunk (hkeys entry ?_) hmap (by omega)).mono
      (fun _ hs => hs) (fun map' _ hm => ⟨?_, trivial⟩) fun _ hA => hA
    · rw [hentries]
      exact List.mem_append_right _ (List.mem_cons_self ..)
    · rw [List.length_append, List.length_singleton]
      exact hm
  exact (Loads.turns hbody (fun _ map' _ => (starves_readEntry map').mono fun _ _ => trivial) []
    entries rfl map).mono (fun _ _ => ⟨hmap, trivial⟩) (fun _ _ hs => hs) fun _ hA => hA

end

/-! ## The whole file -/

variable {w : WorldData R} {file s : List UInt8}

/-- The rooms of a saved world have names. -/
theorem StorableWorld.fits_entries (hw : StorableWorld asserts m h w) :
    ∀ entry ∈ entriesOf w, Fits entry.1 := by
  intro entry hentry
  obtain ⟨node, hnode, heq⟩ := List.mem_filterMap.mp hentry
  obtain ⟨room, -, rfl⟩ := Option.map_eq_some_iff.mp heq
  exact hw.keys_fit node hnode

/-- **A file that ends in front of the last id** is refused. -/
theorem cut_worldLoad (hjunk : junk.length = 4) (hw : StorableWorld asserts m h w)
    {init : List (CString × Int32)} {last : CString × Int32} (hentries : entriesOf w = init ++ [last])
    (hlen : (entriesOf w).length = w.world.length) :
    Cut Stops (· = none) (fun _ => True) (worldLoad m asserts junk)
      (headBytes h m w ++ (init.flatMap entryBytes ++ writeString last.1)) := by
  have hlt := hw.length_lt
  have hlimit : fillLimit < unsignedRange := by decide
  have hrooms : w.world.length = m.rooms.length := by rw [← hw.data, List.length_map]
  have hinit : m.rooms.length = init.length + 1 := by
    rw [← hrooms, ← hlen, hentries, List.length_append, List.length_singleton]
  have hfits := hw.fits_entries
  rw [hentries] at hfits
  rw [worldLoad]
  refine Cut.bind (loads_worldLoadRooms hjunk hw) (fun r hr => ?_) fun r => ?_
  · rw [hr]
    exact starves_pure rfl
  · rintro s hs hne st ⟨w', rfl, hload⟩
    have hturns : Cut Stops (fun _ => False) (fun _ : ObjStore U => True)
        (forUnsigned m.rooms.length (fun _ => readEntry asserts junk) w'.worldMap)
        (init.flatMap entryBytes ++ writeString last.1) := by
      rw [forUnsigned, if_pos (by omega), hinit, turns_succ, hload.worldMap]
      refine Cut.bind (loads_entries hjunk (fun entry hentry => hfits entry ?_) (by omega)
        (HashMap.filling_hashInit _ (by omega))) (fun map _ => starves_readEntry map) fun map => ?_
      · exact List.mem_append_left _ hentry
      · have hkey := hfits last (List.mem_append_right _ (List.mem_singleton_self last))
        exact fun s hs hne st _ => cut_readEntry (A := fun _ => False) hkey s hs hne st trivial
    have hmap : Cut Stops (· = none) (fun _ : ObjStore U => True)
        (worldLoadMap m asserts junk (some w')) (init.flatMap entryBytes ++ writeString last.1) :=
      hturns.before fun _ hf => hf.elim
    exact hmap s hs hne st trivial

/-- **A file that lacks nothing but of the last id** is loaded. -/
theorem worldLoad_of_lastId (hjunk : junk.length = 4) (hw : StorableWorld asserts m h w)
    {init : List (CString × Int32)} {last : CString × Int32} (hentries : entriesOf w = init ++ [last])
    (hlen : (entriesOf w).length = w.world.length) (t : List UInt8) (h₀ : ObjStore U) :
    ∃ w' rest h', on (worldLoad m asserts junk)
      (headBytes h m w ++ (init.flatMap entryBytes ++ (writeString last.1 ++ t))) h₀ =
        .ok ((some w', rest), h') := by
  have hlt := hw.length_lt
  have hlimit : fillLimit < unsignedRange := by decide
  have hrooms : w.world.length = m.rooms.length := by rw [← hw.data, List.length_map]
  have hinit : m.rooms.length = init.length + 1 := by
    rw [← hrooms, ← hlen, hentries, List.length_append, List.length_singleton]
  have hfits := hw.fits_entries
  rw [hentries] at hfits
  obtain ⟨r, h', hok, w', hr, hload⟩ := (loads_worldLoadRooms hjunk hw).reads
    (init.flatMap entryBytes ++ (writeString last.1 ++ t)) h₀ trivial
  have hempty : (hashInit (w.world.length * 2) : HashMap CString ℤ).Filling (namesEnv asserts) 0 :=
    HashMap.filling_hashInit _ (by omega)
  obtain ⟨map, h'', hok', hfill, -⟩ := (loads_entries hjunk
    (fun entry hentry => hfits entry (List.mem_append_left _ hentry)) (by omega) hempty).reads
    (writeString last.1 ++ t) h' trivial
  obtain ⟨map', hok'', -⟩ : ∃ map', on (readEntry asserts junk map) (writeString last.1 ++ t) h'' =
      .ok ((map', t.drop junk.length), h'') ∧ map'.Filling (namesEnv asserts) (init.length + 1) :=
    on_readEntry hfill (by omega) (hfits last (List.mem_append_right _ (List.mem_singleton_self last)))
      t h''
  refine ⟨{ w' with worldMap := map' }, t.drop junk.length, h'', ?_⟩
  rw [worldLoad, on_bind_of_ok hok, hr, worldLoadMap]
  have hturns : on (forUnsigned m.rooms.length (fun _ => readEntry asserts junk) w'.worldMap)
      (init.flatMap entryBytes ++ (writeString last.1 ++ t)) h' =
        .ok ((map', t.drop junk.length), h'') := by
    rw [forUnsigned, if_pos (by omega), hinit, turns_succ, hload.worldMap, on_bind_of_ok hok',
      hok'']
  exact on_bind_of_ok hturns

/-- **A cut world file is refused** if and only if there is no room, or more than the last id is
missing. -/
theorem worldLoad_refuses_iff (hjunk : junk.length = 4) (hw : StorableWorld asserts m h w)
    (hsave : worldSave m h w = .ok file) (hs : s <+: file) (hne : s ≠ file) (h₀ : ObjStore U) :
    Sat Stops (worldLoadFile m h₀ asserts junk (some s)) (fun x => x.1 = none) ↔
      w.world = [] ∨ s.length + 4 < file.length := by
  obtain ⟨hfile, -, hall⟩ := worldSave_ok h m hsave
  have hlen : (entriesOf w).length = w.world.length :=
    (length_entriesOf hall).trans hw.entries
  have hrefused : ∀ {bs : List UInt8}, Cut Stops (· = none) (fun _ => True)
      (worldLoad m asserts junk) bs → s <+: bs → s ≠ bs →
      Sat Stops (worldLoadFile m h₀ asserts junk (some s)) (fun x => x.1 = none) := by
    intro bs hcut hs hne
    exact sat_map ((hcut s hs hne h₀ trivial).mono fun _ hx => hx.1)
  rcases List.eq_nil_or_concat (entriesOf w) with hnil | ⟨init, last, hentries⟩
  · have hworld : w.world = [] := by
      rw [← List.length_eq_zero_iff, ← hlen, hnil, List.length_nil]
    refine iff_of_true ?_ (Or.inl hworld)
    rw [worldBytes, hnil, List.flatMap_nil, List.append_nil] at hfile
    rw [hfile] at hs hne
    refine hrefused ?_ hs hne
    rw [worldLoad]
    refine (loads_worldLoadRooms hjunk hw).cut.before fun r hr => ?_
    rw [hr, worldLoadMap]
    exact starves_pure rfl
  · rw [List.concat_eq_append] at hentries
    have hpos : w.world ≠ [] := by
      rw [← List.length_pos_iff, ← hlen, hentries, List.length_append, List.length_singleton]
      exact Nat.succ_pos _
    rw [or_iff_right hpos]
    have hfile' : file = (headBytes h m w ++ (init.flatMap entryBytes ++ writeString last.1)) ++
        writeRoomid last.2 := by
      rw [hfile, worldBytes, hentries, List.flatMap_append, List.flatMap_singleton, entryBytes]
      simp only [List.append_assoc]
    rw [hfile'] at hs hne
    have hlength := congrArg List.length hfile'
    rw [List.length_append, length_writeRoomid] at hlength
    rcases prefix_append_cases hs hne with ⟨hs', hne'⟩ | ⟨t, hst, -, -⟩
    · have hlt : s.length < _ := lt_of_le_of_ne hs'.length_le fun heq => hne' (hs'.eq_of_length heq)
      exact iff_of_true (hrefused (cut_worldLoad hjunk hw hentries hlen) hs' hne') (by omega)
    · refine iff_of_false ?_ (by rw [hst, List.length_append]; omega)
      obtain ⟨w', rest, h', hok⟩ := worldLoad_of_lastId hjunk hw hentries hlen t h₀
      intro hsat
      have hok' : worldLoadFile m h₀ asserts junk (some s) = .ok (some w', h') := by
        rw [worldLoadFile, hst, List.append_assoc, List.append_assoc, hok]
        rfl
      exact absurd (hsat.of_eq hok') (by simp)

/-! ## Files of users -/

section

variable {V : Type} {classes : CString → Option (ObjHooks U)} {cb : UserCallbacks V}

/-- The users can be loaded, and are counted right. -/
structure StorableUsers (classes : CString → Option (ObjHooks U)) (cb : UserCallbacks V)
    (h : ObjStore U) (map : UserTable V) : Prop where
  users : ∀ user ∈ usersOf map, StorableUser classes cb h user
  counted : map.nEntries = UInt64.ofNat map.stored
  stored_lt : map.stored < fillLimit

/-- Byte `k` of the file, counted from `0`, is one of a `struct userdata_t`. -/
def InStruct (classes : CString → Option (ObjHooks U)) (cb : UserCallbacks V) (h : ObjStore U)
    (head : List UInt8) (users : List (StoredUser V)) (k : ℕ) : Prop :=
  ∃ done user later, users = done ++ user :: later ∧
    (head ++ done.flatMap (userBytes classes cb h)).length ≤ k ∧
    k < (head ++ done.flatMap (userBytes classes cb h)).length + sizeofUserdata

/-- The first user has been read, and the rest of the file is looked at. -/
theorem inStruct_cons {user : StoredUser V} {users : List (StoredUser V)} {t : List UInt8}
    (ht : InStruct classes cb h [] users t.length) :
    InStruct classes cb h [] (user :: users) (userBytes classes cb h user ++ t).length := by
  obtain ⟨done, user', later, hsplit, hle, hlt⟩ := ht
  refine ⟨user :: done, user', later, by rw [hsplit, List.cons_append], ?_, ?_⟩
  · simp only [List.nil_append, List.flatMap_cons, List.length_append] at hle ⊢
    omega
  · simp only [List.nil_append, List.flatMap_cons, List.length_append] at hlt ⊢
    omega

/-- The turn that does not. -/
theorem on_readUsers_short {t : List UInt8} (ht : t.length < sizeofUserdata) (n : ℕ)
    (map : UserTable V) (st : ObjStore U) :
    on (readUsers classes cb asserts (n + 1) map) t st = .ok ((map, []), st) := by
  have hread : on (readUpTo sizeofUserdata : FileReader (ObjStore U) (List UInt8)) t st =
      .ok ((t, []), st) := by
    show Except.ok ((t.take sizeofUserdata, t.drop sizeofUserdata), st) = _
    rw [List.take_of_length_le (Nat.le_of_lt ht), List.drop_eq_nil_of_le (Nat.le_of_lt ht)]
  rw [readUsers, on_bind_of_ok hread, dif_neg (Nat.ne_of_lt ht)]
  rfl

/-- **A file of users that ends elsewhere than in a `struct`** is noticed. -/
theorem cut_readUsers {users : List (StoredUser V)} {map : UserTable V} {n : ℕ}
    {s : List UInt8} (husers : ∀ user ∈ users, StorableUser classes cb h user)
    (hmap : map.Filling (namesEnv asserts) n) (hn : n + users.length < fillLimit)
    (hs : s <+: users.flatMap (userBytes classes cb h))
    (hne : s ≠ users.flatMap (userBytes classes cb h))
    (hin : ¬ InStruct classes cb h [] users s.length) (st : ObjStore U) :
    Sat Stops (on (readUsers classes cb asserts users.length map) s st) fun _ => False := by
  induction users generalizing map n s st with
  | nil => exact absurd (List.prefix_nil.mp hs) hne
  | cons user users ih =>
    have huser := husers user (List.mem_cons_self ..)
    rw [List.length_cons] at hn ⊢
    have hlong : sizeofUserdata ≤ s.length := by
      by_contra hlt
      exact hin ⟨[], user, users, rfl, Nat.zero_le _, by simpa using hlt⟩
    rw [List.flatMap_cons, userBytes, List.append_assoc] at hs hne
    rcases prefix_append_cases hs hne with ⟨hs', hne'⟩ | ⟨t, hst, ht, htne⟩
    · have hlt : s.length < user.image.length :=
        lt_of_le_of_ne hs'.length_le fun heq => hne' (hs'.eq_of_length heq)
      rw [user.length_image] at hlt
      omega
    · rw [hst, on_readUsers_succ]
      have hread := loads_readUser huser hmap (show n + 1 < fillLimit by omega)
      rcases prefix_append_cases ht htne with ⟨ht', htne'⟩ | ⟨t', htt, ht', htne'⟩
      · exact ((hread.cut.before (C := fun _ => False) fun _ hf => hf.elim) t ht' htne' st
          trivial).mono fun _ hx => hx.1
      · obtain ⟨map', st', hok, hfill⟩ := hread.reads t' st trivial
        rw [htt, on_bind_of_ok hok]
        refine ih (fun user' hu => husers user' (List.mem_cons_of_mem _ hu)) hfill (by omega) ht'
          htne' (fun hin' => hin ?_) st'
        have hcons : InStruct classes cb h [] (user :: users)
            (userBytes classes cb h user ++ t').length := inStruct_cons hin'
        rwa [userBytes, List.append_assoc, ← htt, ← hst] at hcons

/-- **A file of users that ends in a `struct`** is accepted, with the users in front. -/
theorem readUsers_of_short {done : List (StoredUser V)} {map : UserTable V} {n k : ℕ}
    {t : List UInt8} (hdone : ∀ user ∈ done, StorableUser classes cb h user)
    (hmap : map.Filling (namesEnv asserts) n) (hn : n + done.length < fillLimit)
    (ht : t.length < sizeofUserdata) (st : ObjStore U) :
    ∃ map' st', on (readUsers classes cb asserts (done.length + (k + 1)) map)
      (done.flatMap (userBytes classes cb h) ++ t) st = .ok ((map', []), st') := by
  induction done generalizing map n st with
  | nil =>
    refine ⟨map, st, ?_⟩
    rw [List.flatMap_nil, List.nil_append, List.length_nil, Nat.zero_add, on_readUsers_short ht]
  | cons user done ih =>
    rw [List.length_cons] at hn
    obtain ⟨map₁, st₁, hok, hfill⟩ := (loads_readUser (hdone user (List.mem_cons_self ..)) hmap
      (by omega)).reads (done.flatMap (userBytes classes cb h) ++ t) st trivial
    obtain ⟨map', st', hok'⟩ := ih (fun user' hu => hdone user' (List.mem_cons_of_mem _ hu)) hfill
      (by omega) st₁
    refine ⟨map', st', ?_⟩
    rw [List.length_cons, Nat.succ_add, List.flatMap_cons, userBytes, List.append_assoc,
      List.append_assoc, on_readUsers_succ, on_bind_of_ok hok, hok']

theorem inStruct_append (head : List UInt8) (users : List (StoredUser V)) (t : List UInt8) :
    InStruct classes cb h head users (head ++ t).length ↔
      InStruct classes cb h [] users t.length := by
  unfold InStruct
  simp only [List.length_append, List.nil_append, Nat.add_assoc, Nat.add_le_add_iff_left,
    Nat.add_lt_add_iff_left]

/-- The loop of `userdb_init`, once the head has been read. -/
theorem on_readUserdb {map : UserTable V} (hu : StorableUsers classes cb h map) (t : List UInt8)
    (st : ObjStore U) :
    on (readUserdb classes cb asserts) (userdbHead map ++ t) st =
      on (readUsers classes cb asserts (usersOf map).length (hashInit 256)) t st := by
  have hlen : (usersOf map).length = map.stored := List.length_map _
  have hstored := hu.stored_lt
  have hcount : (hashSize map).toNat = (usersOf map).length := by
    rw [hashSize, hu.counted, UInt64.toNat_ofNat', hlen]
    exact Nat.mod_eq_of_lt (by unfold fillLimit at hstored; omega)
  rw [userdbHead, List.append_assoc, readUserdb,
    on_bind_of_ok ((decodes_readUint32 USERDB_MAGIC).on_append _ st), if_neg (not_not.mpr rfl),
    on_bind_of_ok ((decodes_readSize (hashSize map)).on_append t st), hcount]

/-- A file that ends within the head is noticed. -/
theorem cut_readUserdb (map : UserTable V) :
    Cut Stops (fun _ => False) (fun _ : ObjStore U => True) (readUserdb classes cb asserts)
      (userdbHead map) := by
  have hsize : ∀ magic : UInt32, Cut Stops (fun _ => False)
      (fun _ : ObjStore U => magic = USERDB_MAGIC ∧ True)
      (if magic ≠ USERDB_MAGIC then fail .fatal
        else readSize >>= fun nUsers => readUsers classes cb asserts nUsers.toNat (hashInit 256))
      (writeSize (hashSize map)) := by
    rintro magic s hs hne st ⟨rfl, -⟩
    rw [if_neg (not_not.mpr rfl)]
    exact ((decodes_readSize (hashSize map) fun _ => True).cut.before
      (C := fun _ => False) fun _ hf => hf.elim) s hs hne st trivial
  exact Cut.bind (decodes_readUint32 USERDB_MAGIC _) (fun _ hf => hf.elim) hsize

/-- **A cut file of users stops the server** if and only if it ends elsewhere than in a
`struct userdata_t`. -/
theorem userdbInit_stops_iff {map : UserTable V} {file s : List UInt8}
    (hu : StorableUsers classes cb h map) (hwrite : userdbWrite classes cb h map = .ok file)
    (hs : s <+: file) (hne : s ≠ file) (h₀ : ObjStore U) :
    Sat Stops (userdbInit classes cb asserts h₀ (some s)) (fun _ => False) ↔
      ¬ InStruct classes cb h (userdbHead map) (usersOf map) s.length := by
  have hlen : (usersOf map).length = map.stored := List.length_map _
  have hstored := hu.stored_lt
  have hfile := userdbWrite_ok (fun user huser => (hu.users user huser).length_lt) hwrite
  have hinit : (hashInit 256 : UserTable V).Filling (namesEnv asserts) 0 :=
    HashMap.filling_hashInit _ (by decide)
  rw [hfile] at hs hne
  rcases prefix_append_cases hs hne with ⟨hs', hne'⟩ | ⟨t, hst, ht, htne⟩
  · refine iff_of_true (sat_map ((cut_readUserdb map s hs' hne' h₀ trivial).mono
      fun _ hx => hx.1)) ?_
    have hlt : s.length < (userdbHead map).length :=
      lt_of_le_of_ne hs'.length_le fun heq => hne' (hs'.eq_of_length heq)
    rintro ⟨done, user, later, -, hle, -⟩
    rw [List.length_append] at hle
    omega
  · rw [hst, inStruct_append]
    have hrun : userdbInit classes cb asserts h₀ (some (userdbHead map ++ t)) =
        (on (readUsers classes cb asserts (usersOf map).length (hashInit 256)) t h₀).map
          fun x => (x.1.1, x.2) := by
      rw [userdbInit, on_readUserdb hu]
    rw [hrun]
    refine ⟨fun hsat hin => ?_, fun hin => ?_⟩
    · obtain ⟨done, user, later, husers, hle, hlt⟩ := hin
      rw [List.nil_append] at hle hlt
      have hpre : done.flatMap (userBytes classes cb h) <+: t := by
        refine List.prefix_of_prefix_length_le ?_ ht hle
        rw [husers, List.flatMap_append]
        exact List.prefix_append _ _
      obtain ⟨t', htt⟩ := hpre
      rw [← htt, List.length_append] at hlt
      have hcount : (usersOf map).length = done.length + (later.length + 1) := by
        rw [husers, List.length_append, List.length_cons]
      obtain ⟨map', st', hok⟩ := readUsers_of_short (k := later.length)
        (fun user' hu' => hu.users user' (by rw [husers]; exact List.mem_append_left _ hu'))
        hinit (by omega) (by omega) h₀ (t := t')
      rw [hcount, ← htt, hok] at hsat
      exact hsat
    · exact sat_map (cut_readUsers hu.users hinit (by omega) ht htne hin h₀)

end

/-! ## Both files -/

/-- **Which cut files are noticed.**  A world file is refused exactly when it has no room, or when
more than the four bytes of the last id are missing; a file of users stops the server exactly when
it ends elsewhere than in a `struct userdata_t`. -/
theorem cutFiles_noticed_iff {V : Type} (hjunk : junk.length = 4)
    (hw : StorableWorld asserts m h w) (hsave : worldSave m h w = .ok file) (hs : s <+: file)
    (hne : s ≠ file) {cb : UserCallbacks V} {map : UserTable V} {users t : List UInt8}
    (hu : StorableUsers m.objClasses cb h map)
    (hwrite : userdbWrite m.objClasses cb h map = .ok users) (ht : t <+: users) (htne : t ≠ users)
    (h₀ : ObjStore U) :
    (Sat Stops (worldLoadFile m h₀ asserts junk (some s)) (fun x => x.1 = none) ↔
      w.world = [] ∨ s.length + 4 < file.length) ∧
    (Sat Stops (userdbInit m.objClasses cb asserts h₀ (some t)) (fun _ => False) ↔
      ¬ InStruct m.objClasses cb h (userdbHead map) (usersOf map) t.length) :=
  ⟨worldLoad_refuses_iff hjunk hw hsave hs hne h₀, userdbInit_stops_iff hu hwrite ht htne h₀⟩

/-! ### The files of a colliery -/

/-- What is saved of the colliery, and of its users. -/
def collieryFile : List UInt8 := worldBytes coalStore collieryModule colliery

def colliersFile : List UInt8 :=
  userdbHead colliers ++ (usersOf colliers).flatMap (userBytes collieryModule.objClasses litHooks coalStore)

theorem colliery_saved : worldSave collieryModule coalStore colliery = .ok collieryFile := by
  obtain ⟨bytes, hsave⟩ := keptWorld_colliery.exists_worldSave_iff.mpr portable_colliery.walkable
  obtain ⟨rfl, -⟩ := worldSave_ok coalStore collieryModule hsave
  exact hsave

theorem colliers_saved : userdbWrite collieryModule.objClasses litHooks coalStore colliers = .ok colliersFile := by
  obtain ⟨bytes, hwrite⟩ := (keptUserdb_colliers.exists_userdbWrite_iff inOrder_colliers).mpr
    portable_colliers.walkable
  obtain rfl := userdbWrite_ok (fun user hu => (storableUser_colliers user hu).length_lt) hwrite
  exact hwrite

theorem storableUsers_colliers : StorableUsers collieryModule.objClasses litHooks coalStore colliers where
  users := storableUser_colliers
  counted := inOrder_colliers.counted
  stored_lt := by
    rw [stored_colliers]
    decide

/-- The only `struct` ends in front of the inventory. -/
theorem not_inStruct_colliers {k : ℕ} (hk : (userdbHead colliers).length + sizeofUserdata ≤ k) :
    ¬ InStruct collieryModule.objClasses litHooks coalStore (userdbHead colliers) (usersOf colliers) k := by
  rintro ⟨done, user, later, hsplit, hle, hlt⟩
  rw [usersOf_colliers] at hsplit
  cases done with
  | nil =>
    rw [List.flatMap_nil, List.append_nil] at hlt
    omega
  | cons _ done => exact absurd (List.cons.inj hsplit).2 (by simp)

section Cuts

variable {l : List UInt8} {n k : ℕ}

/-- A list without its last `n` items. -/
theorem length_take_sub (l : List UInt8) (n : ℕ) : (l.take (l.length - n)).length = l.length - n := by
  rw [List.length_take]
  omega

theorem take_sub_ne (hn : 0 < n) (hle : n ≤ l.length) : l.take (l.length - n) ≠ l := by
  intro heq
  have hlen := (length_take_sub l n).symm.trans (congrArg List.length heq)
  omega

theorem length_take_sub_lt (hk : k < n) (hle : n ≤ l.length) : (l.take (l.length - n)).length + k < l.length := by
  rw [length_take_sub]
  omega

theorem le_length_take_sub (hle : k + n ≤ l.length) : k ≤ (l.take (l.length - n)).length := by
  rw [length_take_sub]
  exact Nat.le_sub_of_add_le hle

end Cuts

/-- The world of the colliery without the last byte of a name, and its users without what was kept with the coal
of the miner: both are noticed. -/
theorem colliery_cut :
    Sat Stops (worldLoadFile collieryModule ObjStore.init true [1, 2, 3, 4]
      (some (collieryFile.take (collieryFile.length - 5)))) (fun x => x.1 = none) ∧
    Sat Stops (userdbInit collieryModule.objClasses litHooks true ObjStore.init
      (some (colliersFile.take (colliersFile.length - 2)))) (fun _ => False) := by
  have hworld : 5 ≤ collieryFile.length := by decide +kernel
  have husers : (userdbHead colliers).length + sizeofUserdata + 2 ≤ colliersFile.length := by decide +kernel
  have htwo : 2 ≤ colliersFile.length := le_of_add_le_right husers
  have hjunk : [(1 : UInt8), 2, 3, 4].length = 4 := rfl
  have hnoticed := cutFiles_noticed_iff hjunk storableWorld_colliery colliery_saved
    (List.take_prefix (collieryFile.length - 5) _) (take_sub_ne (by decide) hworld)
    storableUsers_colliers colliers_saved (List.take_prefix (colliersFile.length - 2) _)
    (take_sub_ne (by decide) htwo) ObjStore.init
  have hshort := length_take_sub_lt (by decide : 4 < 5) hworld
  have hlong := le_length_take_sub husers
  rw [hnoticed.1, hnoticed.2]
  exact ⟨Or.inr hshort, not_inStruct_colliers hlong⟩

/-! ### A hermitage -/

/-- A module with one room and no classes. -/
def hermitageModule : WorldModule Unit Unit where
  worldName := ⟨[104], by decide⟩
  objClasses _ := none
  verbClasses _ := false
  rooms := [⟨none, none⟩]

/-- The room, with the id `7`. -/
def hermitageRoom : Room Unit where
  id := 7
  data := ⟨none, none⟩
  name := default
  desc := default
  adjacent := List.replicate NUM_DIRECTIONS (-1)
  objects := multimapInit 8
  verbs := hashInit 8
  userdata := none

/-- A world of one room, which is called `a`. -/
def hermitage : WorldData Unit where
  world := [hermitageRoom]
  worldName := ⟨[104], by decide⟩
  verbMap := hashInit 32
  worldMap := ⟨[[⟨⟨[97], by decide⟩, 0⟩]], 1, 1⟩

/-- What was saved of the hermitage, but for the id in the map of rooms. -/
def hermitageFile : List UInt8 :=
  headBytes (ObjStore.init : ObjStore Unit) hermitageModule hermitage ++ writeString ⟨[97], by decide⟩

/-- **A cut file that is accepted.**  Without its last four bytes the file of the hermitage is
loaded, and the name of the room leads to wherever the stack has it. -/
theorem hermitage_without_id :
    worldSave hermitageModule (ObjStore.init : ObjStore Unit) hermitage =
        .ok (hermitageFile ++ writeRoomid 7) ∧
      (worldLoadFile hermitageModule (ObjStore.init : ObjStore Unit) true [1, 2, 3, 4]
        (some hermitageFile)).map (fun x => x.1.map fun w => w.worldMap.nodes.map HashNode.data) =
          .ok (some [67305985]) :=
  ⟨rfl, by decide +kernel⟩

end Storage

end NetCosm
