import NetCosm.Client.Requests
import NetCosm.Table.HashRefinement
import NetCosm.Table.Multimap

/-!
# The user database of `userdb.c`

`map` holds the records by name, and every record points to the multimap that is the inventory
of the user.  Inventories are counted: `multimap_dup` shares one, and `multimap_free` destroys
it when the last record that points to it is gone.

`userdb_add` replaces a record by a copy of what it is given, which shares the inventory of the
record it replaces.  The old record is freed by `hash_overwrite`, and that gives the share back.
So an inventory has two owners for a moment, and one before and after.

## What is kept

`Owned` says it of the whole database: every record is found under the name it carries, its
inventory is there, has the count one, and belongs to no other record.  `owned_step` says that
all operations keep it, and `owned_of_run` that it therefore holds in every state.

The records are those of the requests, `UserData`, with the pointer to the inventory.  `users`
reads off what the requests of a client see of the database, and `users_add` and `users_remove`
say that the requests to add and to remove a record are `Userdb.add` and `Userdb.remove`, seen
that way.

What is inside an inventory plays no part here; the operations on it are those of `World`.
Saving the database changes nothing in memory and is left out.
-/

namespace NetCosm

/-! ## The state -/

/-- `hash_djb` and `compare_strings`. -/
def namesEnv (asserts : Bool) : HashEnv CString where
  hash := hashDjb
  compare := compareStrings
  asserts := asserts

/-- `struct userdata_t`: what is sent and stored, and the address of the inventory. -/
structure UserRecord where
  data : UserData
  objects : Option ℕ
  deriving DecidableEq

/-- `map`, the multimaps that have not been freed, and the next free address. -/
structure Userdb (K V : Type) where
  map : HashMap CString UserRecord
  maps : ℕ → Option (Multimap K V)
  fresh : ℕ

namespace Userdb

variable {K V : Type}

/-- `userdb_init`, of a file with no users. -/
def init : Userdb K V where
  map := hashInit 256
  maps _ := none
  fresh := 0

/-- `userdb_lookup`. -/
def lookup (asserts : Bool) (db : Userdb K V) (key : CString) : Option UserRecord :=
  hashLookup (namesEnv asserts) db.map key

/-- Write to the multimap at an address. -/
def setMap (db : Userdb K V) (a : ℕ) (m : Option (Multimap K V)) : Userdb K V :=
  { db with maps := Function.update db.maps a m }

/-- `multimap_init`, and where it is. -/
def multimapNew (db : Userdb K V) (m : Multimap K V) : ℕ × Userdb K V :=
  (db.fresh, { db.setMap db.fresh (some m) with fresh := db.fresh + 1 })

/-- `multimap_dup`. -/
def multimapDup (db : Userdb K V) (a : ℕ) : Except Fault (Userdb K V) :=
  match db.maps a with
  | some m => .ok (db.setMap a (some { m with refcount := m.refcount + 1 }))
  | none => .error .useAfterFree

/-- `multimap_free`. -/
def multimapFree (db : Userdb K V) (a : ℕ) : Except Fault (Userdb K V) :=
  match db.maps a with
  | some m =>
      if m.refcount - 1 = 0 then .ok (db.setMap a none)
      else .ok (db.setMap a (some { m with refcount := m.refcount - 1 }))
  | none => .error .useAfterFree

/-- `free_userdata`. -/
def freeUserdata (db : Userdb K V) (record : UserRecord) : Except Fault (Userdb K V) :=
  match record.objects with
  | some a => multimapFree db a
  | none => .ok db

/-- The callback `free_userdata`, on the node a table lets go of. -/
def freeNode (db : Userdb K V) : Option (HashNode CString UserRecord) → Except Fault (Userdb K V)
  | some node => freeUserdata db node.data
  | none => .ok db

/-- The inventory of a record that is added: that of the old record, if it has one. -/
def shareObjects (db : Userdb K V) (old : Option UserRecord) : Except Fault (ℕ × Userdb K V) :=
  match old.bind UserRecord.objects with
  | some a => (multimapDup db a).map fun db => (a, db)
  | none => .ok (multimapNew db (multimapInit 8))

/-- `userdb_add`. -/
def add (asserts : Bool) (db : Userdb K V) (data : UserData) :
    Except Fault (Bool × Userdb K V) := do
  let (objects, db) ← shareObjects db (db.lookup asserts data.name)
  let (old, map) ← hashOverwrite (namesEnv asserts) db.map data.name ⟨data, some objects⟩
  let db ← freeNode { db with map } old
  .ok (true, db)

/-- `userdb_remove`. -/
def remove (asserts : Bool) (db : Userdb K V) (key : CString) :
    Except Fault (Bool × Userdb K V) :=
  let r := hashRemove (namesEnv asserts) db.map key
  (freeNode { db with map := r.2 } r.1).map fun db => (r.1.isSome, db)

/-- What a world module does that keeps something of its own with a user: it writes to the
record `userdb_lookup` returns. -/
def setUserdata (asserts : Bool) (db : Userdb K V) (key : CString) (userdata : Option ℕ) :
    Except Fault (Userdb K V) :=
  match db.lookup asserts key with
  | some r => .ok { db with
      map := hashSetData (namesEnv asserts) db.map key
        { r with data := { r.data with userdata } } }
  | none => .error .nullPointer

/-- What `userdb_add_obj` and `userdb_del_obj_by_ptr` do: they write to the inventory of a user,
and leave its count alone. -/
def writeObjects (asserts : Bool) (db : Userdb K V) (key : CString) (m : Multimap K V) :
    Except Fault (Userdb K V) :=
  match (db.lookup asserts key).bind UserRecord.objects with
  | some a =>
      match db.maps a with
      | some old => .ok (db.setMap a (some { m with refcount := old.refcount }))
      | none => .error .useAfterFree
  | none => .error .nullPointer

/-- What `userdb_init` does with a record of the file, whose inventory it has filled. -/
def load (asserts : Bool) (db : Userdb K V) (data : UserData) (m : Multimap K V) :
    Except Fault (Userdb K V) := do
  let (a, db) := multimapNew db { m with refcount := 1 }
  let r ← hashInsert (namesEnv asserts) db.map data.name ⟨data, some a⟩
  .ok { db with map := r.2 }

end Userdb

/-- What happens to the user database. -/
inductive UserdbOp (K V : Type) where
  | add (data : UserData)
  | remove (key : CString)
  | setUserdata (key : CString) (userdata : Option ℕ)
  | writeObjects (key : CString) (m : Multimap K V)
  | load (data : UserData) (m : Multimap K V)

/-- One step of a run of the database. -/
def userdbStep {K V : Type} (asserts : Bool) (db : Userdb K V) :
    UserdbOp K V → Except Fault (Userdb K V)
  | .add data => (db.add asserts data).map Prod.snd
  | .remove key => (db.remove asserts key).map Prod.snd
  | .setUserdata key userdata => db.setUserdata asserts key userdata
  | .writeObjects key m => db.writeObjects asserts key m
  | .load data m => db.load asserts data m

/-! ## Looking up names -/

theorem namesEnv_same_iff (asserts : Bool) {a b : CString} : (namesEnv asserts).Same a b ↔ a = b :=
  compareStrings_eq_zero_iff

theorem compatible_namesEnv (asserts : Bool) : (namesEnv asserts).Compatible where
  equiv :=
    { refl := fun _ => (namesEnv_same_iff asserts).mpr rfl
      symm := fun h => (namesEnv_same_iff asserts).mpr ((namesEnv_same_iff asserts).mp h).symm
      trans := fun h h' => (namesEnv_same_iff asserts).mpr
        (((namesEnv_same_iff asserts).mp h).trans ((namesEnv_same_iff asserts).mp h')) }
  hash_eq _ _ h := congrArg hashDjb ((namesEnv_same_iff asserts).mp h)

namespace Userdb

variable {K V : Type} {asserts : Bool} {db db' : Userdb K V}

/-- What is looked up, once the entries of the table are known. -/
theorem lookup_of_entries {m m' : HashMap CString UserRecord} {key : CString} {r : UserRecord}
    (h : ∀ k, hashEntry (namesEnv asserts) m' k =
      if (namesEnv asserts).Same key k then some (key, r) else hashEntry (namesEnv asserts) m k)
    (k : CString) :
    hashLookup (namesEnv asserts) m' k =
      if k = key then some r else hashLookup (namesEnv asserts) m k := by
  rw [hashLookup_eq_map, hashLookup_eq_map, h]
  by_cases hk : k = key
  · rw [if_pos hk, if_pos ((namesEnv_same_iff asserts).mpr hk.symm)]
    rfl
  · rw [if_neg hk, if_neg fun hs => hk ((namesEnv_same_iff asserts).mp hs).symm]

/-- The entry of a name is a record stored under that very name. -/
theorem entry_of_lookup (hplaced : db.map.WellPlaced (namesEnv asserts)) {key : CString}
    {r : UserRecord} (h : db.lookup asserts key = some r) :
    hashEntry (namesEnv asserts) db.map key = some (key, r) := by
  rw [lookup, hashLookup_eq_map, Option.map_eq_some_iff] at h
  obtain ⟨⟨k, d⟩, he, rfl⟩ := h
  obtain ⟨n, -, hs, heq⟩ := (hashEntry_eq_some_iff (compatible_namesEnv asserts) hplaced).mp he
  have hkey : key = k := by
    rw [(namesEnv_same_iff asserts).mp hs]
    exact congrArg Prod.fst heq
  rw [he, hkey]

theorem lookup_eq_none_iff {key : CString} :
    db.lookup asserts key = none ↔ hashEntry (namesEnv asserts) db.map key = none := by
  rw [lookup, hashLookup_eq_map, Option.map_eq_none_iff]

/-! ## Inventories have one owner -/

/-- **The database is in order**: every record is found under the name it carries, and has an
inventory, which is counted once and belongs to no other record. -/
structure Owned (asserts : Bool) (db : Userdb K V) : Prop where
  placed : db.map.WellPlaced (namesEnv asserts)
  name_eq : ∀ key r, db.lookup asserts key = some r → r.data.name = key
  objects : ∀ key r, db.lookup asserts key = some r →
    ∃ a m, r.objects = some a ∧ db.maps a = some m ∧ m.refcount = 1
  inj : ∀ key key' r r', db.lookup asserts key = some r → db.lookup asserts key' = some r' →
    r.objects = r'.objects → key = key'
  lt_fresh : ∀ a, db.fresh ≤ a → db.maps a = none

theorem owned_init (asserts : Bool) : (init : Userdb K V).Owned asserts := by
  have hnone : ∀ key, (init : Userdb K V).lookup asserts key = none := by
    intro key
    rw [lookup_eq_none_iff]
    exact hashEntry_fresh _ _ _
  refine ⟨wellPlaced_hashInit _ _, ?_, ?_, ?_, fun _ _ => rfl⟩
  · intro key r h
    exact absurd ((hnone key).symm.trans h) (by simp)
  · intro key r h
    exact absurd ((hnone key).symm.trans h) (by simp)
  · intro key _ r _ h
    exact absurd ((hnone key).symm.trans h) (by simp)

/-- A record of the database has an inventory whose address has been handed out. -/
theorem Owned.lt_of_lookup (hdb : db.Owned asserts) {key : CString} {r : UserRecord} {a : ℕ}
    (h : db.lookup asserts key = some r) (ha : r.objects = some a) : a < db.fresh := by
  obtain ⟨b, m, hb, hm, -⟩ := hdb.objects key r h
  obtain rfl := Option.some.inj (ha.symm.trans hb)
  by_contra hle
  rw [hdb.lt_fresh a (Nat.le_of_not_lt hle)] at hm
  exact absurd hm (by simp)

@[simp] theorem maps_setMap (a : ℕ) (m : Option (Multimap K V)) :
    (db.setMap a m).maps = Function.update db.maps a m := rfl

/-- Giving back a share of an inventory that has another owner. -/
theorem multimapFree_of_shared {a : ℕ} {m : Multimap K V} (hm : db.maps a = some m)
    (hcount : m.refcount - 1 ≠ 0) :
    multimapFree db a = .ok (db.setMap a (some { m with refcount := m.refcount - 1 })) := by
  unfold multimapFree
  rw [hm]
  dsimp only
  rw [if_neg hcount]

/-- Giving back the last share of an inventory. -/
theorem multimapFree_of_last {a : ℕ} {m : Multimap K V} (hm : db.maps a = some m)
    (hcount : m.refcount = 1) : multimapFree db a = .ok (db.setMap a none) := by
  unfold multimapFree
  rw [hm]
  dsimp only
  rw [hcount, UInt32.sub_self, if_pos rfl]

/-- Sharing an inventory and giving the share back leaves the inventories as they were. -/
theorem multimapDup_freeUserdata {a : ℕ} {m : Multimap K V} (hm : db.maps a = some m)
    (hcount : m.refcount = 1) {r : UserRecord} (hr : r.objects = some a)
    (map : HashMap CString UserRecord) :
    ∃ db₁, multimapDup db a = .ok db₁ ∧ db₁.map = db.map ∧
      freeUserdata { db₁ with map } r = .ok { db with map } := by
  have hback : m.refcount + 1 - 1 = m.refcount := add_sub_cancel_right ..
  refine ⟨db.setMap a (some { m with refcount := m.refcount + 1 }), ?_, rfl, ?_⟩
  · rw [multimapDup, hm]
  · rw [freeUserdata, hr]
    refine (multimapFree_of_shared (m := { m with refcount := m.refcount + 1 })
      (Function.update_self ..) ?_).trans ?_
    · dsimp only
      rw [hback, hcount]
      decide
    · rw [setMap, maps_setMap]
      dsimp only
      rw [hback, Function.update_idem, ← hm, Function.update_eq_self]
      rfl

/-- **`userdb_add` of a user who has a record**: the record is replaced, with the inventory of the
old one, and no inventory changes. -/
theorem add_of_lookup (hdb : db.Owned asserts) (data : UserData) {old : UserRecord}
    (hold : db.lookup asserts data.name = some old) :
    ∃ map, db.add asserts data = .ok (true, { db with map }) ∧
      map.WellPlaced (namesEnv asserts) ∧
      ∀ k, hashLookup (namesEnv asserts) map k =
        if k = data.name then some ⟨data, old.objects⟩ else db.lookup asserts k := by
  obtain ⟨a, m, ha, hm, hcount⟩ := hdb.objects _ _ hold
  have hentry := entry_of_lookup hdb.placed hold
  obtain ⟨map, hover⟩ := hashOverwrite_of_entry hentry ⟨data, some a⟩
  obtain ⟨-, hplaced, hentries⟩ :=
    hashOverwrite_entries (compatible_namesEnv asserts) hdb.placed hover
  obtain ⟨db₁, hdup, hmap, hfree⟩ := multimapDup_freeUserdata hm hcount ha map
  refine ⟨map, ?_, hplaced, fun k => ?_⟩
  · rw [add, hold, shareObjects, Option.bind_some, ha]
    simp only [hdup, Except.map]
    show (hashOverwrite (namesEnv asserts) db₁.map data.name ⟨data, some a⟩ >>= _) = _
    rw [hmap, hover]
    show (freeUserdata { db₁ with map } old >>= _) = _
    rw [hfree]
    rfl
  · rw [lookup_of_entries hentries, ha]
    rfl

/-- **`userdb_add` of a new user**: the record is added with an inventory of its own. -/
theorem add_of_none (hdb : db.Owned asserts) {data : UserData} {b : Bool}
    (hnone : db.lookup asserts data.name = none) (h : db.add asserts data = .ok (b, db')) :
    b = true ∧ db'.maps = Function.update db.maps db.fresh (some (multimapInit 8)) ∧
      db'.fresh = db.fresh + 1 ∧ db'.map.WellPlaced (namesEnv asserts) ∧
      ∀ k, db'.lookup asserts k =
        if k = data.name then some ⟨data, some db.fresh⟩ else db.lookup asserts k := by
  rw [add, hnone] at h
  obtain ⟨r, hr, h⟩ := bind_eq_ok (x := .ok (multimapNew db (multimapInit 8))) h
  obtain rfl := Except.ok.inj hr
  obtain ⟨⟨old, map⟩, hover, hrest⟩ := bind_eq_ok h
  obtain ⟨hold, hplaced, hentries⟩ :=
    hashOverwrite_entries (compatible_namesEnv asserts) hdb.placed hover
  have hold' : old = none := by
    rwa [lookup_eq_none_iff.mp hnone, Option.map_eq_none_iff] at hold
  subst hold'
  obtain ⟨rfl, rfl⟩ := Prod.mk.inj (Except.ok.inj hrest)
  exact ⟨rfl, rfl, rfl, hplaced, lookup_of_entries hentries⟩

/-! ## Every operation keeps the database in order -/

/-- A record is replaced by one with the same inventory. -/
theorem Owned.replace (hdb : db.Owned asserts) {key : CString} {old r : UserRecord}
    {map : HashMap CString UserRecord} (hold : db.lookup asserts key = some old)
    (hplaced : map.WellPlaced (namesEnv asserts))
    (hlookup : ∀ k, hashLookup (namesEnv asserts) map k =
      if k = key then some r else db.lookup asserts k)
    (hname : r.data.name = key) (hobjects : r.objects = old.objects) :
    ({ db with map } : Userdb K V).Owned asserts := by
  have hlook : ∀ k r', ({ db with map } : Userdb K V).lookup asserts k = some r' →
      ∃ r₀, db.lookup asserts k = some r₀ ∧ r'.objects = r₀.objects ∧
        (r'.data.name = k ↔ r₀.data.name = k) := by
    intro k r' h
    rw [lookup, hlookup] at h
    split at h
    · rename_i hk
      subst hk
      obtain rfl := Option.some.inj h
      exact ⟨old, hold, hobjects, iff_of_true hname (hdb.name_eq _ _ hold)⟩
    · exact ⟨r', h, rfl, Iff.rfl⟩
  refine ⟨hplaced, ?_, ?_, ?_, hdb.lt_fresh⟩
  · intro k r' h
    obtain ⟨r₀, h₀, -, hiff⟩ := hlook k r' h
    exact hiff.mpr (hdb.name_eq k r₀ h₀)
  · intro k r' h
    obtain ⟨r₀, h₀, hobj, -⟩ := hlook k r' h
    rw [hobj]
    exact hdb.objects k r₀ h₀
  · intro k k' r' r'' h h' heq
    obtain ⟨r₀, h₀, hobj, -⟩ := hlook k r' h
    obtain ⟨r₁, h₁, hobj', -⟩ := hlook k' r'' h'
    exact hdb.inj k k' r₀ r₁ h₀ h₁ (hobj.symm.trans (heq.trans hobj'))

/-- The table is another one, in which every name is looked up as before. -/
theorem Owned.of_lookup_eq (hdb : db.Owned asserts) {map : HashMap CString UserRecord}
    (hplaced : map.WellPlaced (namesEnv asserts))
    (hlookup : ∀ k, hashLookup (namesEnv asserts) map k = db.lookup asserts k) :
    ({ db with map } : Userdb K V).Owned asserts := by
  have hlook : ∀ k, ({ db with map } : Userdb K V).lookup asserts k = db.lookup asserts k := hlookup
  refine ⟨hplaced, fun k r h => hdb.name_eq k r ((hlook k).symm.trans h),
    fun k r h => hdb.objects k r ((hlook k).symm.trans h), ?_, hdb.lt_fresh⟩
  intro k k' r r' h h'
  exact hdb.inj k k' r r' ((hlook k).symm.trans h) ((hlook k').symm.trans h')

/-- One more inventory, which no record has. -/
theorem Owned.multimapNew (hdb : db.Owned asserts) (m : Multimap K V) :
    (multimapNew db m).2.Owned asserts := by
  refine ⟨hdb.placed, hdb.name_eq, ?_, hdb.inj, ?_⟩
  · intro key r h
    obtain ⟨a, m', ha, hm', hcount⟩ := hdb.objects key r h
    have hlt := hdb.lt_of_lookup h ha
    refine ⟨a, m', ha, ?_, hcount⟩
    exact (Function.update_of_ne (Nat.ne_of_lt hlt) ..).trans hm'
  · intro a ha
    have hlt : db.fresh < a := ha
    exact (Function.update_of_ne (Nat.ne_of_gt hlt) ..).trans (hdb.lt_fresh a (Nat.le_of_lt hlt))

/-- A record is added, with an inventory of its own. -/
theorem Owned.extend (hdb : db.Owned asserts) (data : UserData) {m : Multimap K V}
    {map : HashMap CString UserRecord} (hcount : m.refcount = 1)
    (hplaced : map.WellPlaced (namesEnv asserts))
    (hlookup : ∀ k, hashLookup (namesEnv asserts) map k =
      if k = data.name then some ⟨data, some db.fresh⟩ else db.lookup asserts k) :
    (⟨map, Function.update db.maps db.fresh (some m), db.fresh + 1⟩ :
      Userdb K V).Owned asserts := by
  have hnew := hdb.multimapNew m
  have hlook : ∀ k r, hashLookup (namesEnv asserts) map k = some r →
      k = data.name ∧ r = ⟨data, some db.fresh⟩ ∨ db.lookup asserts k = some r := by
    intro k r h
    rw [hlookup] at h
    split at h
    · exact Or.inl ⟨by assumption, (Option.some.inj h).symm⟩
    · exact Or.inr h
  -- no other record has the new inventory
  have hother : ∀ k r, db.lookup asserts k = some r → r.objects ≠ some db.fresh :=
    fun k r h heq => Nat.lt_irrefl _ (hdb.lt_of_lookup h heq)
  refine ⟨hplaced, ?_, ?_, ?_, hnew.lt_fresh⟩
  · intro k r h
    rcases hlook k r h with ⟨rfl, rfl⟩ | h
    · rfl
    · exact hdb.name_eq k r h
  · intro k r h
    rcases hlook k r h with ⟨rfl, rfl⟩ | h
    · exact ⟨db.fresh, m, rfl, Function.update_self .., hcount⟩
    · exact hnew.objects k r h
  · intro k k' r r' h h' heq
    rcases hlook k r h with ⟨rfl, rfl⟩ | h <;> rcases hlook k' r' h' with ⟨rfl, rfl⟩ | h'
    · rfl
    · exact absurd heq.symm (hother k' r' h')
    · exact absurd heq (hother k r h)
    · exact hdb.inj k k' r r' h h' heq

theorem owned_add (hdb : db.Owned asserts) {data : UserData} {b : Bool}
    (h : db.add asserts data = .ok (b, db')) : db'.Owned asserts := by
  cases hold : db.lookup asserts data.name with
  | some old =>
    obtain ⟨map, hadd, hplaced, hlookup⟩ := add_of_lookup hdb _ hold
    obtain ⟨-, rfl⟩ := Prod.mk.inj (Except.ok.inj (hadd.symm.trans h))
    exact hdb.replace hold hplaced hlookup rfl rfl
  | none =>
    obtain ⟨-, hmaps, hfresh, hplaced, hlookup⟩ := add_of_none hdb hold h
    obtain ⟨map, maps, fresh⟩ := db'
    obtain rfl : maps = _ := hmaps
    obtain rfl : fresh = _ := hfresh
    exact hdb.extend data rfl hplaced hlookup

/-- **`userdb_remove`** takes the record out and destroys its inventory. -/
theorem remove_of_lookup (hdb : db.Owned asserts) {key : CString} {old : UserRecord} {a : ℕ}
    (hold : db.lookup asserts key = some old) (ha : old.objects = some a) :
    ∃ map, db.remove asserts key =
        .ok (true, ⟨map, Function.update db.maps a none, db.fresh⟩) ∧
      map.WellPlaced (namesEnv asserts) ∧
      ∀ k, hashLookup (namesEnv asserts) map k =
        if k = key then none else db.lookup asserts k := by
  obtain ⟨b, m, hb, hm, hcount⟩ := hdb.objects _ _ hold
  obtain rfl := Option.some.inj (ha.symm.trans hb)
  obtain ⟨-, hplaced, hentries⟩ :=
    hashRemove_entries (compatible_namesEnv asserts) hdb.placed key
  have hnode : (hashRemove (namesEnv asserts) db.map key).1 = some ⟨key, old⟩ := by
    have hentry := entry_of_lookup hdb.placed hold
    cases hp : db.map.pos (namesEnv asserts) key with
    | none =>
      rw [hashEntry_eq_none_iff_pos.mpr hp] at hentry
      exact absurd hentry (by simp)
    | some i =>
      obtain ⟨hk, hd⟩ := Prod.mk.inj (Option.some.inj ((hashEntry_of_pos hp).symm.trans hentry))
      rw [hashRemove, hp]
      dsimp only
      rw [List.getElem?_eq_getElem (pos_lt hp)]
      exact congrArg some (congrArg₂ HashNode.mk hk hd)
  refine ⟨_, ?_, hplaced, fun k => ?_⟩
  · have hfree : multimapFree
        ⟨(hashRemove (namesEnv asserts) db.map key).2, db.maps, db.fresh⟩ a = _ :=
      multimapFree_of_last hm hcount
    rw [remove, hnode, freeNode, freeUserdata, ha]
    exact congrArg (Except.map fun db => (true, db)) hfree
  · rw [hashLookup_eq_map, hentries, lookup, hashLookup_eq_map]
    by_cases hk : k = key
    · rw [if_pos hk, if_pos ((namesEnv_same_iff asserts).mpr hk.symm)]
      rfl
    · rw [if_neg hk, if_neg fun hs => hk ((namesEnv_same_iff asserts).mp hs).symm]

/-- Removing a user who has no record changes nothing. -/
theorem remove_of_none {key : CString} (hnone : db.lookup asserts key = none) :
    db.remove asserts key = .ok (false, db) := by
  have hpos := hashEntry_eq_none_iff_pos.mp (lookup_eq_none_iff.mp hnone)
  have hrem : hashRemove (namesEnv asserts) db.map key = (none, db.map) := by
    rw [hashRemove, hpos]
  rw [remove, hrem]
  rfl

theorem owned_remove (hdb : db.Owned asserts) {key : CString} {b : Bool}
    (h : db.remove asserts key = .ok (b, db')) : db'.Owned asserts := by
  cases hold : db.lookup asserts key with
  | none =>
    obtain ⟨-, rfl⟩ := Prod.mk.inj (Except.ok.inj ((remove_of_none hold).symm.trans h))
    exact hdb
  | some old =>
    obtain ⟨a, m, ha, -, -⟩ := hdb.objects _ _ hold
    obtain ⟨map, hrem, hplaced, hlookup⟩ := remove_of_lookup hdb hold ha
    obtain ⟨-, rfl⟩ := Prod.mk.inj (Except.ok.inj (hrem.symm.trans h))
    have hlook : ∀ k r, hashLookup (namesEnv asserts) map k = some r →
        k ≠ key ∧ db.lookup asserts k = some r := by
      intro k r h
      rw [hlookup] at h
      split at h
      · exact absurd h (by simp)
      · exact ⟨by assumption, h⟩
    refine ⟨hplaced, fun k r h => hdb.name_eq k r (hlook k r h).2, ?_, ?_, ?_⟩
    · intro k r h
      obtain ⟨hne, hk⟩ := hlook k r h
      obtain ⟨a', m', ha', hm', hcount⟩ := hdb.objects k r hk
      refine ⟨a', m', ha', (Function.update_of_ne ?_ ..).trans hm', hcount⟩
      rintro rfl
      exact hne (hdb.inj k key r old hk hold (ha'.trans ha.symm))
    · intro k k' r r' h h' heq
      exact hdb.inj k k' r r' (hlook k r h).2 (hlook k' r' h').2 heq
    · intro a' ha'
      show Function.update db.maps a none a' = none
      rw [Function.update_apply, hdb.lt_fresh a' ha', ite_self]

theorem owned_setUserdata (hdb : db.Owned asserts) {key : CString} {userdata : Option ℕ}
    (h : db.setUserdata asserts key userdata = .ok db') : db'.Owned asserts := by
  cases hold : db.lookup asserts key with
  | none =>
    rw [setUserdata, hold] at h
    exact absurd h (by simp)
  | some old =>
    rw [setUserdata, hold] at h
    obtain rfl := Except.ok.inj h
    refine hdb.replace (r := { old with data := { old.data with userdata } }) hold
      (hdb.placed.hashSetData _ _) ?_ (hdb.name_eq key old hold) rfl
    exact lookup_of_entries (hashSetData_entries (compatible_namesEnv asserts) hdb.placed
      (entry_of_lookup hdb.placed hold) _)

theorem owned_writeObjects (hdb : db.Owned asserts) {key : CString} {m : Multimap K V}
    (h : db.writeObjects asserts key m = .ok db') : db'.Owned asserts := by
  unfold writeObjects at h
  split at h
  · rename_i a ha
    split at h
    · rename_i old hm
      obtain rfl := Except.ok.inj h
      refine ⟨hdb.placed, hdb.name_eq, ?_, hdb.inj, ?_⟩
      · intro k r hk
        obtain ⟨a', m', ha', hm', hcount⟩ := hdb.objects k r hk
        by_cases hne : a' = a
        · subst hne
          obtain rfl := Option.some.inj (hm.symm.trans hm')
          exact ⟨a', _, ha', Function.update_self .., hcount⟩
        · exact ⟨a', m', ha', (Function.update_of_ne hne ..).trans hm', hcount⟩
      · intro a' ha'
        have hne : a' ≠ a := by
          rintro rfl
          rw [hdb.lt_fresh a' ha'] at hm
          exact absurd hm (by simp)
        exact (Function.update_of_ne hne ..).trans (hdb.lt_fresh a' ha')
    · exact absurd h (by simp)
  · exact absurd h (by simp)

theorem owned_load (hdb : db.Owned asserts) {data : UserData} {m : Multimap K V}
    (h : db.load asserts data m = .ok db') : db'.Owned asserts := by
  obtain ⟨⟨old, map⟩, hins, heq⟩ := bind_eq_ok h
  obtain rfl := Except.ok.inj heq
  obtain ⟨-, hplaced, hentries⟩ :=
    hashInsert_entries (compatible_namesEnv asserts) hdb.placed hins
  cases hold : db.lookup asserts data.name with
  | none =>
    refine hdb.extend data rfl hplaced (lookup_of_entries fun k => ?_)
    have hiff : (namesEnv asserts).Same data.name k ∧ hashEntry (namesEnv asserts) db.map k = none ↔
        (namesEnv asserts).Same data.name k := by
      refine and_iff_left_of_imp fun hs => ?_
      rw [← (namesEnv_same_iff asserts).mp hs]
      exact lookup_eq_none_iff.mp hold
    rw [hentries]
    simp only [hiff]
  | some r =>
    refine (hdb.multimapNew { m with refcount := 1 }).of_lookup_eq hplaced fun k => ?_
    have hthere : ¬((namesEnv asserts).Same data.name k ∧
        hashEntry (namesEnv asserts) db.map k = none) := by
      rintro ⟨hs, hnone⟩
      rw [← (namesEnv_same_iff asserts).mp hs, entry_of_lookup hdb.placed hold] at hnone
      exact absurd hnone (by simp)
    rw [hashLookup_eq_map, hentries, if_neg hthere]
    exact (hashLookup_eq_map ..).symm

/-- **The database is in order in every state of every run.** -/
theorem owned_step {op : UserdbOp K V} (hdb : db.Owned asserts)
    (h : userdbStep asserts db op = .ok db') : db'.Owned asserts := by
  cases op with
  | add data =>
    obtain ⟨⟨b, db₁⟩, hadd, rfl⟩ := map_eq_ok h
    exact owned_add hdb hadd
  | remove key =>
    obtain ⟨⟨b, db₁⟩, hrem, rfl⟩ := map_eq_ok h
    exact owned_remove hdb hrem
  | setUserdata key userdata => exact owned_setUserdata hdb h
  | writeObjects key m => exact owned_writeObjects hdb h
  | load data m => exact owned_load hdb h

theorem owned_run {ops : List (UserdbOp K V)} (hdb : db.Owned asserts)
    (h : Runs.run (userdbStep asserts) db ops = .ok db') : db'.Owned asserts :=
  Runs.invariant_run (fun _ _ _ hs hstep => owned_step hs hstep) hdb h

/-! ## The number of users -/

theorem map_multimapFree {a : ℕ} (h : multimapFree db a = .ok db') : db'.map = db.map := by
  unfold multimapFree at h
  split at h
  · split at h
    all_goals
      rw [← Except.ok.inj h]
      rfl
  · cases h

theorem map_freeNode {n : Option (HashNode CString UserRecord)} (h : freeNode db n = .ok db') :
    db'.map = db.map := by
  cases n with
  | none => exact congrArg Userdb.map (Except.ok.inj h).symm
  | some n =>
    simp only [freeNode, freeUserdata] at h
    split at h
    · exact map_multimapFree h
    · exact congrArg Userdb.map (Except.ok.inj h).symm

theorem map_shareObjects {old : Option UserRecord} {r : ℕ × Userdb K V} (h : shareObjects db old = .ok r) :
    r.2.map = db.map := by
  unfold shareObjects at h
  split at h
  · obtain ⟨db₁, hdup, rfl⟩ := map_eq_ok h
    unfold multimapDup at hdup
    split at hdup
    · rw [← Except.ok.inj hdup]
      rfl
    · cases hdup
  · rw [← Except.ok.inj h]
    rfl

/-- **`userdb_size` is the number of the users**, in every state of every run. -/
theorem exact_step {op : UserdbOp K V} (h0 : 0 < db.map.tableSz) (hdb : db.map.Exact)
    (h : userdbStep asserts db op = .ok db') : db'.map.Exact := by
  cases op with
  | add data =>
    obtain ⟨⟨b, db₁⟩, hadd, rfl⟩ := map_eq_ok h
    obtain ⟨⟨a, db₂⟩, hshare, hadd⟩ := bind_eq_ok hadd
    obtain ⟨⟨old, map⟩, hover, hadd⟩ := bind_eq_ok hadd
    obtain ⟨db₃, hfree, hadd⟩ := bind_eq_ok hadd
    obtain ⟨-, rfl⟩ := Prod.mk.inj (Except.ok.inj hadd)
    have hmap : db₂.map = db.map := map_shareObjects hshare
    rw [hmap] at hover
    rw [map_freeNode hfree]
    exact exact_hashOverwrite h0 hdb hover
  | remove key =>
    obtain ⟨⟨b, db₁⟩, hremove, rfl⟩ := map_eq_ok h
    obtain ⟨db₂, hfree, heq⟩ := map_eq_ok hremove
    obtain ⟨-, rfl⟩ := Prod.mk.inj heq
    rw [map_freeNode hfree]
    exact exact_hashRemove _ hdb key
  | setUserdata key userdata =>
    simp only [userdbStep, setUserdata] at h
    split at h
    · rw [← Except.ok.inj h]
      exact exact_hashSetData h0 hdb
    · cases h
  | writeObjects key m =>
    simp only [userdbStep, writeObjects] at h
    split at h
    · split at h
      · rw [← Except.ok.inj h]
        exact hdb
      · cases h
    · cases h
  | load data m =>
    obtain ⟨⟨old, map⟩, hins, heq⟩ := bind_eq_ok h
    rw [← Except.ok.inj heq]
    exact exact_hashInsert h0 hdb hins

theorem exact_run {ops : List (UserdbOp K V)} (hdb : db.Owned asserts) (hexact : db.map.Exact)
    (h : Runs.run (userdbStep asserts) db ops = .ok db') : db'.Owned asserts ∧ db'.map.Exact := by
  refine Runs.invariant_run (I := fun db : Userdb K V => db.Owned asserts ∧ db.map.Exact) ?_ ⟨hdb, hexact⟩ h
  rintro s op s' ⟨hs, he⟩ hstep
  exact ⟨owned_step hs hstep, exact_step hs.placed.size_pos he hstep⟩

/-! ## What a client sees of the database -/

/-- The records by name, without their inventories. -/
def users (asserts : Bool) (db : Userdb K V) (key : CString) : Option UserData :=
  (db.lookup asserts key).map UserRecord.data

section Requests

variable {σ : Type} {s : ServerState σ}

/-- **The request to add a record is `Userdb.add`.** -/
theorem users_add (hdb : db.Owned asserts) (hs : s.users = db.users asserts) {data : UserData}
    {b : Bool} (h : db.add asserts data = .ok (b, db')) :
    userdbAdd s data = (b, { s with users := db'.users asserts }) := by
  have hlookup : b = true ∧ ∀ k, db'.users asserts k =
      if k = data.name then some data else db.users asserts k := by
    cases hold : db.lookup asserts data.name with
    | some old =>
      obtain ⟨map, hadd, -, hlookup⟩ := add_of_lookup hdb _ hold
      obtain ⟨rfl, rfl⟩ := Prod.mk.inj (Except.ok.inj (hadd.symm.trans h))
      refine ⟨rfl, fun k => ?_⟩
      rw [users, lookup, hlookup, apply_ite (Option.map UserRecord.data)]
      rfl
    | none =>
      obtain ⟨hb, -, -, -, hlookup⟩ := add_of_none hdb hold h
      refine ⟨hb, fun k => ?_⟩
      rw [users, hlookup, apply_ite (Option.map UserRecord.data)]
      rfl
  have husers : Function.update s.users data.name (some data) = db'.users asserts := by
    funext k
    rw [Function.update_apply, hlookup.2, hs]
  rw [userdbAdd, husers, hlookup.1]

/-- **The request to remove a record is `Userdb.remove`.** -/
theorem users_remove (hdb : db.Owned asserts) (hs : s.users = db.users asserts) {key : CString}
    {b : Bool} (h : db.remove asserts key = .ok (b, db')) :
    userdbRemove s key = (b, { s with users := db'.users asserts }) := by
  have hlookup : b = (db.users asserts key).isSome ∧ ∀ k, db'.users asserts k =
      if k = key then none else db.users asserts k := by
    cases hold : db.lookup asserts key with
    | none =>
      obtain ⟨rfl, rfl⟩ := Prod.mk.inj (Except.ok.inj ((remove_of_none hold).symm.trans h))
      refine ⟨by rw [users, hold]; rfl, fun k => ?_⟩
      split
      · rename_i hk
        rw [hk, users, hold]
        rfl
      · rfl
    | some old =>
      obtain ⟨a, m, ha, -, -⟩ := hdb.objects _ _ hold
      obtain ⟨map, hrem, -, hlookup⟩ := remove_of_lookup hdb hold ha
      obtain ⟨rfl, rfl⟩ := Prod.mk.inj (Except.ok.inj (hrem.symm.trans h))
      refine ⟨by rw [users, hold]; rfl, fun k => ?_⟩
      rw [users, lookup, hlookup, apply_ite (Option.map UserRecord.data)]
      rfl
  have husers : Function.update s.users key none = db'.users asserts := by
    funext k
    rw [Function.update_apply, hlookup.2, hs]
  rw [userdbRemove, husers, hlookup.1, hs]

end Requests

end Userdb

end NetCosm
